import Wreath.CedarEvalProofs

/-! # Cedar decisions — one algebra on every path

`is_authorized` and the batch behind it scan every policy and keep diagnostics; the
route denial and the native batch look at the forbids, then at the permits, and stop at
the first that is satisfied. All four come to what Cedar says: allow when no forbid is
satisfied and some permit is (`decisions_agree`). -/

namespace Cedar

open List

/-! ## Plans -/

mutual
/-- `cedar_expr_compile` refuses what is nested too deeply. -/
def exprCompiles (node : Expr) (depth : Nat) : Bool :=
  decide (depth ≤ cedarMaxDepth) && match node with
    | .const _ | .var _ => true
    | .and l r | .or l r | .eq l r | .ne l r | .isIn l r | .arith _ l r
    | .cmp _ l r | .method _ l r | .isOf l _ r =>
      exprCompiles l (depth + 1) && exprCompiles r (depth + 1)
    | .not e | .has e _ | .like e _ _ | .is e _ | .getattr e _ | .isEmpty e =>
      exprCompiles e (depth + 1)
    | .ite c l r =>
      exprCompiles c (depth + 1) && exprCompiles l (depth + 1) && exprCompiles r (depth + 1)
    | .set items => itemsCompile items (depth + 1)
    | .record entries => entriesCompile entries (depth + 1)
termination_by structural node

def itemsCompile (items : List Expr) (depth : Nat) : Bool :=
  match items with
  | [] => true
  | e :: es => exprCompiles e depth && itemsCompile es depth
termination_by structural items

def entriesCompile (entries : List (String × Expr)) (depth : Nat) : Bool :=
  match entries with
  | [] => true
  | e :: es => entryCompiles e depth && entriesCompile es depth
termination_by structural entries

def entryCompiles (entry : String × Expr) (depth : Nat) : Bool :=
  match entry with
  | (_, e) => exprCompiles e depth
termination_by structural entry
end

/-- `cedar_plan_policy_compile`. -/
def Policy.compile (policy : Policy) : PlanPolicy where
  policy := policy
  exactAction := match policy.action with
    | .equal uid => some uid
    | _ => none

structure Plan where
  all : List PlanPolicy
  forbids : List PlanPolicy
  permits : List PlanPolicy

variable (r : Request) (policies : List Policy)

/-- `cedar_compile_plan`. -/
def cedarCompilePlan : Except String Plan :=
  if policies.all fun p => p.conditions.all fun c =>
      exprCompiles c.expression 0 then
    .ok {
      all := policies.map Policy.compile
      forbids := (policies.filter (·.effect == .forbid)).map Policy.compile
      permits := (policies.filter (·.effect == .permit)).map Policy.compile }
  else .error "invalid compiled Cedar expression"

/-! ## Decisions -/

inductive Reason where
  | noPermit | permit | forbid
  deriving DecidableEq, Repr

def Reason.text : Reason → String
  | .noPermit => "no permit policy matched"
  | .permit => "cedar permit"
  | .forbid => "explicit forbid"

structure Decision where
  allowed : Bool
  reason : Reason
  diagnostics : List String
  deriving DecidableEq, Repr

def Effect.text : Effect → String
  | .permit => "permit"
  | .forbid => "forbid"

variable (repr : String → String)

def skippedLine (policy : Policy) (e : EvalError) : String :=
  policy.effect.text ++ " " ++ policy.id ++ " skipped: " ++ e.message repr

def matchedLine (policy : Policy) : String := policy.effect.text ++ " " ++ policy.id ++ " matched"

structure Scan where
  diagnostics : List String
  permitted : Bool
  forbidden : Bool

/-- One turn of the loop of `cedar_authorize_plan_diagnostic`. -/
def Scan.next (r : Request) (s : Scan) (compiled : PlanPolicy) : Scan :=
  let policy := compiled.policy
  match cedarPlanPolicySatisfied r compiled with
  | .error e =>
    { s with diagnostics := s.diagnostics ++ [skippedLine repr policy e] }
  | .ok true =>
    { diagnostics := s.diagnostics ++ [matchedLine policy]
      permitted := s.permitted || policy.effect == .permit
      forbidden := s.forbidden || policy.effect == .forbid }
  | .ok false => s

/-- `cedar_authorize_plan_diagnostic`. -/
def cedarAuthorizePlanDiagnostic (plan : Plan) (r : Request) : Decision :=
  let s := plan.all.foldl (Scan.next repr r) ⟨[], false, false⟩
  { allowed := !(s.forbidden || !s.permitted)
    reason := if s.forbidden then .forbid
      else if s.permitted then .permit else .noPermit
    diagnostics := s.diagnostics }

/-- A loop of `cedar_authorize_plan_one`: an error is cleared, the first satisfied policy
    ends it. -/
def anySatisfied (r : Request) : List PlanPolicy → Bool
  | [] => false
  | compiled :: rest =>
    match cedarPlanPolicySatisfied r compiled with
    | .error _ => anySatisfied r rest
    | .ok true => true
    | .ok false => anySatisfied r rest

/-- `cedar_authorize_plan_one`. -/
def cedarAuthorizePlanOne (plan : Plan) (r : Request) : Bool × Reason :=
  if anySatisfied r plan.forbids then (false, .forbid)
  else if anySatisfied r plan.permits then (true, .permit)
  else (false, .noPermit)

/-- `cedar_plan_denial`: nothing, or why. -/
def cedarPlanDenial (plan : Plan) (r : Request) : Option String :=
  let (allowed, reason) := cedarAuthorizePlanOne plan r
  if allowed then none else some reason.text

/-- The loop of `cedar_is_authorized_many`. -/
def cedarIsAuthorizedMany (plan : Plan) (request : Uid → Request) (stopOnDenied : Bool) :
    List Uid → List Decision
  | [] => []
  | resource :: resources =>
    let d := cedarAuthorizePlanDiagnostic repr plan (request resource)
    if stopOnDenied && !d.allowed then [d]
    else
      d :: cedarIsAuthorizedMany plan request stopOnDenied resources

/-- The loop of `cedar_is_authorized_many_native`. -/
def cedarIsAuthorizedManyNative (plan : Plan) (request : Uid → Request)
    (stopOnDenied : Bool) : List Uid → List (Bool × Reason)
  | [] => []
  | resource :: resources =>
    let d := cedarAuthorizePlanOne plan (request resource)
    if stopOnDenied && !d.1 then [d]
    else
      d :: cedarIsAuthorizedManyNative plan request stopOnDenied resources

/-! ## Entry points -/

/-- The names among the keys of a mapping. -/
def namesOf {α : Type} (entries : List (Key × α)) : List String :=
  entries.filterMap fun e => match e.1 with
    | .str name => some name
    | .other _ => none

/-- A dict, or another mapping; a name is in it once. -/
structure Context where
  exact : Bool
  entries : List (Key × Raw)
  once : (namesOf entries).Nodup

def Context.raw (c : Context) : Raw := if c.exact then .dict c.entries else .mapping c.entries

/-- `dict(context or {})`. -/
def dictOf : Option Context → Raw
  | none => .dict []
  | some c => .dict c.entries

/-- `context or {}`. -/
def orEmpty : Option Context → Raw
  | none => .dict []
  | some c => if c.entries = [] then .dict [] else c.raw

section Entry

variable (plan : Plan) (principal action : Uid) (context : Option Context) (store : Store)

/-- `CedarPolicies.is_authorized`. -/
def isAuthorized (resource : Uid) : Except String Decision :=
  (cedarConvertValue "context" (dictOf context)).map fun context =>
    cedarAuthorizePlanDiagnostic repr plan ⟨principal, action, resource, context, store⟩

/-- `CedarPolicies._route_denial`. -/
def routeDenial (resource : Uid) : Except String (Option String) :=
  (cedarConvertValue "context" (orEmpty context)).map fun context =>
    cedarPlanDenial plan ⟨principal, action, resource, context, store⟩

/-- `CedarPolicies._is_authorized_many`. -/
def isAuthorizedMany (resources : List Uid) (stopOnDenied : Bool) : Except String (List Decision) :=
  (cedarConvertValue "context" (dictOf context)).map fun context =>
    cedarIsAuthorizedMany repr plan
      (fun resource => ⟨principal, action, resource, context, store⟩)
      stopOnDenied resources

/-- `CedarPolicies._is_authorized_many_native`. -/
def isAuthorizedManyNative (resources : List Uid) (stopOnDenied : Bool) :
    Except String (List (Bool × Reason)) :=
  (cedarConvertValue "context" (dictOf context)).map fun context =>
    cedarIsAuthorizedManyNative plan
      (fun resource => ⟨principal, action, resource, context, store⟩)
      stopOnDenied resources

end Entry

/-! ## The algebra -/

/-- A policy is satisfied; one that errs is not. -/
def Policy.satisfied (policy : Policy) : Bool :=
  match cedarPlanPolicySatisfied r policy.compile with
  | .ok b => b
  | .error _ => false

/-- **CEDAR'S ALGEBRA**: no forbid is satisfied, and some permit is. -/
def Allows : Prop :=
  (∀ p ∈ policies, p.effect = .forbid → p.satisfied r = false)
    ∧ ∃ p ∈ policies, p.effect = .permit ∧ p.satisfied r = true

instance : Decidable (Allows r policies) := inferInstanceAs (Decidable (_ ∧ _))

/-- There is a satisfied policy with this effect. -/
def Fires (effect : Effect) : Prop := ∃ p ∈ policies, p.effect = effect ∧ p.satisfied r = true

instance (effect : Effect) : Decidable (Fires r policies effect) :=
  inferInstanceAs (Decidable (∃ p ∈ policies, _))

def reasonOf : Reason :=
  if Fires r policies .forbid then .forbid
  else if Fires r policies .permit then .permit
  else .noPermit

/-- What a policy adds to the diagnostics, by its own outcome. -/
def Policy.line (r : Request) (policy : Policy) : Option String :=
  match cedarPlanPolicySatisfied r policy.compile with
  | .error e => some (skippedLine repr policy e)
  | .ok true => some (matchedLine policy)
  | .ok false => none

def verdict (policies : List Policy) (r : Request) : Decision where
  allowed := decide (Allows r policies)
  reason := reasonOf r policies
  diagnostics := policies.filterMap (Policy.line repr r)

/-- A batch that stops answers up to the first denial. -/
def answered {α : Type} (stopOnDenied : Bool) (allowed : α → Bool) : List α → List α
  | [] => []
  | d :: ds =>
    if stopOnDenied && !allowed d then [d]
    else d :: answered stopOnDenied allowed ds

section Algebra

variable {repr : String → String} {policies : List Policy} {r : Request}

theorem allows_iff : Allows r policies ↔ ¬Fires r policies .forbid ∧ Fires r policies .permit := by
  refine and_congr_left fun _ => ⟨?_, ?_⟩
  · rintro h ⟨p, hp, heffect, hsat⟩
    exact nomatch (h p hp heffect).symm.trans hsat
  · intro h p hp heffect
    rw [← Bool.not_eq_true]
    exact fun hsat => h ⟨p, hp, heffect, hsat⟩

theorem Fires.perm {policies' : List Policy} (h : policies.Perm policies')
    (effect : Effect) : Fires r policies effect ↔ Fires r policies' effect :=
  exists_congr fun _ => and_congr_left fun _ => h.mem_iff

theorem fires_cons (p : Policy) (ps : List Policy) (effect : Effect) :
    Fires r (p :: ps) effect ↔ (p.effect = effect ∧ p.satisfied r = true) ∨ Fires r ps effect := by
  rw [Fires, exists_mem_cons_iff]
  rfl

theorem not_fires_nil (effect : Effect) : ¬Fires r [] effect := by
  rintro ⟨p, hp, -⟩
  cases hp

theorem anySatisfied_iff (effect : Effect) (ps : List Policy) :
    anySatisfied r ((ps.filter (·.effect == effect)).map Policy.compile) = true
      ↔ Fires r ps effect := by
  induction ps with
  | nil => exact iff_of_false Bool.false_ne_true (not_fires_nil effect)
  | cons p ps ih =>
    rw [fires_cons]
    by_cases heffect : p.effect = effect
    · rw [filter_cons_of_pos (by simp [heffect]), map_cons, anySatisfied, Policy.satisfied, ← ih]
      cases cedarPlanPolicySatisfied r p.compile with
      | error e => simp
      | ok b => cases b <;> simp [heffect]
    · rw [filter_cons_of_neg (by simp [heffect]), ih]
      simp [heffect]

variable {plan : Plan}

/-- The fast path decides by the algebra. -/
theorem authorizePlanOne_eq (hplan : cedarCompilePlan policies = .ok plan) :
    cedarAuthorizePlanOne plan r = (decide (Allows r policies), reasonOf r policies) := by
  rw [cedarCompilePlan] at hplan
  split at hplan
  · cases hplan
    have hforbid := anySatisfied_iff (r := r) .forbid policies
    have hpermit := anySatisfied_iff (r := r) .permit policies
    have hallows : Allows r policies ↔ _ := allows_iff
    rw [cedarAuthorizePlanOne, reasonOf]
    simp only [hforbid, hpermit, hallows]
    by_cases hf : Fires r policies .forbid
    · simp [hf]
    · by_cases hp : Fires r policies .permit <;> simp [hf, hp]
  · cases hplan

/-- **SCAN**: after the policies so far, the flags say which effects have fired and the
    lines are theirs. -/
theorem scan_eq (r : Request) (ps : List Policy) (s : Scan) :
    (ps.map Policy.compile).foldl (Scan.next repr r) s
        = { diagnostics := s.diagnostics ++ ps.filterMap (Policy.line repr r)
            permitted := s.permitted || decide (Fires r ps .permit)
            forbidden := s.forbidden || decide (Fires r ps .forbid) } := by
  induction ps generalizing s with
  | nil => simp [not_fires_nil]
  | cons p ps ih =>
    have hother : (Effect.permit == Effect.forbid) = false
        ∧ (Effect.forbid == Effect.permit) = false := ⟨rfl, rfl⟩
    rw [map_cons, foldl_cons, ih, Scan.next]
    simp only [fires_cons, Policy.satisfied, filterMap_cons, Policy.line]
    cases houtcome : cedarPlanPolicySatisfied r p.compile with
    | error e => simp [Policy.compile]
    | ok b =>
      cases b with
      | false => simp
      | true =>
        cases heffect : p.effect <;>
          simp [Policy.compile, heffect, hother]

section

variable (hplan : cedarCompilePlan policies = .ok plan)
include hplan

/-- The scan decides by the algebra. -/
theorem authorizePlanDiagnostic_eq :
    cedarAuthorizePlanDiagnostic repr plan r = verdict repr policies r := by
  rw [cedarCompilePlan] at hplan
  split at hplan
  · cases hplan
    have hallows : Allows r policies ↔ _ := allows_iff
    rw [cedarAuthorizePlanDiagnostic]
    simp only [scan_eq, verdict, reasonOf]
    by_cases hf : Fires r policies .forbid
    · simp [hf, hallows]
    · by_cases hp : Fires r policies .permit <;> simp [hf, hp, hallows]
  · cases hplan

theorem isAuthorizedMany_eq (request : Uid → Request) (stopOnDenied : Bool) (resources : List Uid) :
    cedarIsAuthorizedMany repr plan request stopOnDenied resources
      = answered stopOnDenied Decision.allowed
        (resources.map fun x => verdict repr policies (request x)) := by
  induction resources with
  | nil => rfl
  | cons x xs ih =>
    rw [cedarIsAuthorizedMany, map_cons, answered, ih, authorizePlanDiagnostic_eq hplan]

theorem isAuthorizedManyNative_eq (request : Uid → Request)
    (stopOnDenied : Bool) (resources : List Uid) :
    cedarIsAuthorizedManyNative plan request stopOnDenied resources
      = answered stopOnDenied Prod.fst (resources.map fun x =>
        (decide (Allows (request x) policies), reasonOf (request x) policies)) := by
  induction resources with
  | nil => rfl
  | cons x xs ih =>
    rw [cedarIsAuthorizedManyNative, map_cons, answered, ih, authorizePlanOne_eq hplan]

theorem planDenial_eq : cedarPlanDenial plan r
      = if Allows r policies then none else some (reasonOf r policies).text := by
  rw [cedarPlanDenial, authorizePlanOne_eq hplan]
  simp only [decide_eq_true_eq]

end

/-- Without a policy that is not satisfied, the same is allowed. -/
theorem allows_skip {before after : List Policy} {p : Policy} (h : p.satisfied r = false) :
    Allows r (before ++ p :: after) ↔ Allows r (before ++ after) := by
  have hfires : ∀ effect, Fires r (before ++ p :: after) effect
      ↔ Fires r (before ++ after) effect := by
    intro effect
    rw [Fires.perm perm_middle, fires_cons, h]
    simp only [Bool.false_eq_true, and_false, false_or]
  rw [allows_iff, allows_iff, hfires, hfires]

/-- The context as the evaluator gets it. -/
def contextValue (context : Option Context) : Except String Value :=
  cedarConvertValue "context" (dictOf context)

/-- A copy of the mapping converts to the same record. -/
theorem convert_orEmpty (context : Option Context) :
    cedarConvertValue "context" (orEmpty context) = contextValue context := by
  cases context with
  | none => rfl
  | some c =>
    rw [orEmpty, contextValue, dictOf]
    split
    · rename_i hnil
      rw [hnil]
    · rw [Context.raw]
      split
      · rfl
      · rw [cedarConvertValue, cedarConvertValue]

/-- **DECISIONS AGREE**: each entry point converts the context, and fails as that does; with a
    context it answers by Cedar's algebra, with a line for each policy and an answer for each
    resource. A policy that errs may as well not be there, and the order of the policies does not
    matter. -/
theorem decisions_agree (repr : String → String) (policies : List Policy) {plan : Plan}
    (hplan : cedarCompilePlan policies = .ok plan) (principal action : Uid)
    (context : Option Context) (store : Store) :
    (∀ resource, isAuthorized repr plan principal action context store resource
        = (contextValue context).map fun c =>
          { allowed := decide (Allows ⟨principal, action, resource, c, store⟩ policies)
            reason := reasonOf ⟨principal, action, resource, c, store⟩ policies
            diagnostics := policies.filterMap (Policy.line repr
              ⟨principal, action, resource, c, store⟩) })
      ∧ (∀ resource, routeDenial plan principal action context store resource
        = (contextValue context).map fun c =>
          if Allows ⟨principal, action, resource, c, store⟩ policies then none
          else some (reasonOf ⟨principal, action, resource, c, store⟩ policies).text)
      ∧ (∀ resources stopOnDenied,
        isAuthorizedMany repr plan principal action context store resources stopOnDenied
        = (contextValue context).map fun c =>
          answered stopOnDenied Decision.allowed (resources.map fun x =>
            verdict repr policies ⟨principal, action, x, c, store⟩))
      ∧ (∀ resources stopOnDenied,
        isAuthorizedManyNative plan principal action context store resources stopOnDenied
        = (contextValue context).map fun c =>
          answered stopOnDenied Prod.fst (resources.map fun x =>
            (decide (Allows ⟨principal, action, x, c, store⟩ policies),
              reasonOf ⟨principal, action, x, c, store⟩ policies)))
      ∧ (∀ before p after r e, policies = before ++ p :: after →
        cedarPlanPolicySatisfied r p.compile = .error e →
        (Allows r policies ↔ Allows r (before ++ after)))
      ∧ (∀ policies' r, policies.Perm policies' → (Allows r policies ↔ Allows r policies')
          ∧ reasonOf r policies = reasonOf r policies') := by
  refine ⟨fun resource => ?_, fun resource => ?_, fun resources stop => ?_,
    fun resources stop => ?_, fun before p after r e hsplit herr => ?_,
    fun policies' r hperm => ?_⟩
  · exact congrArg ((contextValue context).map ·) (funext fun c => authorizePlanDiagnostic_eq hplan)
  · rw [routeDenial, convert_orEmpty]
    exact congrArg ((contextValue context).map ·) (funext fun c => planDenial_eq hplan)
  · exact congrArg ((contextValue context).map ·)
      (funext fun c => isAuthorizedMany_eq hplan _ stop resources)
  · exact congrArg ((contextValue context).map ·)
      (funext fun c => isAuthorizedManyNative_eq hplan _ stop resources)
  · rw [hsplit]
    exact allows_skip (by rw [Policy.satisfied, herr])
  · have hfires := Fires.perm (r := r) hperm
    rw [allows_iff, allows_iff, reasonOf, reasonOf]
    simp only [hfires, and_self]

end Algebra

/-- The front door is open to anybody and the back door to nobody; the policy between them
    reads a missing attribute. -/
def openHouse : List Policy :=
  [{ effect := .permit, id := "policy0", principal := .any, action := .any,
     resource := .any, conditions := [] },
   { effect := .forbid, id := "policy1", principal := .any, action := .any,
     resource := .any,
     conditions := [⟨false, .getattr (.var .context) "blocked"⟩] },
   { effect := .forbid, id := "policy2", principal := .any, action := .any,
     resource := .equal ⟨"Door", "back"⟩, conditions := [] }]

theorem open_house_agrees : ∃ plan, cedarCompilePlan openHouse = .ok plan
      ∧ routeDenial plan ⟨"User", "u"⟩ ⟨"Action", "enter"⟩ none ⟨[], nofun⟩
        ⟨"Door", "front"⟩ = .ok none
      ∧ routeDenial plan ⟨"User", "u"⟩ ⟨"Action", "enter"⟩ none ⟨[], nofun⟩
        ⟨"Door", "back"⟩ = .ok (some "explicit forbid") := by
  refine ⟨_, rfl, ?_, ?_⟩
  · rw [(decisions_agree id openHouse rfl _ _ _ _).2.1]
    decide
  · rw [(decisions_agree id openHouse rfl _ _ _ _).2.1]
    decide

end Cedar
