import Wreath.CedarValueProofs
import Wreath.SearchProofs

/-! # Cedar evaluation — expressions, scopes, policies

A compiled expression is evaluated against a request: the four variables and the entity
store. An evaluation error belongs to the policy that is being evaluated. Ancestry is
searched over direct parents, once per entity (`cedarAncestorMatches_iff`). -/

namespace Cedar

/-! ## The store -/

structure Entry where
  attrs : List (String × Value)
  parents : List Uid

mutual
/-- No frozenset in it: what conversion returns. -/
def Value.converted (v : Value) : Bool :=
  match v with
  | .list items => itemsConverted items
  | .frozen _ => false
  | .record fields => fieldsConverted fields
  | _ => true
termination_by structural v

def itemsConverted (items : List Value) : Bool :=
  match items with
  | [] => true
  | x :: xs => x.converted && itemsConverted xs
termination_by structural items

def fieldsConverted (fields : List (String × Value)) : Bool :=
  match fields with
  | [] => true
  | f :: fs => fieldConverted f && fieldsConverted fs
termination_by structural fields

def fieldConverted (f : String × Value) : Bool :=
  match f with
  | (_, v) => v.converted
termination_by structural f
end

/-- Attributes are converted when the store is built. -/
structure Store where
  entries : List (Uid × Entry)
  converted : ∀ e ∈ entries, fieldsConverted e.2.attrs = true

variable (store : Store) (operand : Value)

def Store.find (uid : Uid) : Option Entry := (store.entries.find? fun e => e.1 == uid).map Prod.snd

def Store.parents (uid : Uid) : List Uid :=
  match store.find uid with
  | some entry => entry.parents
  | none => []

/-- `cedar_ancestor_matches`, with the test for the target or the targets. -/
def cedarAncestorMatches (uid : Uid) (target : Uid → Bool) : Bool :=
  Worklist.search store.parents target ((store.parents uid).length
      + Worklist.edges store.parents (store.entries.map Prod.fst) [])
    (store.parents uid) []

theorem Store.mem_of_parents {store : Store} (u : Uid) (hu : store.parents u ≠ []) :
    u ∈ store.entries.map Prod.fst := by
  rw [Store.parents, Store.find] at hu
  cases hfind : store.entries.find? (fun e => e.1 == u) with
  | none =>
    rw [hfind] at hu
    exact absurd rfl hu
  | some e =>
    have hfound := List.find?_some hfind
    have hkey : e.1 = u := eq_of_beq hfound
    exact List.mem_map.mpr ⟨e, List.mem_of_find?_eq_some hfind, hkey⟩

/-- Zero or more links to a direct parent. -/
def Store.Below : Uid → Uid → Prop := Relation.ReflTransGen fun u p => p ∈ store.parents u

/-- **ANCESTRY IS REACHABILITY** through direct parents. -/
theorem cedarAncestorMatches_iff (uid : Uid) (target : Uid → Bool) :
    cedarAncestorMatches store uid target = true
      ↔ ∃ a, Relation.TransGen (fun u p => p ∈ store.parents u) uid a ∧ target a = true := by
  rw [cedarAncestorMatches, Worklist.search_iff Store.mem_of_parents]
  constructor
  · rintro ⟨p, hp, a, hreach, htgt⟩
    exact ⟨a, Relation.TransGen.head' hp hreach, htgt⟩
  · rintro ⟨a, hreach, htgt⟩
    obtain ⟨p, hp, hreach⟩ := Relation.TransGen.head'_iff.mp hreach
    exact ⟨p, hp, a, hreach, htgt⟩

/-- The entity itself is tested apart from its ancestors. -/
theorem below_iff (uid : Uid) (target : Uid → Bool) :
    (target uid || cedarAncestorMatches store uid target) = true
      ↔ ∃ a, store.Below uid a ∧ target a = true := by
  rw [Bool.or_eq_true, cedarAncestorMatches_iff]
  constructor
  · rintro (h | ⟨a, hreach, htgt⟩)
    · exact ⟨uid, .refl, h⟩
    · exact ⟨a, hreach.to_reflTransGen, htgt⟩
  · rintro ⟨a, hreach, htgt⟩
    rcases Relation.reflTransGen_iff_eq_or_transGen.mp hreach with rfl | hreach
    · exact .inl htgt
    · exact .inr ⟨a, hreach, htgt⟩

/-- The candidates on the right of `in`, up to one that is the left side. -/
def inCandidates (uid : Uid) : List Value → Except EvalError Bool
  | [] => .ok false
  | .entity candidate :: items =>
    if candidate == uid then .ok true else inCandidates uid items
  | other :: _ => .error (.inCandidate (cedarTypeName other))

/-- `parent in targets`. -/
def isTarget (items : List Value) (parent : Uid) : Bool := items.any fun
    | .entity target => target == parent
    | _ => false

/-- `cedar_in`: on the right a uid or a list of them, and no other set. -/
def cedarIn (left right : Value) : Except EvalError Bool :=
  match left with
  | .entity uid =>
    match right with
    | .list items =>
      match inCandidates uid items with
      | .ok false =>
        .ok (cedarAncestorMatches store uid (isTarget items))
      | stopped => stopped
    | .entity target =>
      .ok (target == uid || cedarAncestorMatches store uid (target == ·))
    | _ => .error (.inRight (cedarTypeName right))
  | _ => .error (.inLeft (cedarTypeName left))

/-! ## Patterns -/

/-- `PyUnicode_Find` of a segment between two positions. -/
def findBetween (text segment : List Char) (start limit : Nat) : Option Nat :=
  (List.range' start (limit + 1 - start)).find? fun i =>
    decide (i + segment.length ≤ limit) && segment.isPrefixOf (text.drop i)

/-- The segments between the first and the last, each after the one before. -/
def segmentsFound (text : List Char) (limit : Nat) : Nat → List (List Char) → Bool
  | _, [] => true
  | start, segment :: segments =>
    if segment = [] then segmentsFound text limit start segments
    else
      match findBetween text segment start limit with
      | none => false
      | some found =>
        segmentsFound text limit (found + segment.length) segments

/-- `cedar_like`, over the first segment and the others. -/
def cedarLike (value head : String) (rest : List String) : Bool :=
  let text := value.toList
  match (rest.map String.toList).getLast? with
  | none => value == head
  | some tail =>
    let start := head.length
    let limit := text.length - tail.length
    head.toList.isPrefixOf text && tail.isSuffixOf text && decide (start ≤ limit)
      && segmentsFound text limit start (rest.map String.toList).dropLast

/-! ## Expressions -/

inductive Variable where
  | principal | action | resource | context
  deriving DecidableEq, Repr

inductive Arith where
  | add | sub | mul
  deriving DecidableEq, Repr

inductive Comparison where
  | lt | le | gt | ge
  deriving DecidableEq, Repr

inductive SetMethod where
  | contains | containsAll | containsAny
  deriving DecidableEq, Repr

/-- What the parser emits as a constant. -/
inductive Literal where
  | bool (b : Bool)
  | long (n : I64)
  | string (s : String)
  | entity (uid : Uid)
  deriving DecidableEq, Repr

def Literal.value : Literal → Value
  | .bool b => .bool b
  | .long n => .long n
  | .string s => .string s
  | .entity u => .entity u

/-- A compiled expression, one constructor for an opcode; `is` and set methods have one for
    each form. -/
inductive Expr where
  | const (value : Literal)
  | var (v : Variable)
  | and (left right : Expr)
  | or (left right : Expr)
  | not (operand : Expr)
  | arith (op : Arith) (left right : Expr)
  | cmp (op : Comparison) (left right : Expr)
  | eq (left right : Expr)
  | ne (left right : Expr)
  | isIn (left right : Expr)
  | has (operand : Expr) (attr : String)
  | like (operand : Expr) (head : String) (rest : List String)
  | is (operand : Expr) (type : String)
  | isOf (operand : Expr) (type : String) (ancestor : Expr)
  | ite (condition yes no : Expr)
  | set (items : List Expr)
  | record (entries : List (String × Expr))
  | getattr (operand : Expr) (attr : String)
  | method (m : SetMethod) (operand argument : Expr)
  | isEmpty (operand : Expr)

structure Request where
  principal : Uid
  action : Uid
  resource : Uid
  context : Value
  store : Store

def Request.var (r : Request) : Variable → Value
  | .principal => .entity r.principal
  | .action => .entity r.action
  | .resource => .entity r.resource
  | .context => r.context

/-- `cedar_eval_bool_native`, of the operand's value. -/
def cedarEvalBool (operation : String) (result : Except EvalError Value) : Except EvalError Bool :=
  match result with
  | .ok (.bool b) => .ok b
  | .ok v => .error (.requires operation "bool" (cedarTypeName v))
  | .error e => .error e

/-- `cedar_eval_i64_native`. -/
def cedarEvalI64 (operation : String) (result : Except EvalError Value) : Except EvalError I64 :=
  match result with
  | .ok (.long n) => .ok n
  | .ok v => .error (.requires operation "long" (cedarTypeName v))
  | .error e => .error e

def Arith.apply (op : Arith) (left right : I64) : Except EvalError Value :=
  let exact := match op with
    | .add => left.val + right.val
    | .sub => left.val - right.val
    | .mul => left.val * right.val
  match I64.ofInt exact with
  | some n => .ok (.long n)
  | none => .error .overflow

def Comparison.apply (op : Comparison) (left right : I64) : Bool :=
  match op with
  | .lt => decide (left.val < right.val)
  | .le => decide (left.val ≤ right.val)
  | .gt => decide (left.val > right.val)
  | .ge => decide (left.val ≥ right.val)

def cedarHas (attr : String) : Except EvalError Bool :=
  match operand with
  | .entity uid =>
    match store.find uid with
    | some entry => .ok (lookup entry.attrs attr).isSome
    | none => .ok false
  | .record fields => .ok (lookup fields attr).isSome
  | _ => .error (.has (cedarTypeName operand))

/-- `cedar_eval_getattr`. -/
def cedarEvalGetattr (attr : String) : Except EvalError Value :=
  match operand with
  | .entity uid =>
    match store.find uid with
    | none => .error (.noEntity uid)
    | some entry =>
      match lookup entry.attrs attr with
      | none => .error (.noEntityAttribute uid attr)
      | some value => .ok value
  | .record fields =>
    match lookup fields attr with
    | none => .error (.noRecordAttribute attr)
    | some value => .ok value
  | _ => .error (.attributeAccess (cedarTypeName operand))

/-- The loop of `containsAll` (goes on while contained) and `containsAny` (goes on while not). -/
def containsLoop (members : List Value) (depth : Nat) (goOn : Bool) :
    List Value → Except EvalError Bool
  | [] => .ok goOn
  | item :: items =>
    match cedarSetContains item depth members with
    | .ok outcome =>
      if outcome = goOn then containsLoop members depth goOn items
      else .ok outcome
    | .error e => .error e

def SetMethod.apply (m : SetMethod) (members : List Value) (argument : Value)
    (depth : Nat) : Except EvalError Bool :=
  match m with
  | .contains => cedarSetContains argument depth members
  | .containsAll =>
    match argument.members with
    | some items => containsLoop members depth true items
    | none => .error .setArgument
  | .containsAny =>
    match argument.members with
    | some items => containsLoop members depth false items
    | none => .error .setArgument

def cedarLikeValue (head : String) (rest : List String) : Except EvalError Bool :=
  match operand with
  | .string s => .ok (cedarLike s head rest)
  | _ => .error (.like (cedarTypeName operand))

def typeOf : Except EvalError String :=
  match operand with
  | .entity uid => .ok uid.type
  | _ => .error (.is (cedarTypeName operand))

def membersOf : Except EvalError (List Value) :=
  match operand.members with
  | some members => .ok members
  | none => .error (.setMethod (cedarTypeName operand))

mutual
/-- `cedar_eval_native`. -/
def cedarEvalNative (r : Request) (node : Expr) (depth : Nat) : Except EvalError Value :=
  if cedarMaxDepth < depth then .error .expressionDepth
  else
    match node with
    | .const value => .ok value.value
    | .var v => .ok (r.var v)
    | .and left right => do
        let l ← cedarEvalBool "&&" (cedarEvalNative r left (depth + 1))
        if l then
          let b ← cedarEvalBool "&&" (cedarEvalNative r right (depth + 1))
          pure (.bool b)
        else pure (.bool false)
    | .or left right => do
        let l ← cedarEvalBool "||" (cedarEvalNative r left (depth + 1))
        if l then pure (.bool true)
        else
          let b ← cedarEvalBool "||" (cedarEvalNative r right (depth + 1))
          pure (.bool b)
    | .not operand => do
        let b ← cedarEvalBool "!" (cedarEvalNative r operand (depth + 1))
        pure (.bool (!b))
    | .arith op left right => do
        let l ← cedarEvalI64 "arithmetic" (cedarEvalNative r left (depth + 1))
        let n ← cedarEvalI64 "arithmetic" (cedarEvalNative r right (depth + 1))
        op.apply l n
    | .cmp op left right => do
        let l ← cedarEvalI64 "comparison" (cedarEvalNative r left (depth + 1))
        let n ← cedarEvalI64 "comparison" (cedarEvalNative r right (depth + 1))
        pure (.bool (op.apply l n))
    | .eq left right => do
        let v ← cedarEvalNative r left (depth + 1)
        let w ← cedarEvalNative r right (depth + 1)
        let b ← cedarEq v w 0
        pure (.bool b)
    | .ne left right => do
        let v ← cedarEvalNative r left (depth + 1)
        let w ← cedarEvalNative r right (depth + 1)
        let b ← cedarEq v w 0
        pure (.bool (!b))
    | .isIn left right => do
        let v ← cedarEvalNative r left (depth + 1)
        let w ← cedarEvalNative r right (depth + 1)
        let b ← cedarIn r.store v w
        pure (.bool b)
    | .has operand attr => do
        let v ← cedarEvalNative r operand (depth + 1)
        let b ← cedarHas r.store v attr
        pure (.bool b)
    | .like operand head rest => do
        let v ← cedarEvalNative r operand (depth + 1)
        let b ← cedarLikeValue v head rest
        pure (.bool b)
    | .is operand type => do
        let v ← cedarEvalNative r operand (depth + 1)
        let t ← typeOf v
        pure (.bool (t == type))
    | .isOf operand type ancestor => do
        let v ← cedarEvalNative r operand (depth + 1)
        let t ← typeOf v
        -- the ancestor is evaluated for an entity of that type only
        if t == type then
          let w ← cedarEvalNative r ancestor (depth + 1)
          let b ← cedarIn r.store v w
          pure (.bool b)
        else pure (.bool false)
    | .ite condition yes no => do
        let b ← cedarEvalBool "if" (cedarEvalNative r condition (depth + 1))
        if b then cedarEvalNative r yes (depth + 1)
        else cedarEvalNative r no (depth + 1)
    | .set items => do
        let values ← evalItems r items (depth + 1)
        pure (.list (distinct values))
    | .record entries => do
        let fields ← evalEntries r entries (depth + 1)
        pure (.record (fields.foldl (fun d f => setItem d f.1 f.2) []))
    | .getattr operand attr => do
        let v ← cedarEvalNative r operand (depth + 1)
        cedarEvalGetattr r.store v attr
    | .method m operand argument => do
        let v ← cedarEvalNative r operand (depth + 1)
        let members ← membersOf v
        let w ← cedarEvalNative r argument (depth + 1)
        let b ← m.apply members w depth
        pure (.bool b)
    | .isEmpty operand => do
        let v ← cedarEvalNative r operand (depth + 1)
        let members ← membersOf v
        pure (.bool members.isEmpty)
termination_by structural node

def evalItems (r : Request) (items : List Expr) (depth : Nat) : Except EvalError (List Value) :=
  match items with
  | [] => pure []
  | item :: items => do
      let v ← cedarEvalNative r item depth
      let vs ← evalItems r items depth
      pure (v :: vs)
termination_by structural items

def evalEntries (r : Request) (entries : List (String × Expr)) (depth : Nat) :
    Except EvalError (List (String × Value)) :=
  match entries with
  | [] => pure []
  | entry :: entries => do
      let f ← evalEntry r entry depth
      let fs ← evalEntries r entries depth
      pure (f :: fs)
termination_by structural entries

def evalEntry (r : Request) (entry : String × Expr) (depth : Nat) :
    Except EvalError (String × Value) :=
  match entry with
  | (name, value) => do
      let v ← cedarEvalNative r value depth
      pure (name, v)
termination_by structural entry
end

/-! ## Policies -/

inductive Scope where
  | any
  | equal (uid : Uid)
  | within (uid : Uid)
  | withinAny (uids : List Uid)
  | ofType (type : String) (ancestor : Option Uid)
  deriving DecidableEq, Repr

inductive Effect where
  | permit | forbid
  deriving DecidableEq, Repr

structure Condition where
  /-- `unless`, and not `when` -/
  isUnless : Bool
  expression : Expr

structure Policy where
  effect : Effect
  id : String
  principal : Scope
  action : Scope
  resource : Scope
  conditions : List Condition

/-- `cedar_scope_matches_native`. -/
def cedarScopeMatches (scope : Scope) (uid : Uid) : Bool :=
  match scope with
  | .any => true
  | .equal value => uid == value
  | .within value =>
    uid == value || cedarAncestorMatches store uid (value == ·)
  | .withinAny values =>
    values.contains uid || cedarAncestorMatches store uid (values.contains ·)
  | .ofType type ancestor =>
    uid.type == type && match ancestor with
        | none => true
        | some value =>
          uid == value || cedarAncestorMatches store uid (value == ·)

section Hierarchy

variable (store : Store) (uid : Uid) (targets : List Uid)

theorem below_one (target : Uid) :
    (uid == target || cedarAncestorMatches store uid (target == ·)) = true
      ↔ store.Below uid target := by
  rw [BEq.comm, below_iff store uid (target == ·)]
  simp only [beq_iff_eq, exists_eq_right']

theorem below_some :
    (targets.contains uid || cedarAncestorMatches store uid (targets.contains ·)) = true
      ↔ ∃ t ∈ targets, store.Below uid t := by
  rw [below_iff store uid (targets.contains ·)]
  simp only [List.contains_iff_mem, and_comm]

theorem inCandidates_entities :
    inCandidates uid (targets.map .entity) = .ok (targets.contains uid) := by
  induction targets with
  | nil => rfl
  | cons t ts ih =>
    rw [List.map_cons, inCandidates, ih, List.contains_cons, BEq.comm]
    cases uid == t <;> rfl

theorem isTarget_entities (parent : Uid) :
    isTarget (targets.map .entity) parent = targets.contains parent := by
  induction targets with
  | nil => rfl
  | cons t ts ih =>
    rw [List.contains_cons, ← ih, BEq.comm]
    rfl

/-- **HIERARCHY TESTS ARE REACHABILITY**, in an expression and in a scope, and the search
    for an ancestor ends whatever the parents are. -/
theorem hierarchy_reachable (target : Uid) :
    (cedarIn store (.entity uid) (.entity target) = .ok true ↔ store.Below uid target)
    ∧ (cedarIn store (.entity uid) (.list (targets.map .entity)) = .ok true
      ↔ ∃ t ∈ targets, store.Below uid t)
    ∧ (cedarScopeMatches store (.within target) uid = true ↔ store.Below uid target)
    ∧ (cedarScopeMatches store (.withinAny targets) uid = true ↔ ∃ t ∈ targets, store.Below uid t)
    ∧ (∀ type, cedarScopeMatches store (.ofType type (some target)) uid = true
      ↔ uid.type = type ∧ store.Below uid target)
    ∧ ∀ goal, Worklist.Ends store.parents goal (store.parents uid) []
      (cedarAncestorMatches store uid goal) := by
  have hone := below_one store uid target
  refine ⟨?_, ?_, hone, below_some store uid targets, fun type => ?_, fun goal => ?_⟩
  · rw [← hone, cedarIn, Except.ok.injEq, BEq.comm]
  · rw [← below_some, cedarIn, inCandidates_entities]
    cases targets.contains uid with
    | true => exact iff_of_true rfl rfl
    | false =>
      rw [funext (isTarget_entities targets)]
      show Except.ok (cedarAncestorMatches store uid targets.contains) = .ok true ↔ _
      rw [Except.ok.injEq, Bool.false_or]
  · rw [cedarScopeMatches, Bool.and_eq_true, beq_iff_eq, hone]
  · exact Worklist.search_ends Store.mem_of_parents le_rfl

end Hierarchy

/-- `cedar_plan_policy_conditions`. -/
def cedarPlanPolicyConditions (r : Request) : List Condition → Except EvalError Bool
  | [] => .ok true
  | condition :: conditions =>
    match cedarEvalNative r condition.expression 0 with
    | .error e => .error e
    | .ok (.bool truth) =>
      if condition.isUnless = truth then .ok false
      else cedarPlanPolicyConditions r conditions
    | .ok v => .error (.condition (cedarTypeName v))

/-- A compiled policy; an equality in the action scope is kept apart. -/
structure PlanPolicy where
  policy : Policy
  exactAction : Option Uid

/-- `cedar_plan_policy_satisfied`. -/
def cedarPlanPolicySatisfied (r : Request) (compiled : PlanPolicy) : Except EvalError Bool :=
  let policy := compiled.policy
  let action := match compiled.exactAction with
    | some action => r.action == action
    | none => cedarScopeMatches r.store policy.action r.action
  if !action then .ok false
  else if !cedarScopeMatches r.store policy.principal r.principal then
    .ok false
  else if !cedarScopeMatches r.store policy.resource r.resource then .ok false
  else cedarPlanPolicyConditions r policy.conditions

end Cedar
