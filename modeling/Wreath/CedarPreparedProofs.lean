import Wreath.CedarDecisionProofs
import Wreath.StepSystemProofs
import Wreath.TableProofs

/-! # The prepared route — contexts that are not converted

`_route_denial_prepared` hands a context of plain values and frozensets to the evaluator
as it is. Every operator reads a frozenset as it reads the list that conversion makes
of it, except `in`: on the right of `in` a frozenset is an error, and an empty list is
not. So a context decides the same either way as long as no value in it is an empty
frozenset (`prepared_same`), and a `forbid` is lost otherwise (`forbid_lost`). -/

namespace Cedar

open Lockstep List Bool

/-- The context that is read as it is, if it is accepted. -/
def Context.prepared (context : Context) : Option Value :=
  if cedarPreparedValue context.raw 0 then context.raw.unconverted else none

/-- `CedarPolicies._route_denial_prepared`. -/
def routeDenialPrepared (plan : Plan) (principal action : Uid) (context : Context) (store : Store)
    (resource : Uid) : Except String (Option String) :=
  match context.prepared with
  | some c => .ok (cedarPlanDenial plan ⟨principal, action, resource, c, store⟩)
  -- `NotImplemented`: the context is converted after all
  | none =>
    (cedarConvertValue "context" context.raw).map fun c =>
      cedarPlanDenial plan ⟨principal, action, resource, c, store⟩

/-! ## Safe values -/

def Value.isEntity : Value → Bool
  | .entity _ => true
  | _ => false

mutual
/-- Not an empty frozenset, nor a record with one in a field; the members of a frozenset are
    no entities. -/
def Value.safe (v : Value) : Bool :=
  match v with
  | .frozen items => !items.isEmpty && items.all fun x => !x.isEntity
  | .record fields => fieldsSafe fields
  | _ => true
termination_by structural v

def fieldsSafe (fields : List (String × Value)) : Bool :=
  match fields with
  | [] => true
  | f :: fs => fieldSafe f && fieldsSafe fs
termination_by structural fields

def fieldSafe (f : String × Value) : Bool :=
  match f with
  | (_, v) => v.safe
termination_by structural f
end

theorem fieldsSafe_iff (fields : List (String × Value)) :
    fieldsSafe fields = true ↔ ∀ f ∈ fields, f.2.safe = true := by
  induction fields with
  | nil => exact iff_of_true rfl nofun
  | cons f fs ih =>
    obtain ⟨name, v⟩ := f
    rw [fieldsSafe, and_eq_true, ih, forall_mem_cons]
    rfl

variable (items : List Value)

theorem itemsConverted_iff : itemsConverted items = true ↔ ∀ x ∈ items, x.converted = true := by
  induction items with
  | nil => exact iff_of_true rfl nofun
  | cons x xs ih => rw [itemsConverted, and_eq_true, ih, forall_mem_cons]

theorem fieldsConverted_iff (fields : List (String × Value)) :
    fieldsConverted fields = true ↔ ∀ f ∈ fields, f.2.converted = true := by
  induction fields with
  | nil => exact iff_of_true rfl nofun
  | cons f fs ih =>
    obtain ⟨name, v⟩ := f
    rw [fieldsConverted, and_eq_true, ih, forall_mem_cons]
    rfl

/-- A converted value is safe, and as it was. -/
theorem converted_safe (v : Value) (h : v.converted = true) : v.safe = true ∧ thaw v = v := by
  induction v using Value.induct with
  | list items ih =>
    rw [Value.converted, itemsConverted_iff] at h
    refine ⟨rfl, ?_⟩
    rw [thaw_list]
    refine congrArg Value.list ?_
    conv_rhs => rw [← map_id items]
    exact map_congr_left fun x hx => (ih x hx (h x hx)).2
  | frozen items => cases h
  | record fields ih =>
    rw [Value.converted, fieldsConverted_iff] at h
    refine ⟨(fieldsSafe_iff fields).mpr fun f hf =>
      (ih f hf (h f hf)).1, ?_⟩
    rw [thaw_record]
    refine congrArg Value.record ?_
    conv_rhs => rw [← map_id fields]
    refine map_congr_left fun f hf => ?_
    rw [thawField_eq, (ih f hf (h f hf)).2]
    rfl
  | _ => exact ⟨rfl, rfl⟩

/-- The value on one side was not converted. -/
def Unlike (v w : Value) : Prop := v.safe = true ∧ w = thaw v

/-! ## Operators -/

variable (store : Store)

section Operators

variable {r : Request} {v w v' w' : Value} {x' : Except EvalError Value}

variable {x : Except EvalError Value}

theorem together_bool (h : Together Unlike x x') (operation : String) :
    Together (· = ·) (cedarEvalBool operation x) (cedarEvalBool operation x') := by
  cases h with
  | error e e' => exact .error ..
  | @ok a a' h =>
    obtain ⟨-, rfl⟩ := h
    cases a with
    | bool b => exact .ok rfl
    | _ => exact .error ..

theorem together_i64 (h : Together Unlike x x') (operation : String) :
    Together (· = ·) (cedarEvalI64 operation x) (cedarEvalI64 operation x') := by
  cases h with
  | error e e' => exact .error ..
  | @ok a a' h =>
    obtain ⟨-, rfl⟩ := h
    cases a with
    | long n => exact .ok rfl
    | _ => exact .error ..

theorem together_eq (hv : Unlike v v') (hw : Unlike w w') (depth : Nat) :
    Together (· = ·) (cedarEq v w depth) (cedarEq v' w' depth) := by
  obtain ⟨-, rfl⟩ := hv
  obtain ⟨-, rfl⟩ := hw
  exact .of_eq (cedarEq_thaw v w depth).symm

theorem inCandidates_thaw (uid : Uid) (items : List Value) :
    inCandidates uid (items.map thaw) = inCandidates uid items := by
  induction items with
  | nil => rfl
  | cons x xs ih =>
    cases x with
    | entity u =>
      show (if u == uid then _ else inCandidates uid (xs.map thaw)) = _
      rw [ih]
      rfl
    | _ => rfl

theorem isTarget_thaw : isTarget (items.map thaw) = isTarget items := by
  funext parent
  rw [isTarget, isTarget, any_map]
  refine any_mem_congr fun x _ => ?_
  cases x <;> rfl

/-- `in` is the operator that can tell: a frozenset on the right is refused, and the list it
    becomes is refused for its first member. -/
theorem together_in (hv : Unlike v v') (hw : Unlike w w') :
    Together (· = ·) (cedarIn store v w) (cedarIn store v' w') := by
  obtain ⟨-, rfl⟩ := hv
  obtain ⟨hsafe, rfl⟩ := hw
  cases v with
  | entity uid =>
    cases w with
    | list items =>
      refine .of_eq ?_
      rw [thaw_list, thaw, cedarIn, cedarIn, inCandidates_thaw, isTarget_thaw]
    | frozen items =>
      cases items with
      | nil => cases hsafe
      | cons x xs =>
        cases x with
        | entity u => cases hsafe
        | _ => exact .error ..
    | entity u => exact .ok rfl
    | _ => exact .error ..
  | _ => exact .error ..

theorem together_has (hv : Unlike v v') (attr : String) :
    Together (· = ·) (cedarHas store v attr) (cedarHas store v' attr) := by
  obtain ⟨-, rfl⟩ := hv
  cases v with
  | entity uid => exact .refl _
  | record fields =>
    refine .of_eq ?_
    rw [thaw_record, cedarHas, cedarHas, lookup_thaw, Option.isSome_map]
  | _ => exact .error ..

theorem lookup_mem {α : Type} {fields : List (String × α)} {name : String}
    {value : α} (h : lookup fields name = some value) : (name, value) ∈ fields := by
  obtain ⟨f, hf, rfl⟩ := Option.map_eq_some_iff.mp h
  have hfound := List.find?_some hf
  rw [← eq_of_beq hfound]
  exact mem_of_find?_eq_some hf

/-- An attribute of an entity was converted with the store. -/
theorem together_getattr (hv : Unlike v v') (attr : String) :
    Together Unlike (cedarEvalGetattr store v attr) (cedarEvalGetattr store v' attr) := by
  obtain ⟨hsafe, rfl⟩ := hv
  cases v with
  | entity uid =>
    show Together Unlike (cedarEvalGetattr store (.entity uid) attr)
      (cedarEvalGetattr store (.entity uid) attr)
    rw [cedarEvalGetattr]
    cases hentry : store.find uid with
    | none => exact .error ..
    | some entry =>
      simp only
      cases hattr : lookup entry.attrs attr with
      | none => exact .error ..
      | some value =>
        obtain ⟨e, he, rfl⟩ := Option.map_eq_some_iff.mp hentry
        have hconv := store.converted e (mem_of_find?_eq_some he)
        have hvalue := (fieldsConverted_iff _).mp hconv _ (lookup_mem hattr)
        obtain ⟨hsafe, hthaw⟩ := converted_safe value hvalue
        exact .ok ⟨hsafe, hthaw.symm⟩
  | record fields =>
    rw [thaw_record, cedarEvalGetattr, cedarEvalGetattr, lookup_thaw]
    cases hattr : lookup fields attr with
    | none => exact .error ..
    | some value =>
      have hvalue := (fieldsSafe_iff fields).mp hsafe _ (lookup_mem hattr)
      exact .ok ⟨hvalue, rfl⟩
  | _ => exact .error ..

theorem together_members (hv : Unlike v v') :
    Together (fun xs xs' => xs' = xs.map thaw) (membersOf v) (membersOf v') := by
  obtain ⟨-, rfl⟩ := hv
  rw [membersOf, membersOf, members_thaw]
  cases v.members with
  | none => exact .error ..
  | some xs => exact .ok rfl

theorem containsLoop_thaw (members : List Value) (depth : Nat) (goOn : Bool) (items : List Value) :
    containsLoop (members.map thaw) depth goOn (items.map thaw)
      = containsLoop members depth goOn items := by
  induction items with
  | nil => rfl
  | cons x xs ih =>
    rw [map_cons, containsLoop, containsLoop, cedarSetContains_thaw, ih]

theorem together_method (m : SetMethod) {members members' : List Value}
    (hmems : members' = members.map thaw) (hw : Unlike w w') (depth : Nat) :
    Together (· = ·) (m.apply members w depth) (m.apply members' w' depth) := by
  obtain ⟨-, rfl⟩ := hw
  subst hmems
  refine .of_eq ?_
  cases m with
  | contains =>
    exact (cedarSetContains_thaw w depth members).symm
  | _ =>
    rw [SetMethod.apply, SetMethod.apply, members_thaw]
    cases w.members with
    | none => rfl
    | some items => exact (containsLoop_thaw members depth _ items).symm

theorem together_like (hv : Unlike v v') (head : String) (rest : List String) :
    Together (· = ·) (cedarLikeValue v head rest) (cedarLikeValue v' head rest) := by
  obtain ⟨-, rfl⟩ := hv
  cases v with
  | string s => exact .refl _
  | _ => exact .error ..

theorem together_type (hv : Unlike v v') : Together (· = ·) (typeOf v) (typeOf v') := by
  obtain ⟨-, rfl⟩ := hv
  cases v with
  | entity u => exact .refl _
  | _ => exact .error ..

theorem distinct_thaw : distinct (items.map thaw) = (distinct items).map thaw := by
  have hfold : ∀ (items seen : List Value), (items.map thaw).foldl (fun seen item =>
          if someSame seen item then seen else seen ++ [item]) (seen.map thaw)
        = (items.foldl (fun seen item =>
          if someSame seen item then seen else seen ++ [item]) seen).map thaw := by
    intro items
    induction items with
    | nil => exact fun _ => rfl
    | cons x xs ih =>
      intro seen
      have hsame : someSame (seen.map thaw) (thaw x) = someSame seen x := by
        rw [someSame_eq, someSame_eq, any_map]
        exact any_mem_congr fun y _ => sameKey_thaw y x
      rw [map_cons, foldl_cons, foldl_cons, hsame]
      cases someSame seen x with
      | true => exact ih seen
      | false =>
        have hmap : seen.map thaw ++ [thaw x] = (seen ++ [x]).map thaw := by
          rw [map_append]
          rfl
        rw [hmap]
        exact ih (seen ++ [x])
  exact hfold items []

theorem setItem_thaw (fields : List (String × Value)) (name : String) (v : Value) :
    setItem (fields.map thawField) name (thaw v) = (setItem fields name v).map thawField := by
  induction fields with
  | nil => rfl
  | cons f fs ih =>
    obtain ⟨name', w⟩ := f
    rw [map_cons, thawField, setItem, setItem, ih]
    split <;> rfl

variable {fields : List (String × Value)}

theorem setItem_safe (h : fieldsSafe fields = true) (name : String) (hv : v.safe = true) :
    fieldsSafe (setItem fields name v) = true := by
  rw [fieldsSafe_iff] at h ⊢
  fun_induction setItem fields name v with
  | case1 => exact forall_mem_singleton.mpr hv
  | case2 => exact forall_mem_cons.mpr ⟨hv, (forall_mem_cons.mp h).2⟩
  | case3 _ _ _ _ _ ih =>
    obtain ⟨hf, hfs⟩ := forall_mem_cons.mp h
    exact forall_mem_cons.mpr ⟨hf, ih hfs hv⟩

/-- The record of the fields, and the record of their thawed values. -/
theorem together_record (h : ∀ f ∈ fields, f.2.safe = true) :
    Unlike (.record (fields.foldl (fun d f => setItem d f.1 f.2) []))
      (.record ((fields.map thawField).foldl (fun d f => setItem d f.1 f.2) [])) := by
  have hfold : ∀ (fields before : List (String × Value)),
      (∀ f ∈ fields, f.2.safe = true) → fieldsSafe before = true →
      fieldsSafe (fields.foldl (fun d f => setItem d f.1 f.2) before) = true
        ∧ (fields.map thawField).foldl (fun d f => setItem d f.1 f.2) (before.map thawField)
          = (fields.foldl (fun d f => setItem d f.1 f.2) before).map thawField := by
    intro fields
    induction fields with
    | nil => exact fun _ _ hbef => ⟨hbef, rfl⟩
    | cons f fs ih =>
      intro before hflds hbef
      obtain ⟨name, v⟩ := f
      obtain ⟨hf, hfs⟩ := forall_mem_cons.mp hflds
      rw [map_cons, foldl_cons, foldl_cons, thawField]
      rw [setItem_thaw]
      exact ih _ hfs (setItem_safe hbef name hf)
  obtain ⟨hsafe, hthaw⟩ := hfold fields [] h rfl
  refine ⟨hsafe, ?_⟩
  rw [thaw_record]
  exact congrArg Value.record hthaw

end Operators

/-! ## Evaluation -/

/-- The request with its context converted. -/
def Request.thawed (r : Request) : Request := { r with context := thaw r.context }

section Evaluation

variable {r : Request}

theorem var_unlike (h : r.context.safe = true) (v : Variable) :
    Unlike (r.var v) (r.thawed.var v) := by
  cases v with
  | context => exact ⟨h, rfl⟩
  | _ => exact ⟨rfl, rfl⟩

theorem bool_unlike {b b' : Bool} (h : b = b') : Unlike (.bool b) (.bool b') := ⟨rfl, h ▸ rfl⟩

theorem arith_together (op : Arith) (m n : I64) :
    Together Unlike (op.apply m n) (op.apply m n) := by
  rw [Arith.apply.eq_def]
  simp only
  split
  · exact .ok ⟨rfl, rfl⟩
  · exact .error ..

/-- A test of a value, as the value of the expression. -/
theorem together_test {x x' : Except EvalError Bool} (h : Together (· = ·) x x') (f : Bool → Bool) :
    Together Unlike (x >>= fun b => pure (.bool (f b))) (x' >>= fun b => pure (.bool (f b))) :=
  h.bind fun _ _ hb => .pure (bool_unlike (congrArg f hb))

mutual
/-- **EVALUATION IN LOCKSTEP**: with the context as it is and with the context converted. -/
theorem eval_together (h : r.context.safe = true) (node : Expr) (depth : Nat) :
    Together Unlike (cedarEvalNative r node depth) (cedarEvalNative r.thawed node depth) := by
  rw [cedarEvalNative.eq_def, cedarEvalNative.eq_def r.thawed]
  by_cases hdepth : cedarMaxDepth < depth
  · rw [if_pos hdepth, if_pos hdepth]
    exact .error ..
  rw [if_neg hdepth, if_neg hdepth]
  match node with
  | .const value => exact .ok (by cases value <;> exact ⟨rfl, rfl⟩)
  | .var v => exact .ok (var_unlike h v)
  | .and left right =>
    refine (together_bool (eval_together h left (depth + 1)) "&&").bind ?_
    rintro b _ rfl
    exact .cond (together_test (together_bool (eval_together h right (depth + 1)) "&&") id)
      (.pure (bool_unlike rfl))
  | .or left right =>
    refine (together_bool (eval_together h left (depth + 1)) "||").bind ?_
    rintro b _ rfl
    exact .cond (.pure (bool_unlike rfl))
      (together_test (together_bool (eval_together h right (depth + 1)) "||") id)
  | .not operand =>
    exact together_test (together_bool (eval_together h operand (depth + 1)) "!") not
  | .arith op left right =>
    refine (together_i64 (eval_together h left (depth + 1)) "arithmetic").bind ?_
    rintro m _ rfl
    refine (together_i64 (eval_together h right (depth + 1)) "arithmetic").bind ?_
    rintro n _ rfl
    exact arith_together op m n
  | .cmp op left right =>
    refine (together_i64 (eval_together h left (depth + 1)) "comparison").bind ?_
    rintro m _ rfl
    refine (together_i64 (eval_together h right (depth + 1)) "comparison").bind ?_
    rintro n _ rfl
    exact .pure (bool_unlike rfl)
  | .eq left right =>
    refine (eval_together h left (depth + 1)).bind fun v v' hv => ?_
    refine (eval_together h right (depth + 1)).bind fun w w' hw => ?_
    exact together_test (together_eq hv hw 0) id
  | .ne left right =>
    refine (eval_together h left (depth + 1)).bind fun v v' hv => ?_
    refine (eval_together h right (depth + 1)).bind fun w w' hw => ?_
    exact together_test (together_eq hv hw 0) not
  | .isIn left right =>
    refine (eval_together h left (depth + 1)).bind fun v v' hv => ?_
    refine (eval_together h right (depth + 1)).bind fun w w' hw => ?_
    exact together_test (together_in r.store hv hw) id
  | .has operand attr =>
    refine (eval_together h operand (depth + 1)).bind fun v v' hv => ?_
    exact together_test (together_has r.store hv attr) id
  | .like operand head rest =>
    refine (eval_together h operand (depth + 1)).bind fun v v' hv => ?_
    exact together_test (together_like hv head rest) id
  | .is operand type =>
    refine (eval_together h operand (depth + 1)).bind fun v v' hv => ?_
    refine (together_type hv).bind ?_
    rintro t _ rfl
    exact .pure (bool_unlike rfl)
  | .isOf operand type ancestor =>
    refine (eval_together h operand (depth + 1)).bind fun v v' hv => ?_
    refine (together_type hv).bind ?_
    rintro t _ rfl
    refine .cond ?_ (.pure (bool_unlike rfl))
    refine (eval_together h ancestor (depth + 1)).bind fun w w' hw => ?_
    exact together_test (together_in r.store hv hw) id
  | .ite condition yes no =>
    refine (together_bool (eval_together h condition (depth + 1)) "if").bind ?_
    rintro b _ rfl
    exact .cond (eval_together h yes (depth + 1)) (eval_together h no (depth + 1))
  | .set items =>
    refine (items_together h items (depth + 1)).bind ?_
    rintro values _ rfl
    refine .pure ⟨rfl, ?_⟩
    rw [thaw_list, distinct_thaw]
  | .record entries =>
    refine (entries_together h entries (depth + 1)).bind ?_
    rintro fields _ ⟨hsafe, rfl⟩
    exact .pure (together_record hsafe)
  | .getattr operand attr =>
    exact (eval_together h operand (depth + 1)).bind fun v v' hv =>
      together_getattr r.store hv attr
  | .method m operand argument =>
    refine (eval_together h operand (depth + 1)).bind fun v v' hv => ?_
    refine (together_members hv).bind fun members members' hmems => ?_
    refine (eval_together h argument (depth + 1)).bind fun w w' hw => ?_
    exact together_test (together_method m hmems hw depth) id
  | .isEmpty operand =>
    refine (eval_together h operand (depth + 1)).bind fun v v' hv => ?_
    refine (together_members hv).bind ?_
    rintro members _ rfl
    refine .pure (bool_unlike ?_)
    cases members <;> rfl
termination_by structural node

theorem items_together (h : r.context.safe = true) (items : List Expr) (depth : Nat) :
    Together (fun vs vs' => vs' = vs.map thaw) (evalItems r items depth)
      (evalItems r.thawed items depth) := by
  match items with
  | [] => exact .ok rfl
  | item :: items =>
    refine (eval_together h item depth).bind ?_
    rintro v _ ⟨-, rfl⟩
    refine (items_together h items depth).bind ?_
    rintro vs _ rfl
    exact .ok rfl
termination_by structural items

theorem entries_together (h : r.context.safe = true)
    (entries : List (String × Expr)) (depth : Nat) :
    Together (fun fs fs' => (∀ f ∈ fs, f.2.safe = true)
        ∧ fs' = fs.map thawField) (evalEntries r entries depth)
      (evalEntries r.thawed entries depth) := by
  match entries with
  | [] => exact .ok ⟨forall_mem_nil _, rfl⟩
  | entry :: entries =>
    refine (entry_together h entry depth).bind ?_
    rintro f _ ⟨hf, rfl⟩
    refine (entries_together h entries depth).bind ?_
    rintro fs _ ⟨hfs, rfl⟩
    exact .ok ⟨forall_mem_cons.mpr ⟨hf, hfs⟩, rfl⟩
termination_by structural entries

theorem entry_together (h : r.context.safe = true) (entry : String × Expr) (depth : Nat) :
    Together (fun f f' => f.2.safe = true ∧ f' = thawField f)
      (evalEntry r entry depth) (evalEntry r.thawed entry depth) := by
  match entry with
  | (name, value) =>
    refine (eval_together h value depth).bind ?_
    rintro v _ ⟨hv, rfl⟩
    exact .ok ⟨hv, rfl⟩
termination_by structural entry
end

variable (h : r.context.safe = true)
include h

theorem conditions_together (conditions : List Condition) :
    Together (· = ·) (cedarPlanPolicyConditions r conditions)
      (cedarPlanPolicyConditions r.thawed conditions) := by
  induction conditions with
  | nil => exact .ok rfl
  | cons condition conditions ih =>
    rw [cedarPlanPolicyConditions, cedarPlanPolicyConditions]
    have heval := eval_together h condition.expression 0
    generalize cedarEvalNative r condition.expression 0 = x at heval ⊢
    generalize cedarEvalNative r.thawed condition.expression 0 = x' at heval ⊢
    cases heval with
    | error e e' => exact .error ..
    | @ok v v' hv =>
      obtain ⟨-, rfl⟩ := hv
      cases v with
      | bool truth =>
        show Together _ (if condition.isUnless = truth then _ else _)
          (if condition.isUnless = truth then _ else _)
        split
        · exact .ok rfl
        · exact ih
      | _ => exact .error ..

/-- Scopes do not read the context. -/
theorem satisfied_together (p : PlanPolicy) :
    Together (· = ·) (cedarPlanPolicySatisfied r p) (cedarPlanPolicySatisfied r.thawed p) := by
  rw [cedarPlanPolicySatisfied, cedarPlanPolicySatisfied]
  refine .cond (.ok rfl) (.cond (.ok rfl) (.cond (.ok rfl) ?_))
  exact conditions_together h p.policy.conditions

theorem anySatisfied_thawed (ps : List PlanPolicy) :
    anySatisfied r ps = anySatisfied r.thawed ps := by
  induction ps with
  | nil => rfl
  | cons p ps ih =>
    rw [anySatisfied, anySatisfied]
    have hsat := satisfied_together h p
    generalize cedarPlanPolicySatisfied r p = x at hsat ⊢
    generalize cedarPlanPolicySatisfied r.thawed p = x' at hsat ⊢
    cases hsat with
    | error e e' => exact ih
    | ok hb =>
      subst hb
      rw [ih]

theorem planDenial_thawed (plan : Plan) :
    cedarPlanDenial plan r = cedarPlanDenial plan r.thawed := by
  rw [cedarPlanDenial, cedarPlanDenial, cedarAuthorizePlanOne,
    cedarAuthorizePlanOne, anySatisfied_thawed h, anySatisfied_thawed h]

end Evaluation

/-! ## Accepted contexts -/

mutual
/-- Inside a context, an accepted value is what conversion would thaw. -/
theorem prepared_value (value : Raw) (depth : Nat)
    (h : cedarPreparedValue value (depth + 1) = true) (location : String) :
    ∃ v, value.unconverted = some v ∧ cedarConvertValue location value = .ok (thaw v)
      ∧ v.isEntity = false ∧ (v.safe = false → value = .frozenset []) := by
  rw [cedarPreparedValue.eq_def] at h
  split at h
  · cases h
  match value, h with
  | .bool b, _ => exact ⟨.bool b, rfl, rfl, rfl, nofun⟩
  | .str s, _ => exact ⟨.string s, rfl, rfl, rfl, nofun⟩
  | .int n, h =>
    obtain ⟨m, hm⟩ := Option.isSome_iff_exists.mp h
    refine ⟨.long m, ?_, ?_, rfl, nofun⟩
    · rw [Raw.unconverted, hm]
      rfl
    · rw [cedarConvertValue, hm]
      rfl
  -- a dict is accepted as the context only
  | .dict _, h => cases h
  | .frozenset items, h =>
    obtain ⟨vs, hvs, hconv, hmems, hlen⟩ := prepared_items items (depth + 1) h location
    refine ⟨.frozen vs, ?_, ?_, rfl, fun hsafe => ?_⟩
    · rw [Raw.unconverted, hvs]
      rfl
    · rw [cedarConvertValue, hconv, thaw_frozen]
      rfl
    · cases vs with
      | nil => rw [eq_nil_of_length_eq_zero hlen.symm]
      | cons v vs =>
        have hall : (v :: vs).all (fun x => !x.isEntity) = true := by
          rw [all_eq_true]
          intro x hx
          rw [hmems x hx]
          rfl
        rw [Value.safe, hall] at hsafe
        cases hsafe
termination_by structural value

theorem prepared_items (items : List Raw) (depth : Nat)
    (h : preparedItems items depth = true) (location : String) :
    ∃ vs, unconvertedItems items = some vs ∧ convertItems location items = .ok (vs.map thaw)
      ∧ (∀ v ∈ vs, v.isEntity = false) ∧ vs.length = items.length := by
  match items with
  | [] => exact ⟨[], rfl, rfl, forall_mem_nil _, rfl⟩
  | item :: items =>
    rw [preparedItems, and_eq_true] at h
    obtain ⟨v, hv, hconv, hentity, -⟩ := prepared_value item depth h.1 location
    obtain ⟨vs, hvs, hconverts, hentities, hlen⟩ := prepared_items items depth h.2 location
    refine ⟨v :: vs, ?_, ?_, forall_mem_cons.mpr ⟨hentity, hentities⟩, congrArg (· + 1) hlen⟩
    · rw [unconvertedItems, hv, hvs]
      rfl
    · rw [convertItems, hconv, hconverts]
      rfl
termination_by structural items
end

/-- An accepted context: its fields one by one. -/
theorem prepared_entries (location : String) :
    ∀ (entries : List (Key × Raw)), preparedEntries entries 0 = true →
      ∃ fields, unconvertedEntries entries = some fields
        ∧ convertEntries location entries = .ok (fields.map thawField)
        ∧ fields.map Prod.fst = namesOf entries
        ∧ ((∀ e ∈ entries, e.2 ≠ .frozenset []) → fieldsSafe fields = true)
        ∧ ∀ key value, (key, value) ∈ entries →
          ∃ name v, value.unconverted = some v ∧ (name, v) ∈ fields := by
  intro entries
  induction entries with
  | nil =>
    exact fun _ => ⟨[], rfl, rfl, rfl, fun _ => rfl, nofun⟩
  | cons entry entries ih =>
    intro h
    rw [preparedEntries, and_eq_true] at h
    obtain ⟨fields, hflds, hconverts, hnames, hsafes, hmem⟩ := ih h.2
    match entry, h.1 with
    | (.str name, value), hvalue =>
      obtain ⟨v, hv, hconv, -, hsafe⟩ := prepared_value value 0 hvalue location
      refine ⟨(name, v) :: fields, ?_, ?_, congrArg (name :: ·) hnames,
        fun hne => ?_, fun key' value' hentry => ?_⟩
      · rw [unconvertedEntries, unconvertedEntry, hv, hflds]
        rfl
      · rw [convertEntries, convertEntry, hconv, hconverts]
        rfl
      · obtain ⟨hne, hnes⟩ := forall_mem_cons.mp hne
        rw [fieldsSafe, hsafes hnes, Bool.and_true]
        rw [← not_eq_false]
        exact fun hunsafe => hne (hsafe hunsafe)
      · rcases mem_cons.mp hentry with heq | hentry
        · rw [(Prod.mk.inj heq).2]
          exact ⟨name, v, hv, mem_cons_self⟩
        · obtain ⟨name', w, hw, hin⟩ := hmem key' value' hentry
          exact ⟨name', w, hw, mem_cons_of_mem _ hin⟩

theorem lookup_of_mem {α : Type} {fields : List (String × α)} {name : String}
    {value : α} (honce : (fields.map Prod.fst).Nodup)
    (h : (name, value) ∈ fields) : lookup fields name = some value :=
  congrArg (Option.map Prod.snd) (SlotMap.find_key honce h)

section Prepared

variable {context : Context}

/-- **ACCEPTED CONTEXTS**: what the evaluator reads, and that conversion thaws it. -/
theorem accepted_context (h : cedarPreparedValue context.raw 0 = true) :
    ∃ fields, context.prepared = some (.record fields)
      ∧ cedarConvertValue "context" (orEmpty (some context)) = .ok (thaw (.record fields))
      ∧ (fields.map Prod.fst).Nodup
      ∧ ((∀ e ∈ context.entries, e.2 ≠ .frozenset []) → fieldsSafe fields = true)
      ∧ ∀ key value, (key, value) ∈ context.entries →
        ∃ name v, value.unconverted = some v ∧ (name, v) ∈ fields := by
  have hraw : context.raw = .dict context.entries := by
    rw [Context.raw] at h ⊢
    split
    · rfl
    · rename_i hexact
      rw [if_neg hexact] at h
      cases h
  have hents : preparedEntries context.entries 0 = true := by
    rw [hraw] at h
    exact h
  obtain ⟨fields, hflds, hconv, hnames, hsafe, hmem⟩ :=
    prepared_entries "context" context.entries hents
  refine ⟨fields, ?_, ?_, hnames ▸ context.once, hsafe, hmem⟩
  · rw [Context.prepared, if_pos h, hraw, Raw.unconverted, hflds]
    rfl
  · rw [convert_orEmpty, contextValue, dictOf, cedarConvertValue, hconv, thaw_record]
    rfl

/-- Who is not in a set that the context names is turned away. -/
def turnAway (name : String) : Policy where
  effect := .forbid
  id := "policy1"
  principal := .any
  action := .any
  resource := .any
  conditions := [⟨true, .isIn (.var .principal) (.getattr (.var .context) name)⟩]

def membersOnly (name : String) : List Policy :=
  [{ effect := .permit, id := "policy0", principal := .any, action := .any,
     resource := .any, conditions := [] },
   turnAway name]

/-- The `forbid` is satisfied when the principal is not found in the set, and not when
    looking fails. -/
theorem turnAway_satisfied {r : Request} {fields : List (String × Value)}
    (hcontext : r.context = .record fields) {name : String} {v : Value}
    (hlookup : lookup fields name = some v) :
    (turnAway name).satisfied r = match cedarIn r.store (.entity r.principal) v with
        | .ok b => !b
        | .error _ => false := by
  have hget : cedarEvalGetattr r.store r.context name = .ok v := by
    rw [hcontext, cedarEvalGetattr, hlookup]
  have heval : cedarEvalNative r (.isIn (.var .principal) (.getattr (.var .context) name)) 0
      = (cedarIn r.store (.entity r.principal) v).map .bool := by
    show (cedarEvalGetattr r.store r.context name >>= fun w =>
      cedarIn r.store (.entity r.principal) w >>= fun b =>
        pure (Value.bool b)) = _
    rw [hget]
    show (cedarIn r.store (.entity r.principal) v >>= fun b =>
      pure (Value.bool b)) = _
    cases cedarIn r.store (.entity r.principal) v <;> rfl
  have hconditions : cedarPlanPolicySatisfied r (turnAway name).compile
      = cedarPlanPolicyConditions r (turnAway name).conditions := rfl
  rw [Policy.satisfied, hconditions, turnAway, cedarPlanPolicyConditions, heval]
  cases cedarIn r.store (.entity r.principal) v with
  | error e => rfl
  | ok b => cases b <;> rfl

theorem membersOnly_allows (r : Request) (name : String) :
    Allows r (membersOnly name) ↔ (turnAway name).satisfied r = false := by
  have hpermit : Policy.satisfied r
      { effect := .permit, id := "policy0", principal := .any, action := .any,
        resource := .any, conditions := [] } = true := rfl
  rw [allows_iff, membersOnly, fires_cons, fires_cons, fires_cons, fires_cons]
  simp [hpermit, not_fires_nil, turnAway]

/-- **PREPARED CONTEXTS**: leaving a context unconverted changes no decision exactly when no
    value in it is an empty frozenset. -/
theorem prepared_same (context : Context) (haccepted : cedarPreparedValue context.raw 0 = true) :
    (∀ policies plan principal action resource store, cedarCompilePlan policies = .ok plan →
        (routeDenialPrepared plan principal action context store resource = .ok none
          ↔ routeDenial plan principal action (some context) store resource = .ok none))
      ↔ ∀ e ∈ context.entries, e.2 ≠ .frozenset [] := by
  obtain ⟨fields, hprepared, hconvert, honce, hsafe, hmem⟩ := accepted_context haccepted
  constructor
  · rintro hsame ⟨key, value⟩ hentry rfl
    obtain ⟨name, v, hv, hfield⟩ := hmem key _ hentry
    obtain rfl : Value.frozen [] = v := Option.some.inj hv
    have hlookup := lookup_of_mem honce hfield
    obtain ⟨plan, hplan⟩ : ∃ plan, cedarCompilePlan (membersOnly name) = .ok plan := ⟨_, rfl⟩
    let u : Uid := ⟨"", ""⟩
    let store : Store := ⟨[], fun _ h => by cases h⟩
    -- read as it is, the empty set is an error and the `forbid` is skipped
    have hraw : routeDenialPrepared plan u u context store u = .ok none := by
      rw [routeDenialPrepared, hprepared]
      simp only
      rw [planDenial_eq hplan, if_pos]
      rw [membersOnly_allows, turnAway_satisfied rfl hlookup]
      rfl
    -- converted, it is a set that the principal is not in
    have hconverted : routeDenial plan u u (some context) store u ≠ .ok none := by
      have hthawed : lookup (fields.map thawField) name = some (.list []) := by
        rw [lookup_thaw, hlookup]
        rfl
      rw [routeDenial, hconvert, thaw_record]
      show Except.ok (cedarPlanDenial plan _) ≠ _
      rw [planDenial_eq hplan, if_neg]
      · exact fun h => by cases Except.ok.inj h
      · rw [membersOnly_allows, turnAway_satisfied rfl hthawed]
        rintro ⟨⟩
    exact hconverted ((hsame _ plan u u u store hplan).mp hraw)
  · intro hne policies plan principal action resource store _
    rw [routeDenialPrepared, hprepared, routeDenial, hconvert]
    have hthawed := planDenial_thawed (r := ⟨principal, action, resource, .record fields, store⟩)
      (hsafe hne) plan
    show Except.ok (cedarPlanDenial plan _) = _ ↔ Except.ok (cedarPlanDenial plan (Request.thawed
        ⟨principal, action, resource, .record fields, store⟩)) = _
    rw [hthawed]

end Prepared

/-- A context with an empty set of members. -/
def nobody : Context where
  exact := true
  entries := [(.str "members", .frozenset [])]
  once := by decide

/-- **A FORBID IS LOST**: with nobody in the set, the converted context denies and the
    prepared one allows. -/
theorem forbid_lost : ∃ plan, cedarCompilePlan (membersOnly "members") = .ok plan
      ∧ cedarPreparedValue nobody.raw 0 = true
      ∧ routeDenialPrepared plan ⟨"User", "u"⟩ ⟨"Action", "enter"⟩ nobody
        ⟨[], nofun⟩ ⟨"Door", "front"⟩ = .ok none
      ∧ routeDenial plan ⟨"User", "u"⟩ ⟨"Action", "enter"⟩ (some nobody)
        ⟨[], nofun⟩ ⟨"Door", "front"⟩ = .ok (some "explicit forbid") :=
  ⟨_, rfl, rfl, rfl, rfl⟩

/-- A context with members. -/
def somebody : Context where
  exact := true
  entries := [(.str "members", .frozenset [.str "u"]), (.str "level", .int 3)]
  once := by decide

theorem somebody_same : cedarPreparedValue somebody.raw 0 = true
    ∧ ∃ plan, cedarCompilePlan (membersOnly "members") = .ok plan
      ∧ (routeDenialPrepared plan ⟨"User", "u"⟩ ⟨"Action", "enter"⟩ somebody
          ⟨[], nofun⟩ ⟨"Door", "front"⟩ = .ok none
        ↔ routeDenial plan ⟨"User", "u"⟩ ⟨"Action", "enter"⟩ (some somebody)
          ⟨[], nofun⟩ ⟨"Door", "front"⟩ = .ok none) := by
  refine ⟨rfl, _, rfl, ?_⟩
  refine (prepared_same somebody rfl).mpr (fun e he => ?_) (membersOnly "members") _ _ _ _ _ rfl
  rcases mem_cons.mp he with rfl | he
  · exact nofun
  · rw [mem_singleton.mp he]
    exact nofun

end Cedar
