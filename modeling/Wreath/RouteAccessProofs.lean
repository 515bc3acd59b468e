import Mathlib.Data.Nat.Bitwise
import Wreath.ByteStringProofs

/-! # Access clauses — who may reach a route

A route carries a tuple of clauses, each the set of capabilities one kind of caller must
hold, written as the bits of an integer of any width. A caller reaches the route when
one clause is contained in the caller's own set. The table decides that on machine
words where it can and on Python integers where it cannot; both decide containment
(`clauseEligible_iff`, `routeEligible_iff`). -/

namespace RouteAccess

open ByteScan

/-! ## Raised exceptions -/

/-- The built-in exception classes the table raises. -/
inductive ErrorKind where
  | typeError
  | valueError
  | runtimeError
  deriving Repr, DecidableEq

/-- A raised exception. -/
structure PyError where
  kind : ErrorKind
  text : Bytes
  deriving Repr, DecidableEq

def valueError (text : String) : PyError := ⟨.valueError, ascii text⟩

/-! ## The caller -/

/-- A caller's mask: a machine word, or the Python integer when it does not fit one. -/
inductive Caller where
  | word (caller : BitVec 64)
  | wide (caller : Nat)
  deriving Repr, DecidableEq

/-- The caller a non-negative mask stands for. -/
def ofMask (mask : Nat) : Caller :=
  if mask < 2 ^ 64 then .word (BitVec.ofNat 64 mask) else .wide mask

/-- `brt_caller_mask`. -/
def callerMask (value : Int) : Except PyError Caller :=
  if value < 0 then
    .error (valueError "caller capability mask must be a non-negative integer")
  else .ok (ofMask value.toNat)

variable (mask : Nat)

theorem callerMask_natCast : callerMask (mask : Int) = .ok (ofMask mask) := if_neg (by omega)

/-! ## Clauses -/

/-- `validate_access_clauses`, from the clause at `index` on. -/
def validateClausesFrom (index : Nat) : List Int → Except PyError (List Nat)
  | [] => .ok []
  | clause :: clauses =>
    if clause < 0 then
      .error (valueError ("access_clauses[" ++ toString index ++ "] must be a non-negative int"))
    else do
      let rest ← validateClausesFrom (index + 1) clauses
      return clause.toNat :: rest

/-- `validate_access_clauses`. -/
def validateAccessClauses (clauses : List Int) : Except PyError (List Nat) :=
  validateClausesFrom 0 clauses

/-- What `add` and `add_dynamic` do with the argument they may be called without: no clauses
    at all stand for one that asks nothing. -/
def accessClauses : Option (List Int) → Except PyError (List Nat)
  | none => .ok [0]
  | some clauses => validateAccessClauses clauses

/-- `clause_eligible`. -/
def clauseEligible (clause : Nat) : Caller → Bool
  | .wide caller => (clause &&& caller) == clause
  | .word caller =>
    -- a clause that overflows the word asks for a bit no word holds
    if clause < 2 ^ 64 then
      (BitVec.ofNat 64 clause &&& ~~~caller) == 0
    else false

/-- The clauses as machine words; `none` when there are none, or when one is too wide. -/
def compileMasks (clauses : List Nat) : Option (List (BitVec 64)) :=
  if clauses = [] then none
  else if clauses.all (· < 2 ^ 64) then
    some (clauses.map (BitVec.ofNat 64))
  else none

/-- `route_eligible` and `dynamic_route_eligible`: one body twice. -/
def routeEligible (cmasks : Option (List (BitVec 64))) (clauses : List Nat)
    (caller : Caller) : Bool :=
  match caller, cmasks with
  | .word word, some masks => masks.any fun mask => (mask &&& ~~~word) == 0
  | _, _ => clauses.any (clauseEligible · caller)

/-! ## Containment -/

/-- Every capability of the clause is in the mask. -/
def Contained (clause mask : Nat) : Prop := clause &&& mask = clause

instance (clause mask : Nat) : Decidable (Contained clause mask) :=
  inferInstanceAs (Decidable (_ = _))

/-- **ADMISSION**: one of the clauses is contained in the mask. -/
def Admits (clauses : List Nat) (mask : Nat) : Prop := ∃ clause ∈ clauses, Contained clause mask

instance (clauses : List Nat) (mask : Nat) : Decidable (Admits clauses mask) :=
  inferInstanceAs (Decidable (∃ clause ∈ clauses, Contained clause mask))

theorem contained_iff {clause mask : Nat} :
    Contained clause mask ↔ ∀ i, clause.testBit i = true → mask.testBit i = true := by
  constructor
  · intro h i hi
    have hbit : (clause &&& mask).testBit i = clause.testBit i := congrArg (Nat.testBit · i) h
    rw [Nat.testBit_and, hi, Bool.true_and] at hbit
    exact hbit
  · intro h
    refine Nat.eq_of_testBit_eq fun i => ?_
    rw [Nat.testBit_and]
    cases hi : clause.testBit i with
    | false => rfl
    | true => rw [h i hi, Bool.true_and]

theorem contained_zero : Contained 0 mask := Nat.zero_and mask

/-- Nobody holds nothing but the empty set. -/
theorem contained_in_zero {clause : Nat} : Contained clause 0 ↔ clause = 0 := by
  rw [Contained, Nat.and_zero]
  exact eq_comm

/-- A clause contained in a word is a word. -/
theorem Contained.lt {clause mask : Nat} (h : Contained clause mask)
    (hmask : mask < 2 ^ 64) : clause < 2 ^ 64 := by
  have hle : clause ≤ mask := by
    rw [← show clause &&& mask = clause from h]
    exact Nat.and_le_right
  omega

theorem word_contained {clause mask : Nat} (hclause : clause < 2 ^ 64) :
    BitVec.ofNat 64 clause &&& ~~~(BitVec.ofNat 64 mask) = 0 ↔ Contained clause mask := by
  rw [contained_iff]
  constructor
  · intro h i hi
    have hlt : i < 64 := by
      by_contra hge
      rw [Nat.testBit_lt_two_pow
        (lt_of_lt_of_le hclause (Nat.pow_le_pow_right (by omega) (by omega)))]
        at hi
      cases hi
    have hbit := congrArg (BitVec.getLsbD · i) h
    simp only [BitVec.getLsbD_and, BitVec.getLsbD_not, BitVec.getLsbD_ofNat,
      hlt, decide_true, Bool.true_and, hi] at hbit
    simpa using hbit
  · intro h
    refine BitVec.eq_of_getLsbD_eq fun i hlt => ?_
    simp only [BitVec.getLsbD_and, BitVec.getLsbD_not, BitVec.getLsbD_ofNat,
      hlt, decide_true, Bool.true_and]
    cases hi : clause.testBit i with
    | false => simp
    | true => simp [h i hi]

/-- **BOTH ARITHMETICS DECIDE CONTAINMENT.** -/
theorem clauseEligible_iff (clause mask : Nat) :
    clauseEligible clause (ofMask mask) = true ↔ Contained clause mask := by
  rw [ofMask]
  by_cases hmask : mask < 2 ^ 64
  · rw [if_pos hmask, clauseEligible]
    by_cases hclause : clause < 2 ^ 64
    · rw [if_pos hclause, beq_iff_eq]
      exact word_contained hclause
    · rw [if_neg hclause]
      exact ⟨nofun, fun h => absurd (Contained.lt h hmask) hclause⟩
  · rw [if_neg hmask, clauseEligible, beq_iff_eq]
    exact Iff.rfl

variable (clauses : List Nat)

theorem any_eligible_iff :
    clauses.any (clauseEligible · (ofMask mask)) = true ↔ Admits clauses mask := by
  simp only [List.any_eq_true, clauseEligible_iff]
  exact Iff.rfl

theorem compileMasks_some {clauses : List Nat} {masks : List (BitVec 64)}
    (h : compileMasks clauses = some masks) :
    masks = clauses.map (BitVec.ofNat 64) ∧ ∀ c ∈ clauses, c < 2 ^ 64 := by
  rw [compileMasks] at h
  split at h
  · cases h
  split at h
  · rename_i hall
    exact ⟨(Option.some.inj h).symm, fun c hc => of_decide_eq_true (List.all_eq_true.mp hall c hc)⟩
  · cases h

/-- **ELIGIBLE IS ADMITTED**, whichever arithmetic decides it. -/
theorem routeEligible_iff :
    routeEligible (compileMasks clauses) clauses (ofMask mask) = true ↔ Admits clauses mask := by
  cases hmasks : compileMasks clauses with
  | none =>
    rw [← any_eligible_iff, routeEligible]
    exact nofun
  | some masks =>
    by_cases hmask : mask < 2 ^ 64
    · obtain ⟨rfl, hsmall⟩ := compileMasks_some hmasks
      rw [ofMask, if_pos hmask, routeEligible, List.any_map, List.any_eq_true]
      simp only [Function.comp_apply, beq_iff_eq]
      exact exists_congr fun c => and_congr_right fun hc =>
        word_contained (hsmall c hc)
    · rw [← any_eligible_iff, ofMask, if_neg hmask, routeEligible]
      exact nofun

/-- A route everybody reaches has an empty clause. -/
theorem admits_zero_iff : Admits clauses 0 ↔ 0 ∈ clauses := by
  constructor
  · rintro ⟨clause, hmem, hzero⟩
    rwa [contained_in_zero.mp hzero] at hmem
  · exact fun h => ⟨0, h, contained_zero 0⟩

theorem Admits.of_zero {clauses : List Nat} (h : Admits clauses 0)
    (mask : Nat) : Admits clauses mask :=
  ⟨0, (admits_zero_iff clauses).mp h, contained_zero mask⟩

end RouteAccess
