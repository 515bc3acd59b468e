import Mathlib.Algebra.Order.Archimedean.Basic
import Mathlib.Algebra.Order.Ring.Int
import Mathlib.Data.Int.Log
import Mathlib.Data.List.AList
import Mathlib.Data.List.Basic
import Mathlib.Data.List.Nodup
import Mathlib.Data.List.Range
import Mathlib.Data.Rat.Floor
import Mathlib.Logic.Function.Basic
import Mathlib.Order.WithBot
import Mathlib.Tactic.FieldSimp
import Mathlib.Tactic.Ring

/-! # Tables — maps, totals, bounded and leased entries

* `SlotMap`: a function to `Option`, updated at one key.
* `Tally`: how many of the first `n` records have a property, as one changes at a time.
* `KeyedTable`: the total over a dictionary changes by what one entry weighs before and
  after (`weight_insert`, `weight_erase`).
* `Kv`: a table with ceilings on the number and the cost of its entries, the least recently
  used first to go. What leaves is in the record of evicted pairs (`set_pairs`), except a
  value that is replaced (`overwrite_pairs`).
* `Binary64`: clock readings. A result is rounded to the nearest double, a tie to the even
  significand; integers up to `2 ^ 53` and their sums are not rounded (`add_exact`).
* `Lease`: entries that end at a deadline, lazily. An operation adds at most the pair it
  was given (`Holds.of_set`), and what a look-up returns was in the table (`get_holds`). -/

namespace SlotMap

open Function

variable {K V : Type} [DecidableEq K] {f : K → Option V} {a b : K} {v w : V}

/-- What a map holds after a slot is written. -/
theorem update_cases {o : Option V} (h : update f a o b = some w) :
    (b = a ∧ o = some w) ∨ (b ≠ a ∧ f b = some w) := by
  by_cases hb : b = a
  · rw [hb, update_self] at h
    exact .inl ⟨hb, h⟩
  · rw [update_of_ne hb] at h
    exact .inr ⟨hb, h⟩

theorem set_cases (h : update f a (some v) b = some w) : (b = a ∧ w = v) ∨ (b ≠ a ∧ f b = some w) :=
  (update_cases h).imp_left fun ⟨hb, hv⟩ => ⟨hb, (Option.some.inj hv).symm⟩

/-- What holds of the entry that is set and of those before. -/
theorem set_all {P : K → V → Prop} (hnew : P a v) (hold : ∀ b w, f b = some w → P b w) (b : K) (w : V)
    (h : update f a (some v) b = some w) : P b w := by
  rcases set_cases h with ⟨rfl, rfl⟩ | ⟨-, h⟩
  · exact hnew
  · exact hold b w h

theorem erase_cases (h : update f a none b = some w) : b ≠ a ∧ f b = some w :=
  (update_cases h).resolve_left fun ⟨_, hv⟩ => nomatch hv

/-- An entry that is set over another keeps a part of it. -/
theorem set_keeps {P : Type} (part : V → P) (v' : V) (ha : f a = some v) (hpart : part v' = part v)
    (h : f b = some w) : ∃ w', update f a (some v') b = some w' ∧ part w' = part w := by
  by_cases hb : b = a
  · subst hb
    cases ha.symm.trans h
    exact ⟨v', update_self .., hpart⟩
  · exact ⟨w, (update_of_ne hb ..).trans h, rfl⟩

/-- In a list whose keys differ, the search for a key finds its entry. -/
theorem find_key {α : Type} {l : List α} {key : α → K} {x : α} (hkeys : (l.map key).Nodup)
    (hx : x ∈ l) : (l.find? fun y => decide (key y = key x)) = some x := by
  cases hfind : l.find? fun y => decide (key y = key x) with
  | none => exact absurd (decide_eq_true rfl) (List.find?_eq_none.mp hfind x hx)
  | some y =>
    have hkey := List.find?_some hfind
    have hy := List.mem_of_find?_eq_some hfind
    rw [List.inj_on_of_nodup_map hkeys hy hx (of_decide_eq_true hkey)]

end SlotMap

namespace Tally

variable {α : Type}

/-- How many of the first `n` records satisfy `P`. -/
def tally (n : Nat) (f : Nat → α) (P : α → Bool) : Nat := (List.range n).countP fun i => P (f i)

theorem tally_congr {n : Nat} {f g : Nat → α} {P : α → Bool}
    (h : ∀ i < n, f i = g i) : tally n f P = tally n g P := by
  refine List.countP_congr fun i hi => ?_
  rw [h i (List.mem_range.mp hi)]

theorem tally_succ (n : Nat) (f : Nat → α) (P : α → Bool) :
    tally (n + 1) f P = tally n f P + if P (f n) then 1 else 0 := by
  rw [tally, List.range_succ, List.countP_append, List.countP_singleton]
  rfl

/-- **ONE RECORD CHANGES.** -/
theorem tally_update {n i : Nat} (f : Nat → α) (x : α) (P : α → Bool) (h : i < n) :
    tally n (Function.update f i x) P + (if P (f i) then 1 else 0)
      = tally n f P + if P x then 1 else 0 := by
  induction n with
  | zero => exact absurd h (Nat.not_lt_zero _)
  | succ n ih =>
    rw [tally_succ, tally_succ]
    by_cases hi : i = n
    · subst hi
      rw [Function.update_self, tally_congr fun j hj =>
        Function.update_of_ne hj.ne x f]
      omega
    · rw [Function.update_of_ne (Ne.symm hi)]
      omega

theorem tally_pos {n i : Nat} {f : Nat → α} {P : α → Bool} (h : i < n)
    (hP : P (f i) = true) : 0 < tally n f P :=
  List.countP_pos_iff.mpr ⟨i, List.mem_range.mpr h, hP⟩

/-- A tally of one is of one record. -/
theorem tally_unique {n : Nat} {f : Nat → α} {P : α → Bool} (h : tally n f P = 1) :
    ∃ i < n, P (f i) = true ∧ ∀ j < n, P (f j) = true → j = i := by
  induction n with
  | zero => cases h
  | succ n ih =>
    rw [tally_succ] at h
    by_cases hn : P (f n) = true
    · rw [if_pos hn] at h
      refine ⟨n, Nat.lt_succ_self n, hn, fun j hj hP => ?_⟩
      by_contra hne
      have hpos := tally_pos (f := f) (P := P) (n := n) (i := j) (by omega) hP
      omega
    · rw [if_neg hn] at h
      obtain ⟨i, hi, hP, honly⟩ := ih h
      refine ⟨i, Nat.lt_succ_of_lt hi, hP, fun j hj hPj => ?_⟩
      rcases Nat.lt_succ_iff_lt_or_eq.mp hj with hj | rfl
      · exact honly j hj hPj
      · exact absurd hPj hn

end Tally

namespace KeyedTable

/-- A dictionary: no key occurs twice. -/
abbrev Table (κ α : Type) : Type := AList fun _ : κ => α

variable {κ α : Type} {j k : κ} {v w : α}

/-- The total of what the entries weigh. -/
def weight (t : Table κ α) (f : α → Nat) : Nat := (t.entries.map fun e => f e.2).sum

variable [DecidableEq κ] {t : Table κ α}

/-- What a table holds after an entry is set. -/
theorem insert_cases (h : (t.insert k v).lookup j = some w) : w = v ∨ t.lookup j = some w := by
  by_cases hj : j = k
  · subst hj
    rw [AList.lookup_insert] at h
    exact .inl (Option.some.inj h).symm
  · rw [AList.lookup_insert_ne hj] at h
    exact .inr h

theorem erase_cases (h : (t.erase k).lookup j = some w) : t.lookup j = some w := by
  by_cases hj : j = k
  · subst hj
    rw [AList.lookup_erase] at h
    cases h
  · rwa [AList.lookup_erase_ne hj] at h

/-- **ONE ENTRY GOES.** -/
theorem weight_erase (t : Table κ α) (k : κ) (f : α → Nat) :
    weight (t.erase k) f + (t.lookup k).elim 0 f = weight t f := by
  show ((t.entries.kerase k).map fun e => f e.2).sum + (t.entries.dlookup k).elim 0 f
    = (t.entries.map fun e => f e.2).sum
  generalize t.entries = l
  induction l with
  | nil => rfl
  | cons e l ih =>
    obtain ⟨i, v⟩ := e
    by_cases hk : k = i
    · subst hk
      have hgone : List.kerase k (⟨k, v⟩ :: l) = l := List.kerase_cons_eq rfl
      rw [hgone, List.dlookup_cons_eq]
      exact Nat.add_comm ..
    · rw [List.kerase_cons_ne hk, List.dlookup_cons_ne _ _ hk, List.map_cons, List.map_cons,
        List.sum_cons, List.sum_cons, Nat.add_assoc, ih]

/-- **ONE ENTRY CHANGES.** -/
theorem weight_insert (t : Table κ α) (k : κ) (v : α) (f : α → Nat) :
    weight (t.insert k v) f + (t.lookup k).elim 0 f = weight t f + f v := by
  have hinsert : weight (t.insert k v) f = f v + weight (t.erase k) f := List.sum_cons
  rw [hinsert, ← weight_erase t k f, Nat.add_assoc, Nat.add_comm]

/-- An entry weighs no more than the table. -/
theorem le_weight (h : t.lookup k = some v) (f : α → Nat) : f v ≤ weight t f := by
  have herase := weight_erase t k f
  rw [h] at herase
  exact Nat.le_trans (Nat.le_add_left ..) herase.le

end KeyedTable

namespace Kv

open List

variable {κ ν : Type}

structure Entry (κ ν : Type) where
  key : κ
  value : ν
  cost : Nat
  deriving Repr, DecidableEq

def Entry.pair (e : Entry κ ν) : κ × ν := (e.key, e.value)

/-- `entries` is least recently used first. -/
structure Table (κ ν : Type) where
  entries : List (Entry κ ν)
  evicted : List (κ × ν)
  deriving Repr, DecidableEq

def Table.empty : Table κ ν := ⟨[], []⟩

/-- The two ceilings; no bytes is no byte ceiling. -/
structure Bounds where
  maxEntries : Nat
  maxBytes : Nat
  deriving Repr, DecidableEq

def bytes (es : List (Entry κ ν)) : Nat := (es.map Entry.cost).sum

variable [DecidableEq κ] (t : Table κ ν) (es : List (Entry κ ν))

def lookup (key : κ) : Option (Entry κ ν) := t.entries.find? fun e => decide (e.key = key)

/-- The entries without the one under the key. -/
def others (key : κ) : List (Entry κ ν) := es.eraseP fun e => decide (e.key = key)

/-- A hit is also the recency update. -/
def get (key : κ) : Option ν × Table κ ν :=
  match lookup t key with
  | none => (none, t)
  | some e => (some e.value, { t with entries := others t.entries key ++ [e] })

/-- Evict from the front while `excess` holds: what went and what stayed. -/
def shed (excess : List (Entry κ ν) → Bool) : List (Entry κ ν) → List (Entry κ ν) × List (Entry κ ν)
  | [] => ([], [])
  | e :: es =>
    if excess (e :: es) then (e :: (shed excess es).1, (shed excess es).2)
    else ([], e :: es)

def Table.shedding (excess : List (Entry κ ν) → Bool) : Table κ ν :=
  ⟨(shed excess t.entries).2, t.evicted ++ (shed excess t.entries).1.map Entry.pair⟩

/-- No room for one more. -/
def full (b : Bounds) (es : List (Entry κ ν)) : Bool := decide (b.maxEntries ≤ es.length)

/-- Above one of the ceilings. -/
def overBudget (b : Bounds) (es : List (Entry κ ν)) : Bool :=
  decide (b.maxEntries < es.length) || (decide (b.maxBytes ≠ 0) && decide (b.maxBytes < bytes es))

def Table.push (e : Entry κ ν) : Table κ ν := { t with entries := t.entries ++ [e] }

/-- Store a value; the budget is enforced after the entry is in. -/
def set (b : Bounds) (t : Table κ ν) (key : κ) (value : ν) (cost : Nat) : Table κ ν :=
  match lookup t key with
  | some _ =>
    (Table.push { t with entries := others t.entries key }
      ⟨key, value, cost⟩).shedding (overBudget b)
  | none =>
    ((t.shedding (full b)).push ⟨key, value, cost⟩).shedding (overBudget b)

/-- Hand the record over. -/
def takeEvicted : List (κ × ν) × Table κ ν := (t.evicted, { t with evicted := [] })

/-! ## What is kept -/

/-- Every pair of the table, those already evicted first. -/
def Table.pairs : List (κ × ν) := t.evicted ++ t.entries.map Entry.pair

variable {excess : List (Entry κ ν) → Bool}

omit [DecidableEq κ] in
theorem shed_append : (shed excess es).1 ++ (shed excess es).2 = es := by
  fun_induction shed excess es with
  | case1 | case3 => rfl
  | case2 e es _ ih => exact congrArg (e :: ·) ih

omit [DecidableEq κ] in
/-- Eviction moves pairs and loses none. -/
theorem shedding_pairs : (t.shedding excess).pairs = t.pairs := by
  rw [Table.pairs, Table.shedding, append_assoc, ← map_append, shed_append]
  rfl

omit [DecidableEq κ] in
theorem push_pairs (e : Entry κ ν) : (t.push e).pairs = t.pairs ++ [e.pair] := by
  show t.evicted ++ (t.entries ++ [e]).map Entry.pair = _
  rw [map_append, ← append_assoc]
  rfl

variable {t : Table κ ν} {key : κ}

/-- **NOTHING IS LOST** under a new key. -/
theorem set_pairs {b : Bounds} (h : lookup t key = none) (value : ν) (cost : Nat) :
    (set b t key value cost).pairs = t.pairs ++ [(key, value)] := by
  rw [set, h]
  rw [shedding_pairs, push_pairs, shedding_pairs]
  rfl

variable {e : Entry κ ν}

/-- Under a key that is there the old value is gone. -/
theorem overwrite_pairs {b : Bounds} (h : lookup t key = some e) (value : ν) (cost : Nat) :
    (set b t key value cost).pairs = t.evicted ++ (others t.entries key).map Entry.pair
        ++ [(key, value)] := by
  rw [set, h]
  rw [shedding_pairs, push_pairs]
  rfl

/-- Storing adds one pair at most. -/
theorem set_sublist (b : Bounds) (t : Table κ ν) (key : κ) (value : ν) (cost : Nat) :
    (set b t key value cost).pairs.Sublist (t.pairs ++ [(key, value)]) := by
  cases hfound : lookup t key with
  | none =>
    rw [set_pairs hfound]
  | some e =>
    rw [overwrite_pairs hfound]
    refine List.Sublist.append_right (List.Sublist.append_left ?_ _) _
    exact eraseP_sublist.map Entry.pair

theorem lookup_key (h : lookup t key = some e) : e ∈ t.entries ∧ e.key = key :=
  ⟨mem_of_find?_eq_some h, by simpa using List.find?_some h⟩

/-- A value that is found is in the table. -/
theorem get_some {value : ν}
    (h : (get t key).1 = some value) : (key, value) ∈ t.entries.map Entry.pair := by
  rw [get] at h
  split at h
  · cases h
  · rename_i e hfound
    obtain ⟨hmem, hkey⟩ := lookup_key hfound
    rw [← Option.some.inj h, ← hkey]
    exact mem_map_of_mem hmem

theorem get_evicted : (get t key).2.evicted = t.evicted := by
  rw [get]
  split <;> rfl

/-- The entry under a key and the others are all entries. -/
theorem others_perm (h : lookup t key = some e) : (others t.entries key ++ [e]).Perm t.entries := by
  obtain ⟨hkey, before, after, hents, hbef⟩ := List.find?_eq_some_iff_append.mp h
  have hothers : others t.entries key = before ++ after := by
    rw [others, hents, eraseP_append_right _ (by simpa using hbef), eraseP_cons, hkey]
    rfl
  rw [hothers, hents, append_assoc]
  exact List.Perm.append_left before perm_append_comm

/-- Looking up moves an entry and no more. -/
theorem get_perm : (get t key).2.entries.Perm t.entries := by
  rw [get]
  split
  · rfl
  · rename_i e hfound
    exact others_perm hfound

end Kv

namespace Binary64

/-- The nearest integer, a tie to the even one. -/
def roundHalfEven (x : ℚ) : ℤ :=
  if x - ⌊x⌋ < 1 / 2 then ⌊x⌋
  else if 1 / 2 < x - ⌊x⌋ then ⌊x⌋ + 1
  else if ⌊x⌋ % 2 = 0 then ⌊x⌋ else ⌊x⌋ + 1

theorem roundHalfEven_intCast (n : ℤ) : roundHalfEven (n : ℚ) = n := by
  have hfloor : ⌊(n : ℚ)⌋ = n := Int.floor_intCast n
  rw [roundHalfEven, hfloor, if_pos]
  norm_num

/-- The exponent of the last place of a 53-bit significand. -/
def lastPlace (q : ℚ) : ℤ := max (Int.log 2 |q| - 52) (-1074)

/-- The nearest double, its exponent not bounded above. -/
def nearest (q : ℚ) : ℚ := roundHalfEven (q / 2 ^ lastPlace q) * 2 ^ lastPlace q

/-- A rational on the grid of its own last place is a double. -/
theorem nearest_grid {q : ℚ} {m : ℤ} (h : q = m * 2 ^ lastPlace q) : nearest q = q := by
  have hne : (2 : ℚ) ^ lastPlace q ≠ 0 := zpow_ne_zero _ two_ne_zero
  have hdiv : q / 2 ^ lastPlace q = m := by
    rw [div_eq_iff hne]
    exact h
  rw [nearest, hdiv, roundHalfEven_intCast]
  exact h.symm

theorem lastPlace_le {q : ℚ} {e : ℤ} (hq : q ≠ 0) (he : -1074 ≤ e)
    (h : |q| < 2 ^ (e + 53)) : lastPlace q ≤ e := by
  have hlog : Int.log 2 |q| < e + 53 := (Int.lt_zpow_iff_log_lt (by norm_num) (abs_pos.mpr hq)).mp
      (by exact_mod_cast h)
  rw [lastPlace]
  omega

/-- **WHOLE NUMBERS ARE EXACT**: every integer up to `2 ^ 53`. -/
theorem nearest_int {n : ℤ} (h : |n| ≤ 2 ^ 53) : nearest (n : ℚ) = n := by
  rcases eq_or_ne n 0 with rfl | hn
  · have hzero : ((0 : ℤ) : ℚ) = (0 : ℤ) * 2 ^ lastPlace ((0 : ℤ) : ℚ) := by
      push_cast
      ring
    exact nearest_grid hzero
  rcases lt_or_eq_of_le h with hlt | heq
  · -- the last place is at most one, so its reciprocal power is an integer
    have hplace : lastPlace (n : ℚ) ≤ 0 := by
      refine lastPlace_le (by exact_mod_cast hn) (by norm_num) ?_
      have hcast : |(n : ℚ)| < 2 ^ (53 : ℕ) := by exact_mod_cast hlt
      exact_mod_cast hcast
    obtain ⟨k, hk⟩ : ∃ k : ℕ, lastPlace (n : ℚ) = -(k : ℤ) := ⟨(-lastPlace (n : ℚ)).toNat, by omega⟩
    refine nearest_grid (m := n * 2 ^ k) ?_
    rw [hk, zpow_neg, zpow_natCast]
    push_cast
    field_simp
  · have hplace : lastPlace (n : ℚ) ≤ 1 := by
      refine lastPlace_le (by exact_mod_cast hn) (by norm_num) ?_
      have hcast : |(n : ℚ)| = 2 ^ (53 : ℕ) := by exact_mod_cast heq
      rw [hcast]
      norm_num
    obtain ⟨k, hk⟩ : ∃ k : ℕ, lastPlace (n : ℚ) = 1 - (k : ℤ) :=
      ⟨(1 - lastPlace (n : ℚ)).toNat, by omega⟩
    obtain ⟨m, hm⟩ : ∃ m : ℤ, n = 2 * m := by
      rcases abs_eq (by norm_num) |>.mp heq with rfl | rfl
      · exact ⟨2 ^ 52, by norm_num⟩
      · exact ⟨-2 ^ 52, by norm_num⟩
    refine nearest_grid (m := m * 2 ^ k) ?_
    rw [hk, zpow_sub₀ (by norm_num), zpow_one, zpow_natCast, hm]
    push_cast
    field_simp

/-- `float(n)`; nothing is the overflow error. -/
def ofInt (n : ℤ) : Option ℚ := if |nearest n| < 2 ^ 1024 then some (nearest n) else none

/-- A sum of doubles; the top is infinity. -/
def add (x y : ℚ) : WithTop ℚ := if nearest (x + y) < 2 ^ 1024 then ↑(nearest (x + y)) else ⊤

/-- A difference of finite doubles that does not overflow. -/
def sub (x y : ℚ) : ℚ := nearest (x - y)

private theorem int_lt_top {n : ℤ} (h : |n| ≤ 2 ^ 53) : |(n : ℚ)| < 2 ^ 1024 := by
  have hcast : |(n : ℚ)| ≤ 2 ^ 53 := by exact_mod_cast h
  exact lt_of_le_of_lt hcast (pow_lt_pow_right₀ one_lt_two (by norm_num))

theorem ofInt_exact {n : ℤ} (h : |n| ≤ 2 ^ 53) : ofInt n = some (n : ℚ) := by
  rw [ofInt, nearest_int h, if_pos (int_lt_top h)]

theorem add_exact {a b : ℤ} (h : |a + b| ≤ 2 ^ 53) : add a b = ((a + b : ℤ) : ℚ) := by
  have hsum : (a : ℚ) + b = ((a + b : ℤ) : ℚ) := by push_cast; ring
  rw [add, hsum, nearest_int h, if_pos (lt_of_le_of_lt (le_abs_self _) (int_lt_top h))]

end Binary64

namespace Lease

open List

variable {κ ν : Type}

/-- The top is the deadline that never comes. -/
abbrev Deadline := WithTop ℚ

structure Entry (κ ν : Type) where
  key : κ
  value : ν
  deadline : Deadline

def Entry.live (e : Entry κ ν) (now : ℚ) : Bool := decide (↑now < e.deadline)

/-- `ttl` is the lifetime of an entry stored without one of its own. -/
structure Table (κ ν : Type) where
  maxEntries : Nat
  ttl : Option ℚ
  entries : List (Entry κ ν)

def Table.new (maxEntries : Nat) (ttl : Option ℚ) : Table κ ν := ⟨maxEntries, ttl, []⟩

variable [DecidableEq κ]

variable (t : Table κ ν) (key : κ)

def find : Option (Entry κ ν) := t.entries.find? fun e => decide (e.key = key)

/-- The entries without the one under the key. -/
def others (es : List (Entry κ ν)) (key : κ) : List (Entry κ ν) :=
  es.eraseP fun e => decide (e.key = key)

variable (now : ℚ)

/-- The value, when its deadline has not passed; the table stays as it is. -/
def peek : Option ν :=
  match find t key with
  | none => none
  | some e => if e.live now then some e.value else none

/-- The value physically there, past its deadline or not. -/
def held : Option ν := (find t key).map Entry.value

def delete : Table κ ν := { t with entries := others t.entries key }

/-- A hit is also the recency update; an expired entry leaves. -/
def get : Option ν × Table κ ν :=
  match find t key with
  | none => (none, t)
  | some e =>
    if e.live now then
      (some e.value, { t with entries := others t.entries key ++ [e] })
    else (none, delete t key)

/-- Entries not yet past their deadlines. -/
def count : Nat := (t.entries.filter fun e => e.live now).length

def clear : Table κ ν := { t with entries := [] }

/-- Nothing is the refusal of a lifetime that is not positive. -/
def resolveDeadline (ttl : Option ℚ) (now : ℚ) : Option Deadline :=
  match ttl, t.ttl with
  | none, none => some ⊤
  | none, some lifetime => some (Binary64.add now lifetime)
  | some seconds, _ =>
    if 0 < seconds then some (Binary64.add now seconds) else none

/-- Room for one more: the expired go first, then the least recently used. -/
def ensureRoom : List (Entry κ ν) :=
  if t.entries.length < t.maxEntries then t.entries
  else
    (t.entries.filter fun e => e.live now).drop
      ((t.entries.filter fun e => e.live now).length + 1 - t.maxEntries)

/-- Store under a deadline already resolved. `keepDeadline` keeps the one a live entry has. -/
def setAt (value : ν) (deadline : Deadline) (now : ℚ) (keepDeadline : Bool) : Table κ ν :=
  match find t key with
  | some e =>
    { t with entries := others t.entries key ++ [⟨key, value,
          if e.live now && keepDeadline then e.deadline else deadline⟩] }
  | none => { t with entries := ensureRoom t now ++ [⟨key, value, deadline⟩] }

def set (value : ν) (ttl : Option ℚ) (now : ℚ) (keepDeadline : Bool) : Option (Table κ ν) :=
  (resolveDeadline t ttl now).map fun deadline =>
    setAt t key value deadline now keepDeadline

/-! ## What an operation can add -/

/-- The key and the value are stored together. -/
def Holds (value : ν) : Prop := ∃ e ∈ t.entries, e.key = key ∧ e.value = value

variable {t t' : Table κ ν} {key k : κ} {value v : ν} {now : ℚ} {e : Entry κ ν}

theorem mem_others {es : List (Entry κ ν)} (h : e ∈ others es key) : e ∈ es := mem_of_mem_eraseP h

theorem find_holds (h : find t key = some e) : e ∈ t.entries ∧ e.key = key := by
  exact ⟨mem_of_find?_eq_some h, by simpa using List.find?_some h⟩

omit [DecidableEq κ] in
theorem Holds.mono (h : Holds t' k v) (hsub : ∀ e ∈ t'.entries, e ∈ t.entries) : Holds t k v := by
  obtain ⟨e, he, hk, hv⟩ := h
  exact ⟨e, hsub e he, hk, hv⟩

omit [DecidableEq κ] in
theorem not_holds_clear : ¬ Holds (clear t) k v := by
  rintro ⟨e, he, -⟩
  exact absurd he (not_mem_nil)

omit [DecidableEq κ] in
theorem mem_ensureRoom (h : e ∈ ensureRoom t now) : e ∈ t.entries := by
  rw [ensureRoom] at h
  split at h
  · exact h
  · exact (mem_filter.mp (mem_of_mem_drop h)).1

/-- A look-up returns what the table holds, and adds nothing. -/
theorem get_holds (h : get t key now = (some value, t')) : Holds t key value := by
  rw [get] at h
  cases hfind : find t key with
  | none => rw [hfind] at h; cases h
  | some e =>
    rw [hfind] at h
    obtain ⟨hmem, hkey⟩ := find_holds hfind
    dsimp only at h
    split at h
    · obtain ⟨hv, -⟩ := Prod.mk.inj h
      exact ⟨e, hmem, hkey, Option.some.inj hv⟩
    · cases h

theorem Holds.of_get (h : Holds (get t key now).2 k v) : Holds t k v := by
  rw [get] at h
  cases hfind : find t key with
  | none => rw [hfind] at h; exact h
  | some e =>
    rw [hfind] at h
    dsimp only at h
    split at h
    · refine h.mono fun e' he' => ?_
      rcases mem_append.mp he' with ho | hs
      · exact mem_others ho
      · rw [mem_singleton.mp hs]
        exact (find_holds hfind).1
    · exact h.mono fun _ he => mem_others he

/-- **STORING ADDS ONE PAIR**: whatever else is there was there. -/
theorem Holds.of_setAt {deadline : Deadline} {keep : Bool}
    (h : Holds (setAt t key value deadline now keep) k v) :
    (k = key ∧ v = value) ∨ Holds t k v := by
  obtain ⟨e, he, hk, hv⟩ := h
  rw [setAt] at he
  cases hfind : find t key with
  | none =>
    rw [hfind] at he
    rcases mem_append.mp he with hr | hs
    · exact .inr ⟨e, mem_ensureRoom hr, hk, hv⟩
    · rw [mem_singleton.mp hs] at hk hv
      exact .inl ⟨hk.symm, hv.symm⟩
  | some e' =>
    rw [hfind] at he
    rcases mem_append.mp he with ho | hs
    · exact .inr ⟨e, mem_others ho, hk, hv⟩
    · rw [mem_singleton.mp hs] at hk hv
      exact .inl ⟨hk.symm, hv.symm⟩

theorem Holds.of_set {ttl : Option ℚ} {keep : Bool} (hset : set t key value ttl now keep = some t')
    (h : Holds t' k v) : (k = key ∧ v = value) ∨ Holds t k v := by
  obtain ⟨deadline, -, rfl⟩ := Option.map_eq_some_iff.mp hset
  exact h.of_setAt

end Lease
