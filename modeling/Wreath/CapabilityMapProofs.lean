import Mathlib.Data.Finset.Basic
import Mathlib.Data.Finset.Card
import Mathlib.Logic.Function.Basic
import Wreath.TableProofs

/-! # Capability maps — `_capability_map.py`

A table of expiring capabilities over the native table, with a policy for the case that
it is full. Under the policy `refuse` the map keeps its own set of keys and a heap of
deadlines; it sweeps before each use, and a key leaves only when the deadline recorded
for it has come (`purgeExpired_spent`). A claim succeeds for a key that is not in the
set, and for no other (`claim_spent`). -/

namespace Capability

open Function

variable {κ ν : Type}

inductive Overflow where
  | evict
  | earliest
  | refuse
  deriving Repr, DecidableEq

abbrev Deadline := Lease.Deadline

/-- The heap is the list of its items in order, the smallest first. -/
structure CapabilityMap (κ ν : Type) where
  table : Lease.Table κ ν
  lastNow : ℚ
  ttl : Option ℚ
  deadlines : κ → Option Deadline
  heap : List (Deadline × Nat × κ)
  keys : Finset κ
  sequence : Nat
  overflow : Overflow
  expireAtDeadline : Bool

def CapabilityMap.new (maxEntries : Nat) (ttl : Option ℚ) (now : ℚ)
    (overflow : Overflow) (expireAtDeadline : Bool) : CapabilityMap κ ν :=
  ⟨.new maxEntries ttl, now, ttl, fun _ => none, [], ∅, 0, overflow, expireAtDeadline⟩

/-- `heapq.heappush`: items compare by deadline, then by sequence. -/
def heappush (item : Deadline × Nat × κ) : List (Deadline × Nat × κ) → List (Deadline × Nat × κ)
  | [] => [item]
  | head :: rest =>
    if item.1 < head.1 ∨ item.1 = head.1 ∧ item.2.1 < head.2.1 then
      item :: head :: rest
    else head :: heappush item rest

variable [DecidableEq κ]

namespace CapabilityMap

variable (m : CapabilityMap κ ν) (key : κ) (now : ℚ)

/-- The key leaves the table, the deadlines and the set. -/
def drop : CapabilityMap κ ν := { m with
    table := Lease.delete m.table key
    deadlines := update m.deadlines key none
    keys := m.keys.erase key }

def past (deadline : Deadline) : Bool :=
  if m.expireAtDeadline then decide (deadline ≤ ↑now)
  else decide (deadline < ↑now)

/-- The loop of `_purge_expired` over the items of the heap. -/
def purgeItems (now : ℚ) : List (Deadline × Nat × κ) → CapabilityMap κ ν →
      List ν × CapabilityMap κ ν
  | [], m => ([], { m with heap := [] })
  | (deadline, sequence, key) :: rest, m =>
    if m.past now deadline then
      -- an item whose deadline is no longer the key's is a leftover
      if m.deadlines key ≠ some deadline then purgeItems now rest m
      else
        ((Lease.held m.table key).toList ++ (purgeItems now rest (m.drop key)).1,
          (purgeItems now rest (m.drop key)).2)
    else ([], { m with heap := (deadline, sequence, key) :: rest })

def purgeExpired : List ν × CapabilityMap κ ν := purgeItems now m.heap m

/-- `_now`: the reading is remembered; a refusing map sweeps at once. -/
def observe : CapabilityMap κ ν :=
  if m.overflow = .refuse then (purgeExpired { m with lastNow := now } now).2
  else { m with lastNow := now }

def peek (m : CapabilityMap κ ν) (key : κ) (now : ℚ) : Option ν × CapabilityMap κ ν :=
  (Lease.peek (m.observe now).table key now, m.observe now)

/-- The loop of `_evict_earliest`. -/
def evictItems (now : ℚ) : List (Deadline × Nat × κ) → CapabilityMap κ ν → CapabilityMap κ ν
  | [], m => { m with heap := [] }
  | (deadline, _, key) :: rest, m =>
    if m.deadlines key ≠ some deadline then evictItems now rest m
    else if (Lease.peek m.table key now).isSome then
      { m.drop key with heap := rest }
    else
      evictItems now rest { m with deadlines := update m.deadlines key none }

def evictEarliest : CapabilityMap κ ν := evictItems now m.heap m

/-- The room `_put` makes for a new key; nothing is a refusal. -/
def admitNew (new : Bool) : Option (CapabilityMap κ ν) :=
  if new then
    match m.overflow with
    | .refuse => if m.table.maxEntries ≤ m.keys.card then none else some m
    | .earliest =>
      if m.table.maxEntries ≤ Lease.count m.table now then
        some (m.evictEarliest now)
      else some m
    | .evict => some m
  else some m

/-- The deadline `_put` records, or forgets. -/
def track (ttl : Option ℚ) (now : ℚ) (keepDeadline new : Bool) : CapabilityMap κ ν :=
  let tracked := m.overflow = .refuse ∨ new = true ∧ m.overflow = .earliest
  match ttl.or m.ttl with
  | some lifetime =>
    if tracked ∧ (new = true ∨ keepDeadline = false) then
      { m with
        sequence := m.sequence + 1
        deadlines := update m.deadlines key (some (Binary64.add now lifetime))
        heap := heappush (Binary64.add now lifetime, m.sequence + 1, key) m.heap }
    else if m.overflow = .refuse ∧ keepDeadline = false then
      { m with deadlines := update m.deadlines key none }
    else m
  | none =>
    if m.overflow = .refuse ∧ keepDeadline = false then
      { m with deadlines := update m.deadlines key none }
    else m

/-- The write itself: the table, then the set of keys, then the deadline. -/
def insert (m : CapabilityMap κ ν) (key : κ) (value : ν) (ttl : Option ℚ)
    (now : ℚ) (keepDeadline new : Bool) : Option (CapabilityMap κ ν) :=
  (Lease.set m.table key value ttl now keepDeadline).map fun table =>
    ({ m with
        table := table
        keys := if new = true ∧ m.overflow = .refuse then
            Insert.insert key m.keys
          else m.keys } : CapabilityMap κ ν).track key ttl now keepDeadline new

/-- `_put`. An error is the table's refusal of the lifetime. -/
def putNew (value : ν) (ttl : Option ℚ) (now : ℚ) (keepDeadline new : Bool) :
    Except String Bool × CapabilityMap κ ν :=
  match m.admitNew now new with
  | none => (.ok false, m)
  | some m' =>
    match m'.insert key value ttl now keepDeadline new with
    | none => (.error "ttl must be positive", m')
    | some m'' => (.ok true, m'')

def present : Bool :=
  if m.overflow = .refuse then decide (key ∈ m.keys)
  else (Lease.peek m.table key now).isSome

def claim (value : ν) (ttl : Option ℚ) (now : ℚ) : Except String Bool × CapabilityMap κ ν :=
  if (m.observe now).present key now then (.ok false, m.observe now)
  else (m.observe now).putNew key value ttl now false true

/-! ## The refusing map -/

/-- The map of a replay ledger. -/
structure Refusing (m : CapabilityMap κ ν) : Prop where
  overflow : m.overflow = .refuse
  expire : m.expireAtDeadline = true

/-- The key is in the set, to leave at the deadline. -/
structure Spent (m : CapabilityMap κ ν) (key : κ) (d : Deadline) : Prop where
  refusing : m.Refusing
  member : key ∈ m.keys
  deadline : m.deadlines key = some d

/-- What no operation of the map changes. -/
structure Alike (m' m : CapabilityMap κ ν) : Prop where
  overflow : m'.overflow = m.overflow
  expire : m'.expireAtDeadline = m.expireAtDeadline
  ttl : m'.ttl = m.ttl

/-- No key and no entry that was not there. -/
structure Within (m' m : CapabilityMap κ ν) : Prop where
  keys : m'.keys ⊆ m.keys
  entries : ∀ e ∈ m'.table.entries, e ∈ m.table.entries

variable {m m' m'' : CapabilityMap κ ν} {key k : κ} {value : ν} {now : ℚ}
  {d : Deadline} {ttl : Option ℚ}

omit [DecidableEq κ] in
theorem Within.refl (m : CapabilityMap κ ν) : m.Within m := ⟨fun _ => id, fun _ => id⟩

omit [DecidableEq κ] in
theorem Within.trans (h : m'.Within m) (h' : m''.Within m') : m''.Within m :=
  ⟨fun _ hk => h.keys (h'.keys hk), fun e he => h.entries e (h'.entries e he)⟩

omit [DecidableEq κ] in
theorem Alike.trans (h : m''.Alike m') (h' : m'.Alike m) : m''.Alike m :=
  ⟨h.overflow.trans h'.overflow, h.expire.trans h'.expire, h.ttl.trans h'.ttl⟩

omit [DecidableEq κ] in
theorem Alike.refusing (h : m'.Alike m) (hm : m.Refusing) : m'.Refusing :=
  ⟨h.overflow.trans hm.overflow, h.expire.trans hm.expire⟩

theorem Refusing.drop (h : m.Refusing) (key : κ) : (m.drop key).Refusing := ⟨h.overflow, h.expire⟩

/-- Only the dropped key leaves. -/
theorem Spent.drop (h : m.Spent k d) (hne : key ≠ k) : (m.drop key).Spent k d where
  refusing := h.refusing.drop key
  member := Finset.mem_erase.mpr ⟨hne.symm, h.member⟩
  deadline := (update_of_ne hne.symm _ _).trans h.deadline

omit [DecidableEq κ] in
theorem past_iff (h : m.Refusing) : m.past now d = true ↔ d ≤ ↑now := by
  rw [past, if_pos h.expire]
  exact decide_eq_true_iff

/-- **THE SWEEP** drops a key only under the deadline recorded for it, and only when that has
    come: what such a drop keeps, the sweep keeps. -/
theorem purgeItems_keeps {P : CapabilityMap κ ν → Prop}
    (hheap : ∀ {m : CapabilityMap κ ν} heap, P m → P { m with heap })
    (hdrop : ∀ {m : CapabilityMap κ ν} {deadline key}, P m → m.past now deadline = true →
      m.deadlines key = some deadline → P (m.drop key))
    (items : List (Deadline × Nat × κ)) (h : P m) : P (purgeItems now items m).2 := by
  fun_induction purgeItems now items m with
  | case1 | case4 => exact hheap _ h
  | case2 _ _ _ _ _ _ _ ih => exact ih h
  | case3 _ _ _ _ _ hpast hsame ih => exact ih (hdrop h hpast (not_not.mp hsame))

/-- The deadline of a spent key has not come. -/
theorem purgeItems_spent (hnow : ↑now < d) (items : List (Deadline × Nat × κ)) (h : m.Spent k d) :
    (purgeItems now items m).2.Spent k d := by
  refine purgeItems_keeps (P := (·.Spent k d)) (fun _ h => ⟨⟨h.refusing.overflow,
    h.refusing.expire⟩, h.member, h.deadline⟩) (fun h hpast hsame => h.drop ?_) items h
  rintro rfl
  have hd := Option.some.inj (hsame.symm.trans h.deadline)
  exact absurd hnow (not_lt_of_ge (hd ▸ (past_iff h.refusing).mp hpast))

theorem observe_alike (m : CapabilityMap κ ν) (now : ℚ) : (m.observe now).Alike m := by
  rw [observe]
  split
  · exact purgeItems_keeps (P := (·.Alike m)) (fun _ h => { h with })
      (fun h _ _ => { h with }) m.heap ⟨rfl, rfl, rfl⟩
  · exact ⟨rfl, rfl, rfl⟩

theorem observe_refusing (h : m.Refusing) (now : ℚ) : (m.observe now).Refusing :=
  (observe_alike m now).refusing h

theorem observe_spent (h : m.Spent k d) (hnow : ↑now < d) : (m.observe now).Spent k d := by
  rw [observe, if_pos h.refusing.overflow]
  exact purgeItems_spent hnow _ ⟨⟨h.refusing.overflow, h.refusing.expire⟩, h.member, h.deadline⟩

theorem observe_within (m : CapabilityMap κ ν) (now : ℚ) : (m.observe now).Within m := by
  rw [observe]
  split
  · exact purgeItems_keeps (P := (·.Within m)) (fun _ h => ⟨h.keys, h.entries⟩)
      (fun h _ _ => h.trans ⟨Finset.erase_subset _ _, fun _ he => Lease.mem_others he⟩) m.heap ⟨fun _ => id, fun _ => id⟩
  · exact ⟨fun _ => id, fun _ => id⟩

theorem present_iff (h : m.Refusing) : m.present key now = true ↔ key ∈ m.keys := by
  rw [present, if_pos h.overflow]
  exact decide_eq_true_iff

/-! ## A claim -/

/-- What a claim of a refusing map can do. -/
theorem claim_cases (h : m.Refusing) (key : κ) (value : ν) (ttl : Option ℚ) (now : ℚ) :
    (key ∈ (m.observe now).keys ∧ m.claim key value ttl now = (.ok false, m.observe now)) ∨
    (key ∉ (m.observe now).keys ∧ m.claim key value ttl now =
        (m.observe now).putNew key value ttl now false true) := by
  rw [claim]
  by_cases hkey : key ∈ (m.observe now).keys
  · rw [if_pos ((present_iff (observe_refusing h now)).mpr hkey)]
    exact .inl ⟨hkey, rfl⟩
  · rw [if_neg fun hp => hkey ((present_iff (observe_refusing h now)).mp hp)]
    exact .inr ⟨hkey, rfl⟩

/-- The record of a deadline touches one key. -/
theorem track_keeps (h : m.Spent k d) (hne : k ≠ key) (keep new : Bool) :
    (m.track key ttl now keep new).Spent k d := by
  have hother : ∀ v, update m.deadlines key v k = some d :=
    fun v => (update_of_ne hne _ _).trans h.deadline
  have hmap : ∀ (m' : CapabilityMap κ ν), m'.overflow = m.overflow →
      m'.expireAtDeadline = m.expireAtDeadline → m'.keys = m.keys →
      m'.deadlines k = some d → m'.Spent k d := by
    intro m' ho he hk hd
    exact ⟨⟨ho.trans h.refusing.overflow, he.trans h.refusing.expire⟩, hk ▸ h.member, hd⟩
  rw [track]
  split
  · split
    · exact hmap _ rfl rfl rfl (hother _)
    · split
      · exact hmap _ rfl rfl rfl (hother _)
      · exact h
  · split
    · exact hmap _ rfl rfl rfl (hother _)
    · exact h

section

variable (hinsert : m.insert key value ttl now false true = some m')
include hinsert

theorem insert_alike : m'.Alike m := by
  obtain ⟨table, -, rfl⟩ := Option.map_eq_some_iff.mp hinsert
  rw [track]
  dsimp only
  split
  · split
    · exact ⟨rfl, rfl, rfl⟩
    · split
      · exact ⟨rfl, rfl, rfl⟩
      · exact ⟨rfl, rfl, rfl⟩
  · split
    · exact ⟨rfl, rfl, rfl⟩
    · exact ⟨rfl, rfl, rfl⟩

/-- The write of a new key keeps the other keys. -/
theorem insert_keeps (h : m.Spent k d) (hne : k ≠ key) : m'.Spent k d := by
  obtain ⟨table, -, rfl⟩ := Option.map_eq_some_iff.mp hinsert
  rw [if_pos ⟨rfl, h.refusing.overflow⟩]
  apply track_keeps _ hne
  exact ⟨⟨h.refusing.overflow, h.refusing.expire⟩, Finset.mem_insert_of_mem h.member, h.deadline⟩

/-- The write of a new key with a lifetime. -/
theorem insert_spent {seconds : ℚ} (h : m.Refusing) (hlife : ttl.or m.ttl = some seconds) :
    m'.Spent key (Binary64.add now seconds) := by
  obtain ⟨table, -, rfl⟩ := Option.map_eq_some_iff.mp hinsert
  have htracked : (m.overflow = .refuse ∨ true = true ∧
      m.overflow = .earliest) ∧ (true = true ∨ false = false) :=
    ⟨.inl h.overflow, .inl rfl⟩
  rw [if_pos ⟨rfl, h.overflow⟩, track]
  rw [hlife]
  dsimp only
  rw [if_pos htracked]
  exact ⟨⟨h.overflow, h.expire⟩, Finset.mem_insert_self _ _, update_self ..⟩

end

/-- A new key is written, or nothing is. -/
theorem putNew_cases (h : m.Refusing) :
    (∃ r, r ≠ .ok true ∧ m.putNew key value ttl now false true = (r, m)) ∨
    ∃ m', m.insert key value ttl now false true = some m' ∧
      m.putNew key value ttl now false true = (.ok true, m') := by
  rw [putNew, admitNew, if_pos rfl, h.overflow]
  by_cases hfull : m.table.maxEntries ≤ m.keys.card
  · rw [if_pos hfull]
    exact .inl ⟨.ok false, nofun, rfl⟩
  rw [if_neg hfull]
  dsimp only
  cases hinsert : m.insert key value ttl now false true with
  | none => exact .inl ⟨.error _, nofun, rfl⟩
  | some m' => exact .inr ⟨m', rfl, rfl⟩

/-- **A SPENT KEY IS REFUSED** until its deadline, and stays spent. -/
theorem claim_spent (h : m.Spent key d) (hnow : ↑now < d) (value : ν) :
    m.claim key value ttl now = (.ok false, m.observe now) := by
  rcases claim_cases h.refusing key value ttl now with ⟨-, hclaim⟩ | ⟨habsent, -⟩
  · exact hclaim
  · exact absurd (observe_spent h hnow).member habsent

/-- A claim writes a new key, or it does not succeed. -/
theorem claim_result (h : m.Refusing) (key : κ) (value : ν) (ttl : Option ℚ) (now : ℚ) :
    (∃ r, r ≠ .ok true ∧ m.claim key value ttl now = (r, m.observe now)) ∨
    key ∉ (m.observe now).keys ∧ ∃ m', (m.observe now).insert key value ttl now false true = some m' ∧
      m.claim key value ttl now = (.ok true, m') := by
  rcases claim_cases h key value ttl now with ⟨-, hc⟩ | ⟨habsent, hc⟩
  · exact .inl ⟨.ok false, nofun, hc⟩
  · rw [hc]
    exact (putNew_cases (observe_refusing h now)).imp_right fun hnew => ⟨habsent, hnew⟩

theorem claim_keeps (h : m.Spent k d) (hnow : ↑now < d) (key : κ) (value : ν) (ttl : Option ℚ) :
    (m.claim key value ttl now).2.Spent k d := by
  have hobs := observe_spent h hnow
  rcases claim_result h.refusing key value ttl now with ⟨r, -, hc⟩ | ⟨habsent, m', hinsert, hc⟩
  · rw [hc]
    exact hobs
  · rw [hc]
    refine insert_keeps hinsert hobs ?_
    rintro rfl
    exact habsent hobs.member

theorem claim_alike (h : m.Refusing) (key : κ) (value : ν) (ttl : Option ℚ) (now : ℚ) :
    (m.claim key value ttl now).2.Alike m := by
  have hobs := observe_alike m now
  rcases claim_result h key value ttl now with ⟨r, -, hc⟩ | ⟨-, m', hinsert, hc⟩
  · rw [hc]
    exact hobs
  · rw [hc]
    exact (insert_alike hinsert).trans hobs

/-- A claim that succeeds spends its key. -/
theorem claim_ok {seconds : ℚ} (h : m.Refusing) (hlife : ttl.or m.ttl = some seconds)
    (hclaim : m.claim key value ttl now = (.ok true, m')) :
    m'.Spent key (Binary64.add now seconds) := by
  rcases claim_result h key value ttl now with ⟨r, hr, hc⟩ | ⟨-, m₁, hinsert, hc⟩
  · exact absurd (congrArg Prod.fst (hc.symm.trans hclaim)) hr
  · obtain ⟨-, rfl⟩ := Prod.mk.inj (hc.symm.trans hclaim)
    rw [← (observe_alike m now).ttl] at hlife
    exact insert_spent hinsert (observe_refusing h now) hlife

/-- A claim that does not succeed adds nothing. -/
theorem claim_within {result : Except String Bool} (h : m.Refusing)
    (hclaim : m.claim key value ttl now = (result, m'))
    (hresult : result ≠ .ok true) : m'.Within m := by
  rcases claim_result h key value ttl now with ⟨r, -, hc⟩ | ⟨-, m₁, -, hc⟩
  · obtain ⟨-, rfl⟩ := Prod.mk.inj (hc.symm.trans hclaim)
    exact observe_within m now
  · exact absurd (congrArg Prod.fst (hc.symm.trans hclaim)).symm hresult

end CapabilityMap

end Capability
