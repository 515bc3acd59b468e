import Mathlib.Data.List.Basic
import Mathlib.Data.List.Nodup

/-! # Open addressing — linear probing without deletion

A list of slots, each empty or holding a key and a value. A key is looked for from its
home slot on, slot after slot, up to the first empty one; a new key goes to that slot.
As long as nothing is deleted and a slot stays empty, every key stored is found
(`lookup_stored`), and storing a new key loses none (`place_stored`). -/

namespace ProbeTable

open List

variable {κ ν : Type}

/-- An empty slot, or a key with its value. -/
abbrev Slots (κ ν : Type) := List (Option (κ × ν))

/-- Probe up to `n` slots from `i` on for `key`. -/
def probe [DecidableEq κ] (slots : Slots κ ν) (key : κ) : Nat → Nat → Option ν
  | 0, _ => none
  | n + 1, i =>
    match slots[i % slots.length]? with
    | some (some (k, v)) =>
      if k = key then some v else probe slots key n (i + 1)
    | _ => none

/-- Look a key up from its home slot. -/
def lookup [DecidableEq κ] (home : κ → Nat) (slots : Slots κ ν) (key : κ) : Option ν :=
  probe slots key slots.length (home key)

/-- The first empty slot from `i` on. -/
def firstEmpty (slots : Slots κ ν) : Nat → Nat → Option Nat
  | 0, _ => none
  | n + 1, i =>
    match slots[i % slots.length]? with
    | some none => some (i % slots.length)
    | _ => firstEmpty slots n (i + 1)

/-- Store a key that is not there. -/
def place (home : κ → Nat) (slots : Slots κ ν) (entry : κ × ν) : Slots κ ν :=
  match firstEmpty slots slots.length (home entry.1) with
  | some j => slots.set j (some entry)
  | none => slots

/-- How many slots are taken. -/
def load (slots : Slots κ ν) : Nat := slots.countP Option.isSome

/-! ## Every stored key can be reached -/

/-- The slot holds another key. -/
def Other (slots : Slots κ ν) (key : κ) (j : Nat) : Prop :=
  ∃ k v, slots[j]? = some (some (k, v)) ∧ k ≠ key

/-- **REACHABLE**: from the home of a stored key to its slot every slot is taken by another key. -/
def Reachable (home : κ → Nat) (slots : Slots κ ν) : Prop :=
  ∀ (j : Nat) (k : κ) (v : ν), slots[j]? = some (some (k, v)) →
    ∃ d < slots.length, (home k + d) % slots.length = j
      ∧ ∀ e < d, Other slots k ((home k + e) % slots.length)

variable {slots : Slots κ ν} {v : ν} {key : κ}

theorem probe_hit [DecidableEq κ] :
    ∀ {d i n : Nat}, d < n → slots[(i + d) % slots.length]? = some (some (key, v)) →
      (∀ e < d, Other slots key ((i + e) % slots.length)) →
      probe slots key n i = some v := by
  intro d
  induction d with
  | zero =>
    intro i n hn hhit _
    obtain ⟨n, rfl⟩ : ∃ m, n = m + 1 := ⟨n - 1, by omega⟩
    rw [Nat.add_zero] at hhit
    rw [probe, hhit]
    exact if_pos rfl
  | succ d ih =>
    intro i n hn hhit hothers
    obtain ⟨n, rfl⟩ : ∃ m, n = m + 1 := ⟨n - 1, by omega⟩
    obtain ⟨k, w, hslot, hne⟩ := hothers 0 (Nat.succ_pos d)
    rw [Nat.add_zero] at hslot
    rw [probe, hslot]
    show ite _ _ _ = _
    rw [if_neg hne]
    refine ih (by omega) ?_ ?_
    · rw [← hhit]
      congr 2
      omega
    · intro e he
      have := hothers (e + 1) (by omega)
      rwa [show i + (e + 1) = i + 1 + e by omega] at this

theorem probe_some [DecidableEq κ] {n i : Nat} (h : probe slots key n i = some v) :
    some (key, v) ∈ slots := by
  fun_induction probe slots key n i with
  | case1 => cases h
  | case2 _ _ _ hslot =>
    cases h
    exact mem_of_getElem? hslot
  | case3 _ _ _ _ _ _ ih => exact ih h
  | case4 => cases h

variable {home : κ → Nat}

/-- **STORED IS FOUND.** -/
theorem lookup_stored [DecidableEq κ] {k : κ} (hreach : Reachable home slots)
    (h : some (k, v) ∈ slots) : lookup home slots k = some v := by
  obtain ⟨j, hj⟩ := mem_iff_getElem?.mp h
  obtain ⟨d, hd, hslot, hothers⟩ := hreach j k v hj
  refine probe_hit hd ?_ hothers
  rw [hslot]
  exact hj

/-! ## Storing a key -/

/-- The search for an empty slot ends at one, behind taken slots. -/
theorem firstEmpty_some {n i j : Nat} (h : firstEmpty slots n i = some j) :
      slots[j]? = some none ∧ ∃ d < n, (i + d) % slots.length = j
        ∧ ∀ e < d, slots[(i + e) % slots.length]? ≠ some none := by
  fun_induction firstEmpty slots n i with
  | case1 => cases h
  | case2 n _ hslot =>
    cases h
    exact ⟨hslot, 0, Nat.succ_pos n, rfl, fun e he => absurd he (Nat.not_lt_zero e)⟩
  | case3 n i hslot ih =>
    obtain ⟨hnil, d, hd, hj, htaken⟩ := ih h
    refine ⟨hnil, d + 1, by omega, ?_, ?_⟩
    · rw [show i + (d + 1) = i + 1 + d by omega]
      exact hj
    · intro e he
      cases e with
      | zero => exact hslot
      | succ e =>
        rw [show i + (e + 1) = i + 1 + e by omega]
        exact htaken e (by omega)

/-- An empty slot within reach is found. -/
theorem firstEmpty_isSome {n i d : Nat} (hd : d < n)
    (hnil : slots[(i + d) % slots.length]? = some none) : ∃ j, firstEmpty slots n i = some j := by
  fun_induction firstEmpty slots n i generalizing d with
  | case1 => exact absurd hd (Nat.not_lt_zero d)
  | case2 => exact ⟨_, rfl⟩
  | case3 n i hslot ih =>
    cases d with
    | zero => exact absurd hnil hslot
    | succ d =>
      refine ih (by omega : d < n) ?_
      rw [← hnil]
      congr 2
      omega

/-- Every slot is within reach of every other. -/
theorem exists_offset {cap i j : Nat} (hj : j < cap) : ∃ d < cap, (i + d) % cap = j := by
  have hmod := Nat.mod_lt i (show 0 < cap by omega)
  refine ⟨(j + cap - i % cap) % cap, Nat.mod_lt _ (by omega), ?_⟩
  rw [Nat.add_mod_mod, ← Nat.mod_add_mod, show i % cap + (j + cap - i % cap) = j + cap by omega,
    Nat.add_mod_right, Nat.mod_eq_of_lt hj]

theorem exists_empty (h : load slots < slots.length) :
    ∃ j < slots.length, slots[j]? = some none := by
  by_contra hnone
  have hall : ∀ s ∈ slots, Option.isSome s = true := by
    intro s hs
    obtain ⟨j, hj⟩ := mem_iff_getElem?.mp hs
    cases s with
    | some e => rfl
    | none =>
      obtain ⟨hlt, -⟩ := List.getElem?_eq_some_iff.mp hj
      exact absurd ⟨j, hlt, hj⟩ hnone
  rw [load, countP_eq_length.mpr hall] at h
  exact Nat.lt_irrefl _ h

/-- With room the key is stored in an empty slot behind taken ones. -/
theorem place_eq (home : κ → Nat) (entry : κ × ν) (hroom : load slots < slots.length) :
    ∃ j d, slots[j]? = some none ∧ d < slots.length ∧ (home entry.1 + d) % slots.length = j
      ∧ (∀ e < d, slots[(home entry.1 + e) % slots.length]? ≠ some none)
      ∧ place home slots entry = slots.set j (some entry) := by
  obtain ⟨j, hj, hnil⟩ := exists_empty hroom
  obtain ⟨d, hd, hoff⟩ := exists_offset (i := home entry.1) hj
  obtain ⟨j', hfirst⟩ := firstEmpty_isSome hd (by rw [hoff]; exact hnil)
  obtain ⟨hnil', d', hd', hoff', htaken⟩ := firstEmpty_some hfirst
  refine ⟨j', d', hnil', hd', hoff', htaken, ?_⟩
  rw [place, hfirst]

@[simp] theorem length_place (home : κ → Nat) (slots : Slots κ ν) (entry : κ × ν) :
    (place home slots entry).length = slots.length := by
  rw [place]
  split
  · exact length_set
  · rfl

/-- A stored key with its value is stored in the new table too, and so is the new key. -/
theorem mem_place {entry : κ × ν} (hroom : load slots < slots.length) (e : κ × ν) :
    some e ∈ place home slots entry ↔ e = entry ∨ some e ∈ slots := by
  obtain ⟨j, d, hnil, -, -, -, hplace⟩ := place_eq home entry hroom
  obtain ⟨hj, hnone⟩ := List.getElem?_eq_some_iff.mp hnil
  rw [hplace]
  constructor
  · intro h
    rcases mem_or_eq_of_mem_set h with hold | hnew
    · exact .inr hold
    · exact .inl (Option.some.inj hnew)
  · rintro (rfl | hold)
    · exact mem_set hj _
    · obtain ⟨i, hi⟩ := mem_iff_getElem?.mp hold
      have hij : i ≠ j := by
        rintro rfl
        exact nomatch hnil.symm.trans hi
      refine mem_iff_getElem?.mpr ⟨i, ?_⟩
      rw [getElem?_set_ne (Ne.symm hij)]
      exact hi

theorem load_place (home : κ → Nat) (entry : κ × ν) (hroom : load slots < slots.length) :
    load (place home slots entry) = load slots + 1 := by
  obtain ⟨j, d, hnil, -, -, -, hplace⟩ := place_eq home entry hroom
  obtain ⟨hj, hnone⟩ := List.getElem?_eq_some_iff.mp hnil
  rw [hplace, load, load, countP_set hj, hnone]
  simp

/-- **STORING KEEPS EVERY KEY WITHIN REACH.** -/
theorem Reachable.place (hreach : Reachable home slots) {entry : κ × ν}
    (hroom : load slots < slots.length) (hfresh : ∀ v, some (entry.1, v) ∉ slots) :
    Reachable home (place home slots entry) := by
  obtain ⟨j, d, hnil, hd, hoff, htaken, hplace⟩ := place_eq home entry hroom
  obtain ⟨hj, -⟩ := List.getElem?_eq_some_iff.mp hnil
  rw [hplace]
  -- a slot that was taken is not the new one
  have hkeep : ∀ {key : κ} {i : Nat}, Other slots key i →
      Other (slots.set j (some entry)) key i := by
    rintro key i ⟨k, v, hslot, hne⟩
    have hij : j ≠ i := by
      rintro rfl
      exact nomatch hnil.symm.trans hslot
    exact ⟨k, v, by rw [getElem?_set_ne hij]; exact hslot, hne⟩
  intro i k v hslot
  rw [length_set]
  by_cases hij : j = i
  · subst hij
    rw [getElem?_set_self hj] at hslot
    obtain rfl := Option.some.inj (Option.some.inj hslot)
    refine ⟨d, hd, hoff, fun e he => hkeep ?_⟩
    have hcap : 0 < slots.length := by omega
    obtain ⟨s, hs⟩ : ∃ s, slots[(home k + e) % slots.length]? = some s :=
      ⟨_, getElem?_eq_getElem (Nat.mod_lt _ hcap)⟩
    cases s with
    | none => exact absurd hs (htaken e he)
    | some other =>
      obtain ⟨k', v'⟩ := other
      refine ⟨k', v', hs, ?_⟩
      rintro rfl
      exact hfresh v' (mem_of_getElem? hs)
  · rw [getElem?_set_ne hij] at hslot
    obtain ⟨d', hd', hoff', hothers⟩ := hreach i k v hslot
    exact ⟨d', hd', hoff', fun e he => hkeep (hothers e he)⟩

/-! ## Tables that grow -/

/-- Only empty slots. -/
def vacant (κ ν : Type) (cap : Nat) : Slots κ ν := List.replicate cap none

theorem length_vacant (cap : Nat) : (vacant κ ν cap).length = cap := length_replicate

theorem load_vacant (cap : Nat) : load (vacant κ ν cap) = 0 := by
  refine countP_eq_zero.mpr (fun s hs => ?_)
  rw [eq_of_mem_replicate hs]
  exact Bool.false_ne_true

theorem not_mem_vacant {cap : Nat} {e : κ × ν} : some e ∉ vacant κ ν cap :=
  fun h => nomatch eq_of_mem_replicate h

theorem reachable_vacant (home : κ → Nat) (cap : Nat) : Reachable home (vacant κ ν cap) :=
  fun _ _ _ h => absurd (mem_of_getElem? h) not_mem_vacant

/-- The keys and values of a table, slot by slot. -/
def entries (slots : Slots κ ν) : List (κ × ν) := slots.filterMap id

theorem mem_entries {e : κ × ν} : e ∈ entries slots ↔ some e ∈ slots := by
  rw [entries, mem_filterMap]
  constructor
  · rintro ⟨s, hs, rfl⟩
    exact hs
  · exact fun h => ⟨some e, h, rfl⟩

theorem length_entries : (entries slots).length = load slots := by
  rw [entries, length_filterMap_eq_countP]
  rfl

/-- A key has one slot. -/
theorem Reachable.slot_unique (hreach : Reachable home slots) {i j : Nat} {k : κ} {w : ν}
    (hi : slots[i]? = some (some (k, v))) (hj : slots[j]? = some (some (k, w))) : i = j := by
  obtain ⟨d, -, hd, hothers⟩ := hreach i k v hi
  obtain ⟨d', -, hd', hothers'⟩ := hreach j k w hj
  rcases Nat.lt_trichotomy d d' with hlt | heq | hgt
  · obtain ⟨k', v', hslot, hne⟩ := hothers' d hlt
    rw [hd, hi] at hslot
    cases hslot
    exact absurd rfl hne
  · rw [← hd, ← hd', heq]
  · obtain ⟨k', v', hslot, hne⟩ := hothers d' hgt
    rw [hd', hj] at hslot
    cases hslot
    exact absurd rfl hne

theorem Reachable.nodup_keys (hreach : Reachable home slots) :
    ((entries slots).map Prod.fst).Nodup := by
  rw [List.Nodup, pairwise_map, entries, pairwise_filterMap, pairwise_iff_getElem]
  intro i j hi hj hij e he e' he' heq
  have hi' : slots[i]? = some (some (e.1, e.2)) := by
    rw [getElem?_eq_getElem hi]
    exact congrArg some he
  have hj' : slots[j]? = some (some (e.1, e'.2)) := by
    rw [getElem?_eq_getElem hj, heq]
    exact congrArg some he'
  exact absurd (hreach.slot_unique hi' hj') (Nat.ne_of_lt hij)

/-- Store entry after entry. -/
def refill (home : κ → Nat) (slots : Slots κ ν) (es : List (κ × ν)) :
    Slots κ ν := es.foldl (place home) slots

/-- With room for all of them, new keys are all stored. -/
theorem refill_spec (home : κ → Nat) :
    ∀ (es : List (κ × ν)) {slots : Slots κ ν}, Reachable home slots → (es.map Prod.fst).Nodup →
      (∀ e ∈ es, ∀ v, some (e.1, v) ∉ slots) →
      load slots + es.length ≤ slots.length →
      Reachable home (refill home slots es) ∧ (refill home slots es).length = slots.length
        ∧ load (refill home slots es) = load slots + es.length
        ∧ ∀ e, some e ∈ refill home slots es ↔ e ∈ es ∨ some e ∈ slots := by
  intro es
  induction es with
  | nil =>
    intro slots hreach _ _ _
    exact ⟨hreach, rfl, rfl, fun e => ⟨.inr, fun h => h.resolve_left nofun⟩⟩
  | cons a es ih =>
    intro slots hreach hnd hfresh hroom
    rw [map_cons, nodup_cons] at hnd
    rw [length_cons] at hroom
    have hroom' : load slots < slots.length := by omega
    have hload := load_place home a hroom'
    obtain ⟨hr, hlen, hl, hmem⟩ := ih (hreach.place hroom' (hfresh a mem_cons_self)) hnd.2 (by
        intro e he v hstored
        rcases (mem_place hroom' _).mp hstored with heq | hold
        · refine hnd.1 (mem_map.mpr ⟨e, he, ?_⟩)
          rw [← heq]
        · exact hfresh e (mem_cons_of_mem a he) v hold)
      (by rw [length_place, hload]; omega)
    refine ⟨hr, hlen.trans (length_place home slots a), ?_, ?_⟩
    · show load (refill home (place home slots a) es) = _
      rw [hl, hload, length_cons]
      omega
    · intro e
      show some e ∈ refill home (place home slots a) es ↔ _
      rw [hmem, mem_place hroom', mem_cons]
      tauto

/-- A larger table with the same keys. -/
def grow (home : κ → Nat) (slots : Slots κ ν) : Slots κ ν :=
  refill home (vacant κ ν (if slots.length = 0 then 8 else slots.length * 2)) (entries slots)

/-- At most half the slots are taken, and every key is within reach. -/
structure Sound (home : κ → Nat) (slots : Slots κ ν) : Prop where
  reach : Reachable home slots
  half : load slots ≤ slots.length / 2

theorem grow_spec (h : Sound home slots) :
    Reachable home (grow home slots) ∧ load (grow home slots) + 1 ≤ (grow home slots).length / 2
      ∧ ∀ e, some e ∈ grow home slots ↔ some e ∈ slots := by
  have hhalf := h.half
  generalize hcap : (if slots.length = 0 then 8 else slots.length * 2) = cap
  have hbound : load slots + 1 ≤ cap / 2 := by
    split at hcap <;> omega
  obtain ⟨hreach, hlen, hload, hmem⟩ := refill_spec home (entries slots)
    (reachable_vacant home cap) h.reach.nodup_keys
    (fun _ _ _ => not_mem_vacant) (by
      rw [load_vacant, length_entries, length_vacant]
      omega)
  rw [length_vacant] at hlen
  rw [load_vacant, length_entries, Nat.zero_add] at hload
  rw [grow, hcap]
  refine ⟨hreach, ?_, fun e => ?_⟩
  · rw [hload, hlen]
    exact hbound
  · rw [hmem, mem_entries]
    exact ⟨fun h => h.resolve_right not_mem_vacant, .inl⟩

/-- The value of a key, which is stored with `fresh` if it was not there; a table that is
    half full grows first. -/
def intern [DecidableEq κ] (home : κ → Nat) (slots : Slots κ ν) (key : κ)
    (fresh : ν) : Slots κ ν × ν × Bool :=
  match lookup home slots key with
  | some v => (slots, v, false)
  | none =>
    let slots := if slots.length / 2 ≤ load slots then grow home slots else slots
    (place home slots (key, fresh), fresh, true)

theorem intern_found [DecidableEq κ] (hlook : lookup home slots key = some v) (fresh : ν) :
    intern home slots key fresh = (slots, v, false) := by
  rw [intern, hlook]

/-- **INTERNING A NEW KEY** stores it and loses none. -/
theorem intern_fresh [DecidableEq κ] (h : Sound home slots) (hlook : lookup home slots key = none)
    (fresh : ν) : ∃ slots', intern home slots key fresh = (slots', fresh, true) ∧ Sound home slots'
      ∧ ∀ e, some e ∈ slots' ↔ e = (key, fresh) ∨ some e ∈ slots := by
  rw [intern, hlook]
  refine ⟨_, rfl, ?_⟩
  have hnew : ∀ v, some (key, v) ∉ slots := by
    intro v hstored
    exact nomatch hlook.symm.trans (lookup_stored h.reach hstored)
  generalize hroomy : (if slots.length / 2 ≤ load slots then grow home slots else slots) = roomy
  -- grown or not, there is room for one more in the lower half
  have hready : Reachable home roomy ∧ load roomy + 1 ≤ roomy.length / 2
      ∧ ∀ e, some e ∈ roomy ↔ some e ∈ slots := by
    split at hroomy
    · exact hroomy ▸ grow_spec h
    · subst hroomy
      exact ⟨h.reach, by omega, fun _ => Iff.rfl⟩
  obtain ⟨hreach, hhalf, hmem⟩ := hready
  have hroom : load roomy < roomy.length := by omega
  refine ⟨⟨hreach.place hroom ?_, ?_⟩, ?_⟩
  · exact fun v hv => hnew v ((hmem _).mp hv)
  · rw [load_place home _ hroom, length_place]
    exact hhalf
  · intro e
    rw [mem_place hroom e, hmem e]

/-! ## A table under other keys -/

/-- Store entries whose keys must all differ. -/
def rekey [DecidableEq κ] (home : κ → Nat) : Slots κ ν → List (κ × ν) → Option (Slots κ ν)
  | slots, [] => some slots
  | slots, e :: es =>
    if (lookup home slots e.1).isSome then none
    else rekey home (place home slots e) es

theorem rekey_spec [DecidableEq κ] (home : κ → Nat) :
    ∀ (es : List (κ × ν)) {slots slots' : Slots κ ν},
      Reachable home slots → load slots + es.length ≤ slots.length →
      rekey home slots es = some slots' →
      Reachable home slots' ∧ slots'.length = slots.length
        ∧ ∀ e, e ∈ es ∨ some e ∈ slots → some e ∈ slots' := by
  intro es
  induction es with
  | nil =>
    intro slots slots' hreach _ h
    cases h
    exact ⟨hreach, rfl, fun e he => he.resolve_left nofun⟩
  | cons a es ih =>
    intro slots slots' hreach hroom h
    rw [rekey] at h
    split at h
    · cases h
    rename_i hnew
    rw [length_cons] at hroom
    have hroom' : load slots < slots.length := by omega
    have hfresh : ∀ v, some (a.1, v) ∉ slots := by
      intro v hstored
      rw [lookup_stored hreach hstored] at hnew
      exact hnew rfl
    obtain ⟨hr, hlen, hmem⟩ := ih (hreach.place hroom' hfresh)
      (by rw [length_place, load_place home a hroom']; omega) h
    refine ⟨hr, hlen.trans (length_place home slots a), ?_⟩
    rintro e (he | he)
    · rcases mem_cons.mp he with rfl | he
      · exact hmem e (.inr ((mem_place hroom' e).mpr (.inl rfl)))
      · exact hmem e (.inl he)
    · exact hmem e (.inr ((mem_place hroom' e).mpr (.inr he)))

end ProbeTable
