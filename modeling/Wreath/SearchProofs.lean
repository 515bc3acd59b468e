import Mathlib.Algebra.Order.BigOperators.Group.List
import Mathlib.Algebra.Order.Group.Nat
import Mathlib.Algebra.Order.Ring.Int
import Mathlib.Data.List.Basic
import Mathlib.Data.List.Pairwise
import Mathlib.Data.List.Perm.Basic
import Mathlib.Data.List.Sort
import Mathlib.Data.Prod.Lex
import Mathlib.Logic.Relation
import Mathlib.Order.Lattice

/-! # Searching and sorting

* `BinarySearch`: `search p` halves a range until it is empty and finds the place where a
  test begins to fail.
* `StableSort`: a relation holds along the sorted list exactly when it holds of every two
  records, taken in the order of the keys (`pairwise_insertionSort_iff`).
* `MergeDiff`: two lists in strict order of a key walked side by side are compared record
  by record (`mergeDiff_perm`).
* `Worklist`: a first-in first-out frontier that expands a node once. With fuel for the
  edges that are left (`edges`) the loop comes to its own end (`search_ends`), and it finds
  a goal exactly when one can be reached (`search_iff`). -/

namespace BinarySearch

/-- The loop, with a bound on the number of turns. -/
def search (p : Nat → Bool) : Nat → Nat → Nat → Nat
  | 0, low, _ => low
  | fuel + 1, low, high =>
    if low < high then
      let middle := low + (high - low) / 2
      if p middle then search p fuel (middle + 1) high else search p fuel low middle
    else low

/-- `r` is where `p` stops to hold, below `n`. -/
structure Boundary (p : Nat → Bool) (n r : Nat) : Prop where
  le : r ≤ n
  before : ∀ k, k < r → p k = true
  after : ∀ k, r ≤ k → k < n → p k = false

theorem search_range {p : Nat → Bool} {n fuel low high : Nat}
    (hmono : ∀ j k, j ≤ k → k < n → p k = true → p j = true) (hfuel : high - low ≤ fuel)
    (hle : low ≤ high) (hn : high ≤ n) (hlow : ∀ k, k < low → p k = true)
    (hhigh : ∀ k, high ≤ k → k < n → p k = false) : Boundary p n (search p fuel low high) := by
  induction fuel generalizing low high with
  | zero =>
    have hsame : high = low := by omega
    subst hsame
    exact ⟨hn, hlow, hhigh⟩
  | succ fuel ih =>
    rw [search]
    split
    · next hlt =>
        have hmid : low + (high - low) / 2 < high := by omega
        dsimp only
        generalize hm : low + (high - low) / 2 = middle at hmid ⊢
        cases hp : p middle with
        | true =>
          refine ih (by omega) (by omega) hn ?_ hhigh
          intro k hk
          exact hmono k middle (by omega) (by omega) hp
        | false =>
          refine ih (by omega) (by omega) (by omega) hlow ?_
          intro k hk hkn
          cases hpk : p k with
          | false => rfl
          | true => exact (hp.symm.trans (hmono middle k hk hkn hpk)).symm
    · next hnot =>
        have hsame : high = low := by omega
        subst hsame
        exact ⟨hn, hlow, hhigh⟩

/-- **THE SEARCH FINDS THE BOUNDARY.** -/
theorem search_boundary {p : Nat → Bool} {n : Nat}
    (hmono : ∀ j k, j ≤ k → k < n → p k = true → p j = true) : Boundary p n (search p n 0 n) :=
  search_range hmono (by omega) (by omega) (by omega) (by omega) (by omega)

end BinarySearch

namespace StableSort

open List

variable {α κ : Type} [LinearOrder κ] {key : α → κ}
  {r : α → α → Prop} [DecidableRel r] (hr : ∀ a b, r a b ↔ key a ≤ key b)
  {R : α → α → Prop}

/-- A pair in the order of the keys, and as it stands when they agree. -/
def Arranged (key : α → κ) (R : α → α → Prop) (a b : α) : Prop :=
  if key a ≤ key b then R a b else R b a

theorem arranged_of_le {a b : α} (h : key a ≤ key b) : Arranged key R a b ↔ R a b := by
  rw [Arranged, if_pos h]

theorem arranged_of_lt {a b : α} (h : key b < key a) : Arranged key R a b ↔ R b a := by
  rw [Arranged, if_neg (not_le.mpr h)]

/-- Records with different keys are in the relation wherever they stand. -/
theorem arranged_mem {l : List α} (hl : l.Pairwise (Arranged key R)) {a b : α}
    (ha : a ∈ l) (hb : b ∈ l) (hlt : key a < key b) : R a b := by
  have hboth : l.Pairwise fun x y => Arranged key R x y ∨ Arranged key R y x :=
    hl.imp fun h => .inl h
  have hsymm : Std.Symm fun x y => Arranged key R x y ∨ Arranged key R y x := ⟨fun _ _ h => h.symm⟩
  rcases hboth.forall ha hb fun heq => hlt.ne (congrArg key heq) with h | h
  · exact (arranged_of_le hlt.le).mp h
  · exact (arranged_of_lt hlt).mp h

/-- Sorting keeps what a filter leaves in order. -/
theorem insertionSort_filter [DecidableRel R] [Std.Total R] [IsTrans α R] (p : α → Bool)
    (l : List α) : (l.filter p).insertionSort R = (l.insertionSort R).filter p := by
  have hsub : ((l.filter p).insertionSort R).Sublist (l.insertionSort R) := by
    induction l with
    | nil => exact .slnil
    | cons a l ih =>
      cases ha : p a with
      | true =>
        rw [filter_cons_of_pos ha]
        exact ih.orderedInsert_sublist a (pairwise_insertionSort R l)
      | false =>
        rw [filter_cons_of_neg (Bool.eq_false_iff.mp ha)]
        exact ih.trans (sublist_orderedInsert ..)
  have hkept : ((l.filter p).insertionSort R).filter p = (l.filter p).insertionSort R :=
    filter_eq_self.mpr fun a ha =>
      (mem_filter.mp ((mem_insertionSort R).mp ha)).2
  refine (hkept ▸ hsub.filter p).eq_of_length ?_
  rw [(perm_insertionSort R _).length_eq, ((perm_insertionSort R l).filter p).length_eq]

include hr in
theorem pairwise_orderedInsert_iff {a : α} {l : List α} (hl : l.Pairwise fun x y => key x ≤ key y) :
    (l.orderedInsert r a).Pairwise R ↔ (∀ b ∈ l, Arranged key R a b) ∧ l.Pairwise R := by
  induction l with
  | nil => simp
  | cons b l ih =>
    obtain ⟨hb, hl⟩ := pairwise_cons.mp hl
    rw [List.orderedInsert]
    by_cases hab : r a b
    · -- the place of `a` is in front of everything
      have hall : ∀ c ∈ b :: l, key a ≤ key c := by
        intro c hc
        rcases mem_cons.mp hc with rfl | hc
        · exact (hr a c).mp hab
        · exact ((hr a b).mp hab).trans (hb c hc)
      rw [if_pos hab, pairwise_cons]
      refine and_congr_left fun _ => forall₂_congr fun c hc => ?_
      exact (arranged_of_le (hall c hc)).symm
    · have hlt : key b < key a := not_le.mp fun h => hab ((hr a b).mpr h)
      rw [if_neg hab, pairwise_cons, pairwise_cons, ih hl, forall_mem_cons, arranged_of_lt hlt]
      simp only [mem_orderedInsert, forall_eq_or_imp]
      tauto

include hr in
/-- **STABLE**: along a sorted list a relation holds of the pairs of the list, in the order
    of the keys. -/
theorem pairwise_insertionSort_iff {l : List α} :
    (l.insertionSort r).Pairwise R ↔ l.Pairwise (Arranged key R) := by
  have htotal : Std.Total r := ⟨fun a b => by
      rw [hr, hr]
      exact le_total _ _⟩
  have htrans : IsTrans α r := ⟨fun a b c hab hbc => by
      rw [hr] at hab hbc ⊢
      exact hab.trans hbc⟩
  induction l with
  | nil => simp
  | cons a l ih =>
    have hsorted : (l.insertionSort r).Pairwise fun x y => key x ≤ key y :=
      (pairwise_insertionSort r l).imp fun h => (hr _ _).mp h
    rw [insertionSort_cons, pairwise_orderedInsert_iff hr hsorted, pairwise_cons]
    refine and_congr ?_ ih
    simp only [mem_insertionSort]

/-- A list with its positions: the first of two has the smaller one. -/
theorem pairwise_zipIdx_iff {S : α × Nat → α × Nat → Prop}
    (hS : ∀ x y : α × Nat, x.2 < y.2 → (S x y ↔ R x.1 y.1)) {l : List α} {start : Nat} :
    (l.zipIdx start).Pairwise S ↔ l.Pairwise R := by
  induction l generalizing start with
  | nil => simp
  | cons a l ih =>
    rw [zipIdx_cons, pairwise_cons, pairwise_cons, ih]
    refine and_congr_left fun _ => ⟨fun h b hb => ?_, fun h p hp => ?_⟩
    · obtain ⟨i, hi, rfl⟩ := getElem_of_mem hb
      have hmem : (l[i], start + 1 + i) ∈ l.zipIdx (start + 1) := by
        rw [mk_add_mem_zipIdx_iff_getElem?]
        exact List.getElem?_eq_getElem hi
      exact (hS (a, start) _ (show start < start + 1 + i by omega)).mp (h _ hmem)
    · have hlt : start < p.2 := le_snd_of_mem_zipIdx hp
      exact (hS (a, start) p hlt).mpr (h p.1 (fst_mem_of_mem_zipIdx hp))

/-- Sorting by the key and then by the position: the pairs of the list, in the order of the keys. -/
theorem pairwise_sort_zipIdx_iff {rank : α → Nat} {s : α × Nat → α × Nat → Prop} [DecidableRel s]
    (hs : ∀ x y, s x y ↔ toLex (rank x.1, x.2) ≤ toLex (rank y.1, y.2)) {l : List α} :
    ((l.zipIdx.insertionSort s).map Prod.fst).Pairwise R ↔ l.Pairwise (Arranged rank R) := by
  let place (x : α × Nat) : ℕ ×ₗ ℕ := toLex (rank x.1, x.2)
  have hplace : ∀ x y, s x y ↔ place x ≤ place y := hs
  rw [pairwise_map, pairwise_insertionSort_iff hplace]
  refine pairwise_zipIdx_iff fun x y hlt => ?_
  have hkey : place x ≤ place y ↔ rank x.1 ≤ rank y.1 := by
    rw [Prod.Lex.toLex_le_toLex]
    omega
  rw [Arranged, Arranged, if_congr hkey rfl rfl]

end StableSort

namespace MergeDiff

open List

variable {α κ : Type} [LinearOrder κ]

/-- One finding: on the left only, on the right only, or on both sides. -/
inductive Finding (α : Type) where
  | left (a : α)
  | right (b : α)
  | both (a b : α)
  deriving DecidableEq, Repr

/-- The walk over the right list up to the place of `a`; `rest` walks on from there. -/
def mergeAt (key : α → κ) (a : α) (rest : List α → List (Finding α)) : List α → List (Finding α)
  | [] => .left a :: rest []
  | b :: r =>
    if key a < key b then .left a :: rest (b :: r)
    else if key b < key a then .right b :: mergeAt key a rest r
    else .both a b :: rest r

def mergeDiff (key : α → κ) : List α → List α → List (Finding α)
  | [], r => r.map .right
  | a :: l, r => mergeAt key a (mergeDiff key l) r

/-- What becomes of a record on the left. -/
def findingOf (key : α → κ) (r : List α) (a : α) : Finding α :=
  match r.find? fun b => key b = key a with
  | none => .left a
  | some b => .both a b

/-- The records on the right that have no partner. -/
def unmatched (key : α → κ) (l r : List α) : List α :=
  r.filter fun b => l.all fun a => key a ≠ key b

variable {key : α → κ}

theorem findingOf_skip {a b : α} {r : List α} (h : key b ≠ key a) :
    findingOf key (b :: r) a = findingOf key r a := by
  rw [findingOf, findingOf, List.find?_cons_of_neg (by simpa using h)]

theorem findingOf_none {a : α} {r : List α} (h : ∀ b ∈ r, key b ≠ key a) :
    findingOf key r a = .left a := by
  rw [findingOf, List.find?_eq_none.mpr fun b hb => by simpa using h b hb]

theorem unmatched_skip {a : α} {l r : List α} (h : ∀ b ∈ r, key a ≠ key b) :
    unmatched key (a :: l) r = unmatched key l r := by
  refine filter_congr fun b hb => ?_
  rw [all_cons, decide_eq_true (h b hb), Bool.true_and]

/-- **MERGE DIFF**: the walk finds what a search for every record's partner finds. -/
theorem mergeDiff_perm : ∀ {l r : List α}, l.Pairwise (fun x y => key x < key y) →
    r.Pairwise (fun x y => key x < key y) →
    (mergeDiff key l r).Perm (l.map (findingOf key r) ++ (unmatched key l r).map .right) := by
  intro l
  induction l with
  | nil =>
    intro r _ _
    have hall : unmatched key [] r = r := filter_eq_self.mpr fun _ _ => rfl
    rw [mergeDiff, map_nil, nil_append, hall]
  | cons a l ih =>
    intro r hl
    obtain ⟨hbef, hl⟩ := pairwise_cons.mp hl
    show r.Pairwise _ → (mergeAt key a (mergeDiff key l) r).Perm _
    induction r with
    | nil =>
      intro hr
      exact (ih hl hr).cons _
    | cons b r ihr =>
      intro hr
      have hr' := pairwise_cons.mp hr
      rw [mergeAt]
      split
      · rename_i hlt
        -- the left record is before everything on the right
        have hafter : ∀ c ∈ b :: r, key a < key c := by
          intro c hc
          rcases mem_cons.mp hc with rfl | hc
          · exact hlt
          · exact hlt.trans (hr'.1 c hc)
        rw [map_cons, findingOf_none fun c hc => (hafter c hc).ne',
          unmatched_skip fun c hc => (hafter c hc).ne]
        exact (ih hl hr).cons _
      split
      · rename_i hlt
        -- the right record is before everything on the left
        have hafter : ∀ c ∈ a :: l, key b < key c := by
          intro c hc
          rcases mem_cons.mp hc with rfl | hc
          · exact hlt
          · exact hlt.trans (hbef c hc)
        have hmap : (a :: l).map (findingOf key (b :: r)) = (a :: l).map (findingOf key r) :=
          map_congr_left fun c hc => findingOf_skip (hafter c hc).ne
        have hunmatched : unmatched key (a :: l) (b :: r) = b :: unmatched key (a :: l) r := by
          refine filter_cons_of_pos ?_
          rw [all_eq_true]
          exact fun c hc => decide_eq_true (hafter c hc).ne'
        rw [hmap, hunmatched, map_cons]
        exact ((ihr hr'.2).cons _).trans perm_middle.symm
      · rename_i hnlt hnlt'
        have heq : key b = key a := le_antisymm (not_lt.mp hnlt) (not_lt.mp hnlt')
        have hfirst : findingOf key (b :: r) a = .both a b := by
          rw [findingOf, List.find?_cons_of_pos (by simpa using heq)]
        have hmap : l.map (findingOf key (b :: r)) = l.map (findingOf key r) :=
          map_congr_left fun c hc =>
            findingOf_skip (heq ▸ hbef c hc).ne
        have hunmatched : unmatched key (a :: l) (b :: r) = unmatched key l r := by
          rw [unmatched, filter_cons_of_neg (by simp [heq])]
          exact unmatched_skip fun c hc => (heq ▸ hr'.1 c hc).ne
        rw [map_cons, hfirst, hmap, hunmatched]
        exact (ih hl hr'.2).cons _

end MergeDiff

namespace Worklist

open Relation List

variable {α : Type}

/-- The loop without fuel: it ends, with the answer. -/
inductive Ends (next : α → List α) (goal : α → Bool) : List α → List α → Bool → Prop
  | empty (seen : List α) : Ends next goal [] seen false
  | found {x : α} {frontier seen : List α} (hgoal : goal x = true) :
      Ends next goal (x :: frontier) seen true
  | skip {x : α} {frontier seen : List α} {b : Bool} (hgoal : goal x = false) (hseen : x ∈ seen)
      (rest : Ends next goal frontier seen b) : Ends next goal (x :: frontier) seen b
  | expand {x : α} {frontier seen : List α} {b : Bool} (hgoal : goal x = false)
      (hseen : x ∉ seen) (rest : Ends next goal (frontier ++ next x) (x :: seen) b) :
      Ends next goal (x :: frontier) seen b

variable {next : α → List α} {goal : α → Bool}

section Ends

variable {frontier seen : List α} {b : Bool}

/-- What is found can be reached. -/
theorem Ends.sound (h : Ends next goal frontier seen b) (hb : b = true) :
    ∃ x ∈ frontier, ∃ y, ReflTransGen (fun a b => b ∈ next a) x y ∧ goal y = true := by
  induction h with
  | empty => cases hb
  | @found x _ _ hgoal => exact ⟨x, mem_cons_self, x, .refl, hgoal⟩
  | skip _ _ _ ih =>
    obtain ⟨z, hz, y, hreach, hgoal⟩ := ih hb
    exact ⟨z, mem_cons_of_mem _ hz, y, hreach, hgoal⟩
  | @expand x _ _ _ _ _ _ ih =>
    obtain ⟨z, hz, y, hreach, hgoal⟩ := ih hb
    rcases mem_append.mp hz with hz | hz
    · exact ⟨z, mem_cons_of_mem _ hz, y, hreach, hgoal⟩
    · exact ⟨x, mem_cons_self, y, .head hz hreach, hgoal⟩

/-- A search that finds nothing has expanded all that can be reached. -/
theorem Ends.complete (h : Ends next goal frontier seen b) (hb : b = false)
    (hgoal : ∀ x ∈ seen, goal x = false) (hnext : ∀ x ∈ seen, ∀ y ∈ next x, y ∈ seen ∨ y ∈ frontier)
    {x y : α} (hx : x ∈ seen ∨ x ∈ frontier) (hreach : ReflTransGen (fun a b => b ∈ next a) x y) :
    goal y = false := by
  induction h with
  | empty seen =>
    -- the expanded nodes are closed under `next`
    refine hgoal y ?_
    induction hreach with
    | refl => exact hx.resolve_right not_mem_nil
    | tail _ hstep ih => exact (hnext _ ih _ hstep).resolve_right not_mem_nil
  | found => cases hb
  | @skip z frontier seen _ _ hseen _ ih =>
    have hmove : ∀ {w}, w ∈ seen ∨ w ∈ z :: frontier → w ∈ seen ∨ w ∈ frontier := by
      rintro w (hw | hw)
      · exact .inl hw
      rcases mem_cons.mp hw with rfl | hw
      · exact .inl hseen
      · exact .inr hw
    exact ih hb hgoal (fun a ha b hb => hmove (hnext a ha b hb)) (hmove hx)
  | @expand z frontier seen _ hz _ _ ih =>
    have hmove : ∀ {w}, w ∈ seen ∨ w ∈ z :: frontier →
        w ∈ z :: seen ∨ w ∈ frontier ++ next z := by
      rintro w (hw | hw)
      · exact .inl (mem_cons_of_mem _ hw)
      rcases mem_cons.mp hw with rfl | hw
      · exact .inl mem_cons_self
      · exact .inr (mem_append_left _ hw)
    refine ih hb (forall_mem_cons.mpr ⟨hz, hgoal⟩) (fun a ha b hb => ?_) (hmove hx)
    rcases mem_cons.mp ha with rfl | ha
    · exact .inr (mem_append_right _ hb)
    · exact hmove (hnext a ha b hb)

end Ends

variable [DecidableEq α]

def search (next : α → List α) (goal : α → Bool) : Nat → List α → List α → Bool
  | 0, _, _ => false
  | _ + 1, [], _ => false
  | fuel + 1, x :: frontier, seen =>
    if goal x then true
    else if x ∈ seen then search next goal fuel frontier seen
    else search next goal fuel (frontier ++ next x) (x :: seen)

/-- The edges out of the nodes that were not expanded. -/
def edges (next : α → List α) (nodes seen : List α) : Nat :=
  ((nodes.filter fun x => x ∉ seen).map fun x => (next x).length).sum

variable {nodes : List α}

theorem edges_cons_le (next : α → List α) (x : α) (nodes seen : List α) :
    edges next nodes (x :: seen) ≤ edges next nodes seen := by
  refine List.Sublist.sum_le_sum (List.Sublist.map _ ?_) fun _ _ => Nat.zero_le _
  refine monotone_filter_right _ fun y hy => ?_
  simp only [mem_cons, not_or, decide_eq_true_eq] at hy ⊢
  exact hy.2

/-- Expanding a node takes its edges away. -/
theorem edges_expand {x : α} {seen : List α} (hx : x ∉ seen) (hnodes : next x ≠ [] → x ∈ nodes) :
    edges next nodes (x :: seen) + (next x).length ≤ edges next nodes seen := by
  by_cases hedges : next x = []
  · rw [hedges]
    exact edges_cons_le next x nodes seen
  replace hnodes := hnodes hedges
  induction nodes with
  | nil => exact absurd hnodes not_mem_nil
  | cons y ys ih =>
    have hless := edges_cons_le next x ys seen
    rw [edges, edges] at hless ih ⊢
    by_cases hxy : y = x
    · subst hxy
      rw [filter_cons_of_neg (by simp),
        filter_cons_of_pos (by simpa using hx), map_cons,
        sum_cons]
      omega
    · have hrest := ih ((mem_cons.mp hnodes).resolve_left (Ne.symm hxy))
      by_cases hseen : y ∈ seen
      · rw [filter_cons_of_neg (by simp [hseen]), filter_cons_of_neg (by simp [hseen])]
        exact hrest
      · rw [filter_cons_of_pos (by simp [hseen, hxy]),
          filter_cons_of_pos (by simpa using hseen), map_cons,
          map_cons, sum_cons, sum_cons]
        omega

/-- **THE LOOP ENDS**, with fuel for the frontier and every edge. -/
theorem search_ends (hnodes : ∀ x, next x ≠ [] → x ∈ nodes) {fuel : Nat} {frontier seen : List α}
    (hfuel : frontier.length + edges next nodes seen ≤ fuel) :
    Ends next goal frontier seen (search next goal fuel frontier seen) := by
  fun_induction search next goal fuel frontier seen with
  | case1 frontier seen =>
    obtain rfl : frontier = [] := eq_nil_of_length_eq_zero (by omega)
    exact .empty seen
  | case2 => exact .empty _
  | case3 _ _ _ _ hgoal => exact .found hgoal
  | case4 _ _ _ _ hgoal hseen ih =>
    rw [length_cons] at hfuel
    exact .skip (Bool.eq_false_iff.mpr hgoal) hseen (ih (by omega))
  | case5 _ x _ _ hgoal hseen ih =>
    have hedges := edges_expand hseen (hnodes x)
    rw [length_cons] at hfuel
    exact .expand (Bool.eq_false_iff.mpr hgoal) hseen (ih (by rw [length_append]; omega))

/-- **SEARCH IS REACHABILITY.** -/
theorem search_iff (hnodes : ∀ x, next x ≠ [] → x ∈ nodes) (frontier : List α) :
    search next goal (frontier.length + edges next nodes []) frontier [] = true
      ↔ ∃ x ∈ frontier, ∃ y, ReflTransGen (fun a b => b ∈ next a) x y ∧ goal y = true := by
  have hends : Ends next goal frontier [] _ :=
    search_ends hnodes (le_refl (frontier.length + edges next nodes []))
  constructor
  · exact hends.sound
  · rintro ⟨x, hx, y, hreach, hgoal⟩
    by_contra hfound
    have hnone := hends.complete (Bool.eq_false_iff.mpr hfound) (fun _ h => absurd h not_mem_nil)
      (fun _ h => absurd h not_mem_nil) (.inr hx) hreach
    exact nomatch hgoal.symm.trans hnone

end Worklist
