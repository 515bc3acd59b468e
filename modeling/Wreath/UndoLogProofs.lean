import Mathlib.Data.List.Basic
import Mathlib.Data.List.Nodup

/-! # Undo logs — what a log of runs and undos has to look like

Work is done in pieces that are undone newest first when one fails. `enter` reads a log of
runs, failures and undos with a pair of books: the pieces that stand, oldest first, and those
that are owed an attempt. A log that can be read to its end has the three properties one
would state of it (`stands`, `owed_first`, `undone_once`). -/

namespace UndoLog

open List Option

variable {α : Type} [DecidableEq α]

inductive Outcome where
  | ran
  | failed
  | none
  deriving Repr, DecidableEq

inductive Entry (α : Type) where
  | runs (n : α)
  | done (n : α)
  | fails
  | attempt (n : α) (outcome : Outcome)
  deriving Repr, DecidableEq

structure Books (α : Type) where
  standing : List α
  owed : List α
  deriving Repr, DecidableEq

/-- The pieces that stand after an entry. -/
def stand (l : List α) : Entry α → List α
  | .done n => l ++ [n]
  | .attempt n outcome => if outcome = .failed then l else l.erase n
  | _ => l

/-- The pieces done and not undone, oldest first. -/
def standing (log : List (Entry α)) : List α := log.foldl stand []

def enter (b : Books α) (e : Entry α) : Option (Books α) :=
  match e, b.owed with
  | .runs n, [] => if n ∈ b.standing then none else some b
  | .done n, [] =>
    if n ∈ b.standing then none else some ⟨stand b.standing e, []⟩
  | .fails, [] => some ⟨b.standing, b.standing.reverse⟩
  | .attempt n _, m :: rest =>
    if m = n then some ⟨stand b.standing e, rest⟩ else none
  | _, _ => none

/-- Read a log from given books. -/
def read (b : Books α) : List (Entry α) → Option (Books α)
  | [] => some b
  | e :: log => (enter b e).bind fun b' => read b' log

def Lawful (log : List (Entry α)) : Prop := (read ⟨[], []⟩ log).isSome = true

instance (log : List (Entry α)) : Decidable (Lawful log) := inferInstanceAs (Decidable (_ = true))

variable {b b' : Books α} {e : Entry α} {log log' : List (Entry α)} {n : α}

/-- **EVERYTHING AN ENTRY CAN BE**, and the books after it. -/
theorem enter_cases (h : enter b e = some b') :
    (∃ n, e = .runs n ∧ b.owed = [] ∧ n ∉ b.standing ∧ b' = b) ∨
    (∃ n, e = .done n ∧ b.owed = [] ∧ n ∉ b.standing ∧ b' = ⟨b.standing ++ [n], []⟩) ∨
    (e = .fails ∧ b.owed = [] ∧ b' = ⟨b.standing, b.standing.reverse⟩) ∨
    ∃ n outcome rest, e = .attempt n outcome ∧ b.owed = n :: rest ∧
      b' = ⟨stand b.standing e, rest⟩ := by
  obtain ⟨st, owed⟩ := b
  cases owed with
  | nil =>
    cases e with
    | runs n =>
      simp only [enter, ite_none_left_eq_some] at h
      exact .inl ⟨n, rfl, rfl, h.1, (some.inj h.2).symm⟩
    | done n =>
      simp only [enter, ite_none_left_eq_some] at h
      exact .inr (.inl ⟨n, rfl, rfl, h.1, (some.inj h.2).symm⟩)
    | fails => exact .inr (.inr (.inl ⟨rfl, rfl, (some.inj h).symm⟩))
    | attempt n outcome => cases h
  | cons m rest =>
    cases e with
    | runs | done | fails => cases h
    | attempt n outcome =>
      simp only [enter, ite_none_right_eq_some] at h
      obtain ⟨rfl, hb'⟩ := h
      exact .inr (.inr (.inr ⟨m, outcome, rest, rfl, rfl, (some.inj hb').symm⟩))

theorem read_append : read b (log ++ log') = (read b log).bind fun b' => read b' log' := by
  induction log generalizing b with
  | nil => rfl
  | cons e log ih =>
    rw [cons_append, read, read]
    cases enter b e with
    | none => rfl
    | some b₁ => exact ih

/-- A log that is read past an entry is read up to it. -/
theorem read_split (h : (read b (log ++ e :: log')).isSome = true) :
    ∃ b₁ b₂, read b log = some b₁ ∧ enter b₁ e = some b₂ ∧ (read b₂ log').isSome = true := by
  rw [read_append] at h
  obtain ⟨b₃, h⟩ := isSome_iff_exists.mp h
  obtain ⟨b₁, h₁, h⟩ := bind_eq_some_iff.mp h
  obtain ⟨b₂, h₂, h⟩ := bind_eq_some_iff.mp h
  exact ⟨b₁, b₂, h₁, h₂, by rw [h]; rfl⟩

theorem enter_standing (h : enter b e = some b') : b'.standing = stand b.standing e := by
  rcases enter_cases h with ⟨n, rfl, -, -, rfl⟩ | ⟨n, rfl, -, -, rfl⟩ |
    ⟨rfl, -, rfl⟩ | ⟨n, outcome, rest, rfl, -, rfl⟩
  · rfl
  · rfl
  · rfl
  · rfl

theorem read_standing (h : read b log = some b') : b'.standing = log.foldl stand b.standing := by
  induction log generalizing b with
  | nil =>
    cases h
    rfl
  | cons e log ih =>
    obtain ⟨b₁, h₁, h⟩ := bind_eq_some_iff.mp h
    rw [ih h, enter_standing h₁, foldl_cons]

/-! ## A piece that stands -/

/-- A piece stands until an attempt to undo it succeeds. -/
theorem enter_stands (h : enter b e = some b') (hn : n ∈ b.standing)
    (he : ∀ outcome, e = .attempt n outcome → outcome = .failed) : n ∈ b'.standing := by
  rcases enter_cases h with ⟨m, rfl, -, -, rfl⟩ | ⟨m, rfl, -, -, rfl⟩ |
    ⟨rfl, -, rfl⟩ | ⟨m, outcome, rest, rfl, -, rfl⟩
  · exact hn
  · exact mem_append_left _ hn
  · exact hn
  · rw [stand]
    split
    · exact hn
    · rename_i hfail
      have hne : n ≠ m := by
        rintro rfl
        exact hfail (he outcome rfl)
      exact (mem_erase_of_ne hne).mpr hn

theorem read_stands (h : read b log = some b') (hn : n ∈ b.standing)
    (hlog : ∀ outcome, Entry.attempt n outcome ∈ log → outcome = .failed) : n ∈ b'.standing := by
  induction log generalizing b with
  | nil =>
    cases h
    exact hn
  | cons e log ih =>
    obtain ⟨b₁, h₁, h⟩ := bind_eq_some_iff.mp h
    refine ih h (enter_stands h₁ hn ?_) ?_
    · rintro outcome rfl
      exact hlog outcome mem_cons_self
    · exact fun outcome hmem => hlog outcome (mem_cons_of_mem _ hmem)

variable {mid : List (Entry α)}

/-- **WHAT IS DONE DOES NOT RUN** before it is undone. -/
theorem stands (h : Lawful (log ++ .done n :: (mid ++ .runs n :: log'))) :
    ∃ outcome, outcome ≠ .failed ∧ Entry.attempt n outcome ∈ mid := by
  obtain ⟨b₁, b₂, -, h₂, h⟩ := read_split h
  obtain ⟨b₃, b₄, h₃, h₄, -⟩ := read_split h
  by_contra hnone
  have hn : n ∈ b₂.standing := by
    rw [enter_standing h₂, stand]
    exact mem_append_right _ (mem_singleton_self n)
  have hstill := read_stands h₃ hn fun outcome hmem => by
    by_contra hfail
    exact hnone ⟨outcome, hfail, hmem⟩
  rcases enter_cases h₄ with ⟨m, he, -, hm, -⟩ | ⟨m, he, -⟩ | ⟨he, -⟩ | ⟨m, outcome, rest, he, -⟩
  · obtain rfl := Entry.runs.inj he
    exact hm hstill
  · cases he
  · cases he
  · cases he

/-! ## What is owed -/

def Entry.attempted : Entry α → Option α
  | .attempt n _ => some n
  | _ => none

/-- What is owed is attempted next, in its order. -/
theorem read_owed (h : read b log = some b') (hb' : b'.owed = []) :
    ∃ first rest, log = first ++ rest ∧ first.map Entry.attempted = b.owed.map some := by
  induction log generalizing b with
  | nil =>
    cases h
    exact ⟨[], [], rfl, by rw [hb']; rfl⟩
  | cons e log ih =>
    obtain ⟨b₁, h₁, h⟩ := bind_eq_some_iff.mp h
    rcases enter_cases h₁ with ⟨m, rfl, howed, -⟩ | ⟨m, rfl, howed, -⟩ |
      ⟨rfl, howed, -⟩ | ⟨m, outcome, rest, rfl, howed, rfl⟩
    · exact ⟨[], _, rfl, by rw [howed]; rfl⟩
    · exact ⟨[], _, rfl, by rw [howed]; rfl⟩
    · exact ⟨[], _, rfl, by rw [howed]; rfl⟩
    · obtain ⟨first, later, rfl, hfirst⟩ := ih h
      refine ⟨_ :: first, later, rfl, ?_⟩
      rw [howed, map_cons, map_cons, hfirst]
      rfl

/-- **A FAILURE IS UNWOUND FIRST**: before anything runs again, what stood at the failure is
    attempted, newest first. -/
theorem owed_first (h : Lawful (log ++ .fails :: (mid ++ .runs n :: log'))) :
    ∃ first rest, mid = first ++ rest ∧
      first.map Entry.attempted = (standing log).reverse.map some := by
  obtain ⟨b₁, b₂, h₁, h₂, h⟩ := read_split h
  obtain ⟨b₃, b₄, h₃, h₄, -⟩ := read_split h
  have howed : b₃.owed = [] := by
    rcases enter_cases h₄ with ⟨m, -, howed, -⟩ | ⟨m, he, -⟩ | ⟨he, -⟩ | ⟨m, outcome, rest, he, -⟩
    · exact howed
    · cases he
    · cases he
    · cases he
  have hb₂ : b₂.owed = (standing log).reverse := by
    rcases enter_cases h₂ with ⟨m, he, -⟩ | ⟨m, he, -⟩ | ⟨-, -, rfl⟩ | ⟨m, outcome, rest, he, -⟩
    · cases he
    · cases he
    · exact congrArg List.reverse (read_standing h₁)
    · cases he
  exact hb₂ ▸ read_owed h₃ howed

/-! ## Once for each time it was done -/

/-- No piece stands twice, and an attempt is owed to what stands, once. -/
structure Books.Kept (b : Books α) : Prop where
  standing : b.standing.Nodup
  owed : b.owed.Nodup
  sub : b.owed ⊆ b.standing

theorem Books.Kept.enter (hb : b.Kept) (h : enter b e = some b') : b'.Kept := by
  rcases enter_cases h with ⟨m, rfl, -, -, rfl⟩ | ⟨m, rfl, -, hm, rfl⟩ |
    ⟨rfl, -, rfl⟩ | ⟨m, outcome, rest, rfl, howed, rfl⟩
  · exact hb
  · refine ⟨?_, nodup_nil, nil_subset _⟩
    exact nodup_append.mpr ⟨hb.standing, nodup_singleton m,
      fun x hx y hy hxy => hm (mem_singleton.mp hy ▸ hxy ▸ hx)⟩
  · exact ⟨hb.standing, nodup_reverse.mpr hb.standing, reverse_subset.mpr (List.Subset.refl _)⟩
  · have hnd := hb.owed
    have hsub := hb.sub
    rw [howed] at hnd hsub
    obtain ⟨hm, hrest⟩ := nodup_cons.mp hnd
    have hrestSub : rest ⊆ b.standing := fun x hx => hsub (mem_cons_of_mem _ hx)
    rw [stand]
    split
    · exact ⟨hb.standing, hrest, hrestSub⟩
    · refine ⟨hb.standing.erase m, hrest, fun x hx => ?_⟩
      exact (mem_erase_of_ne (ne_of_mem_of_not_mem hx hm)).mpr (hrestSub hx)

/-- What does not stand is not attempted until it is done again. -/
theorem read_absent (hb : b.Kept) (hn : n ∉ b.standing)
    (h : read b log = some b') (hlog : Entry.done n ∉ log) : b'.Kept ∧ n ∉ b'.standing := by
  induction log generalizing b with
  | nil =>
    cases h
    exact ⟨hb, hn⟩
  | cons e log ih =>
    obtain ⟨b₁, h₁, h⟩ := bind_eq_some_iff.mp h
    refine ih (hb.enter h₁) ?_ h fun hmem => hlog (mem_cons_of_mem _ hmem)
    rw [enter_standing h₁]
    cases e with
    | runs | fails => exact hn
    | done m =>
      have hne : n ≠ m := by
        rintro rfl
        exact hlog mem_cons_self
      intro hmem
      rcases mem_append.mp hmem with hold | hnew
      · exact hn hold
      · exact hne (mem_singleton.mp hnew)
    | attempt m outcome =>
      rw [stand]
      split
      · exact hn
      · exact fun hmem => hn (mem_of_mem_erase hmem)

theorem read_kept (hb : b.Kept) (h : read b log = some b') : b'.Kept := by
  induction log generalizing b with
  | nil =>
    cases h
    exact hb
  | cons e log ih =>
    obtain ⟨b₁, h₁, h⟩ := bind_eq_some_iff.mp h
    exact ih (hb.enter h₁) h

/-- **UNDONE ONCE**: after an attempt that was not in vain another one comes only when the
    piece was done again. -/
theorem undone_once {outcome outcome' : Outcome} (houtcome : outcome ≠ .failed)
    (h : Lawful (log ++ .attempt n outcome :: (mid ++ .attempt n outcome' :: log'))) :
    Entry.done n ∈ mid := by
  obtain ⟨b₁, b₂, h₁, h₂, h⟩ := read_split h
  obtain ⟨b₃, b₄, h₃, h₄, -⟩ := read_split h
  by_contra hnever
  have hnil : Books.Kept (⟨[], []⟩ : Books α) := ⟨nodup_nil, nodup_nil, nil_subset _⟩
  have hkept := read_kept hnil h₁
  have habsent : n ∉ b₂.standing := by
    rw [enter_standing h₂, stand, if_neg houtcome]
    exact fun hmem => ((List.Nodup.mem_erase_iff hkept.standing).mp hmem).1 rfl
  obtain ⟨hkept₃, habsent₃⟩ := read_absent (hkept.enter h₂) habsent h₃ hnever
  rcases enter_cases h₄ with ⟨m, he, -⟩ | ⟨m, he, -⟩ | ⟨he, -⟩ | ⟨m, o, rest, he, howed, -⟩
  · cases he
  · cases he
  · cases he
  · obtain ⟨rfl, -⟩ := Entry.attempt.inj he
    exact habsent₃ (hkept₃.sub (howed ▸ mem_cons_self))

end UndoLog
