import Mathlib.Data.Multiset.Basic
import Mathlib.Logic.Relation

/-! # A gate — one at a time where it matters, many otherwise

Clients enter a gate and leave it; a server answers those inside in turn, each time with its
status, and answers are `queued` before they reach the gate. A client that is *marked* has to
be inside alone, and so has everybody while the status is not `idle`. What a client really
does to the server is `control`: `Barred` holds as long as the marks are right and those who
leave take their barrier with them. -/

namespace Gate

open List Bool

variable {α σ : Type}

@[ext]
structure State (α σ : Type) where
  inside : Multiset α
  barrier : Bool
  status : σ
  queued : List σ

/-- The last status the server gave. -/
def State.last (g : State α σ) : σ := g.queued.getLast?.getD g.status

section Turns

variable (control marked : α → Bool) (idle : σ)

inductive Turn : State α σ → State α σ → Prop
  | enter (g : State α σ) (s : α) :
      (g.barrier = true ∨ g.status ≠ idle ∨ marked s = true → g.inside = 0) →
      control s = marked s →
      Turn g { g with inside := s ::ₘ g.inside, barrier := g.barrier || marked s }
  /-- one leaves that gets no answer -/
  | leave (g : State α σ) (s : α) (t : Multiset α) :
      g.inside = s ::ₘ t → g.queued.length ≤ t.card →
      Turn g { g with inside := t, barrier := g.barrier && !marked s }
  /-- the server answers one that is inside -/
  | answer (g : State α σ) (status : σ) :
      g.queued.length < g.inside.card →
      (g.last = idle → (∀ s ∈ g.inside, control s = false) → status = idle) →
      Turn g { g with queued := g.queued ++ [status] }
  /-- and the answer lets it out -/
  | complete (g : State α σ) (s : α) (t : Multiset α) (status : σ)
      (rest : List σ) :
      g.inside = s ::ₘ t → g.queued = status :: rest →
      Turn g ⟨t, g.barrier && !marked s, status, rest⟩

abbrev Turns : State α σ → State α σ → Prop := Relation.ReflTransGen (Turn control marked idle)

/-- **BARRED**: the barrier stands while a marked client is inside, and then, or while the
    status is not idle, nobody else is. -/
structure Barred (g : State α σ) : Prop where
  barrier : g.barrier = true ↔ ∃ s ∈ g.inside, marked s = true
  alone : g.barrier = true ∨ g.status ≠ idle → g.inside.card ≤ 1
  idle : g.barrier = false → g.status = idle → ∀ b ∈ g.queued, b = idle
  queued : g.queued.length ≤ g.inside.card
  right : ∀ s ∈ g.inside, control s = marked s

end Turns

section Barred

variable {control marked : α → Bool} {idle : σ} {g g' : State α σ}

theorem barred_empty (status : σ) : Barred control marked idle ⟨0, false, status, []⟩ :=
  ⟨⟨nofun, fun ⟨_, h, _⟩ => absurd h (Multiset.notMem_zero _)⟩,
    fun _ => Nat.zero_le _, fun _ _ => nofun, le_rfl,
    fun _ h => absurd h (Multiset.notMem_zero _)⟩

variable {t : Multiset α} {s : α}

section

variable (h : Barred control marked idle g)
include h

/-- Whoever is let out takes the barrier along. -/
theorem Barred.barrier_leave (hins : g.inside = s ::ₘ t) :
    (g.barrier && !marked s) = true ↔ ∃ u ∈ t, marked u = true := by
  have hbar := h.barrier
  rw [hins] at hbar
  cases hs : marked s with
  | true =>
    -- a marked one was alone
    have hcard := h.alone (.inl (hbar.mpr ⟨s, Multiset.mem_cons_self s t, hs⟩))
    rw [hins, Multiset.card_cons] at hcard
    obtain rfl : t = 0 := Multiset.card_eq_zero.mp (by omega)
    rw [Bool.not_true, Bool.and_false]
    exact ⟨nofun, fun ⟨_, hu, _⟩ => absurd hu (Multiset.notMem_zero _)⟩
  | false =>
    rw [Bool.not_false, Bool.and_true, hbar]
    constructor
    · rintro ⟨u, hu, hmark⟩
      rcases Multiset.mem_cons.mp hu with rfl | hu
      · exact nomatch hs.symm.trans hmark
      · exact ⟨u, hu, hmark⟩
    · rintro ⟨u, hu, hmark⟩
      exact ⟨u, Multiset.mem_cons_of_mem hu, hmark⟩

/-- While the barrier is down and the status idle, so is the server. -/
theorem Barred.last_idle (hbar : g.barrier = false) (hstat : g.status = idle) : g.last = idle := by
  rw [State.last]
  cases hlast : g.queued.getLast? with
  | none => exact hstat
  | some b => exact h.idle hbar hstat b (mem_of_getLast? hlast)

theorem Barred.enter (halone : g.barrier = true ∨ g.status ≠ idle ∨ marked s = true → g.inside = 0)
    (hright : control s = marked s) : Barred control marked idle { g with
      inside := s ::ₘ g.inside, barrier := g.barrier || marked s } := by
  refine ⟨?_, fun hbusy => ?_, fun hbar => ?_, ?_, fun u hu => ?_⟩
  · rw [or_eq_true, h.barrier]
    constructor
    · rintro (⟨u, hu, hmark⟩ | hmark)
      · exact ⟨u, Multiset.mem_cons_of_mem hu, hmark⟩
      · exact ⟨s, Multiset.mem_cons_self .., hmark⟩
    · rintro ⟨u, hu, hmark⟩
      rcases Multiset.mem_cons.mp hu with rfl | hu
      · exact .inr hmark
      · exact .inl ⟨u, hu, hmark⟩
  · rw [halone, Multiset.card_cons, Multiset.card_zero]
    rw [or_eq_true] at hbusy
    rcases hbusy with (hbar | hmark) | hstat
    · exact .inl hbar
    · exact .inr (.inr hmark)
    · exact .inr (.inl hstat)
  · exact h.idle (or_eq_false_iff.mp hbar).1
  · show g.queued.length ≤ (s ::ₘ g.inside).card
    have := h.queued
    rw [Multiset.card_cons]
    omega
  · rcases Multiset.mem_cons.mp hu with rfl | hu
    · exact hright
    · exact h.right u hu

theorem Barred.leave (hins : g.inside = s ::ₘ t) (hqueued : g.queued.length ≤ t.card) :
    Barred control marked idle { g with inside := t, barrier := g.barrier && !marked s } := by
  have hcard : g.inside.card = t.card + 1 := by
    rw [hins, Multiset.card_cons]
  refine ⟨h.barrier_leave hins, fun hbusy => ?_, fun hbar hstat => ?_,
    hqueued, fun u hu => h.right u (hins ▸ Multiset.mem_cons_of_mem hu)⟩
  · have halone := h.alone (hbusy.imp_left fun hb =>
      (and_eq_true_iff.mp hb).1)
    show t.card ≤ 1
    omega
  · cases hb : g.barrier with
    | false => exact h.idle hb hstat
    | true =>
      -- it was alone, so no answer is on its way
      have halone := h.alone (.inl hb)
      intro b hmem
      have hpos : 0 < g.queued.length := length_pos_of_mem hmem
      omega

theorem Barred.answer {status : σ} (hroom : g.queued.length < g.inside.card)
    (hstays : g.last = idle → (∀ s ∈ g.inside, control s = false) → status = idle) :
    Barred control marked idle { g with queued := g.queued ++ [status] } := by
  refine ⟨h.barrier, h.alone, fun hbar hstat b hb => ?_, ?_, h.right⟩
  · rcases mem_append.mp hb with hb | hb
    · exact h.idle hbar hstat b hb
    · rw [mem_singleton.mp hb]
      refine hstays (h.last_idle hbar hstat) fun s hs => ?_
      rw [h.right s hs, eq_false_iff]
      exact fun hmark => nomatch hbar.symm.trans (h.barrier.mpr ⟨s, hs, hmark⟩)
  · show (g.queued ++ [status]).length ≤ g.inside.card
    rw [length_append, length_singleton]
    omega

theorem Barred.complete {status : σ} {rest : List σ}
    (hins : g.inside = s ::ₘ t) (hqueued : g.queued = status :: rest) :
    Barred control marked idle ⟨t, g.barrier && !marked s, status, rest⟩ := by
  have hcard : g.inside.card = t.card + 1 := by
    rw [hins, Multiset.card_cons]
  have hlen : rest.length ≤ t.card := by
    have := h.queued
    rw [hqueued, length_cons] at this
    omega
  have hmem : status ∈ g.queued := hqueued ▸ mem_cons_self
  refine ⟨h.barrier_leave hins, fun hbusy => ?_, fun hbar hstat => ?_,
    hlen, fun u hu => h.right u (hins ▸ Multiset.mem_cons_of_mem hu)⟩
  · -- a status that is not idle comes from one that was alone
    have halone : g.inside.card ≤ 1 := by
      by_cases hopen : g.barrier = false ∧ g.status = idle
      · rcases hbusy with hb | hs
        · exact h.alone (.inl (and_eq_true_iff.mp hb).1)
        · exact absurd (h.idle hopen.1 hopen.2 status hmem) hs
      · refine h.alone ?_
        cases hb : g.barrier with
        | true => exact .inl rfl
        | false => exact .inr fun hs => hopen ⟨hb, hs⟩
    show t.card ≤ 1
    omega
  · intro b hb
    by_cases hopen : g.barrier = false ∧ g.status = idle
    · exact h.idle hopen.1 hopen.2 b (hqueued ▸ mem_cons_of_mem _ hb)
    · have halone := h.alone (by
        cases hb : g.barrier with
        | true => exact .inl rfl
        | false => exact .inr fun hs => hopen ⟨hb, hs⟩)
      have hpos : 0 < rest.length := length_pos_of_mem hb
      omega

/-- **ONE TURN** keeps the gate barred. -/
theorem Barred.turn (hturn : Turn control marked idle g g') : Barred control marked idle g' := by
  cases hturn with
  | enter s halone hright => exact h.enter halone hright
  | leave s t hins hqueued => exact h.leave hins hqueued
  | answer status hroom hstays => exact h.answer hroom hstays
  | complete s t status rest hins hqueued => exact h.complete hins hqueued

theorem Barred.turns (hturns : Turns control marked idle g g') : Barred control marked idle g' := by
  induction hturns with
  | refl => exact h
  | tail _ hturn ih => exact ih.turn hturn

/-- A client that controls the server is inside alone. -/
theorem Barred.control_alone (hs : s ∈ g.inside) (hctl : control s = true) : g.inside = {s} := by
  have hmark : marked s = true := (h.right s hs).symm.trans hctl
  have hcard := h.alone (.inl (h.barrier.mpr ⟨s, hs, hmark⟩))
  obtain ⟨t, ht⟩ := Multiset.exists_cons_of_mem hs
  rw [ht, Multiset.card_cons] at hcard
  have hnil : t = 0 := Multiset.card_eq_zero.mp (by omega)
  rw [ht, hnil]
  rfl

/-- And so is everybody while the server is not idle. -/
theorem Barred.busy_alone (hbusy : g.last ≠ idle ∨ g.status ≠ idle) : g.inside.card ≤ 1 := by
  refine h.alone ?_
  by_cases hstat : g.status = idle
  · left
    rw [← not_eq_false]
    intro hbar
    exact hbusy.elim (fun hl => hl (h.last_idle hbar hstat)) fun hs => hs hstat
  · exact .inr hstat

end

end Barred

end Gate
