import Wreath.StepSystemProofs

/-! # The singleton runner — `SingletonRunner._run` and `_release`

A round borrows a connection, tries for the lock, leads while `work()` runs, and hands the
connection back in a `finally`. Each await is one event: it returns or it raises, and which
handler sees the exception depends on where the round stands. The acquire is outside every
handler, so a pool that cannot give a connection ends the runner (`acquire_failure_ends`).
When it gives one and a failing release raises what the `finally` absorbs, every round gives
its connection back once and is followed by another attempt (`keeps_contending`). -/

namespace Singleton

open StepSystem

/-- `PostgresError` and `OSError`, another `Exception`, `CancelledError`, and the exceptions
    that end the process. -/
inductive Raised where
  | postgres
  | other
  | cancelled
  | quits
  deriving DecidableEq

/-- Whether `except Exception` sees it. -/
@[grind] def Raised.caught : Raised → Bool
  | .postgres | .other => true
  | .cancelled | .quits => false

/-- How a round leaves its `try`: into the sleep, by `return`, or with an exception. -/
inductive Exit where
  | falls
  | returned
  | raised (r : Raised)
  deriving DecidableEq

/-- The call the runner awaits; `dropping` is the close in an `except` branch, `closing` the
    one in `_release`. -/
inductive Phase where
  | acquiring
  | probing
  | working
  | dropping (out : Exit)
  | unlocking (out : Exit)
  | closing (out : Exit)
  | releasing (out : Exit)
  | sleeping
  | ended (out : Exit)
  deriving DecidableEq

/-- Beside the program's own fields: the acquires made, the connections they gave, and the
    connections `Database.release` was called with. -/
structure Runner where
  phase : Phase
  conn : Nat
  closed : Bool
  held : Bool
  stopped : Bool
  leadErrors : Nat
  releaseErrors : Nat
  attempts : Nat
  acquired : List Nat
  released : List Nat
  deriving DecidableEq

def Runner.fresh : Runner := ⟨.acquiring, 0, false, false, false, 0, 0, 1, [], []⟩

/-- The awaited call returns a value (a connection, the probe's answer, or nothing that is
    read) or raises; the connection is lost; `stop` sets its flag. -/
inductive Event where
  | returns (value : Nat)
  | raises (r : Raised)
  | lost
  | stop
  deriving DecidableEq

variable (s : Runner) (out : Exit)

/-- The head of the loop. -/
@[grind] def contend : Runner :=
  if s.stopped then { s with phase := .ended .falls }
  else { s with phase := .acquiring, attempts := s.attempts + 1 }

/-- Leave the `finally`. -/
@[grind] def leave : Runner := { s with phase := if out = .falls then .sleeping else .ended out }

/-- Enter `_release`, with `unlock=held`. -/
@[grind] def release : Runner := { s with phase := if s.held then .unlocking out else .releasing out }

/-- An `except` branch: `_drop`, then `held = False`. -/
@[grind] def drop : Runner :=
  if s.closed then release { s with held := false } out else { s with phase := .dropping out }

/-- The unlock of `_release` was not confirmed. -/
@[grind] def unlockFailed : Runner :=
  { s with phase := if s.closed then .releasing out else .closing out }

/-- The handlers of the `try`. -/
@[grind] def handle : Raised → Runner
  | .cancelled => drop s (.raised .cancelled)
  | .quits => release s (.raised .quits)
  | .postgres | .other => drop { s with leadErrors := s.leadErrors + 1 } .falls

@[grind] def returns (value : Nat) : Phase → Runner
  | .acquiring => { s with phase := .probing, conn := value, closed := false, held := false
                           acquired := s.acquired ++ [value] }
  | .probing =>
    if value ≠ 0 then { s with phase := .working, held := true } else release s .falls
  | .working => release s .returned
  | .dropping out => release { s with held := false } out
  | .unlocking out => { s with phase := .releasing out }
  | .closing out => { s with phase := .releasing out }
  | .releasing out => leave { s with released := s.released ++ [s.conn] } out
  | .sleeping => contend s
  | .ended _ => s

@[grind] def raises (r : Raised) : Phase → Runner
  | .acquiring | .sleeping => { s with phase := .ended (.raised r) }
  | .probing | .working => handle s r
  -- what `_drop` does not swallow leaves the branch before `held = False`
  | .dropping out =>
    if r.caught then release { s with held := false } out else release s (.raised r)
  | .unlocking out => unlockFailed s (if r.caught then out else .raised r)
  | .closing out =>
    { s with phase := if r.caught then .releasing out else .ended (.raised r) }
  | .releasing out =>
    if r = .postgres then
      leave { s with released := s.released ++ [s.conn], releaseErrors := s.releaseErrors + 1 } out
    else { s with released := s.released ++ [s.conn], phase := .ended (.raised r) }
  | .ended _ => s

@[grind] def step : Event → Runner
  | .returns value => returns s value s.phase
  | .raises r => raises s r s.phase
  | .lost => { s with closed := true }
  | .stop => { s with stopped := true }

/-! ## One step -/

/-- Failures the loop absorbs: those of the probe, the work, a close and the unlock, and of a
    release with a `PostgresError` or an `OSError`. -/
@[grind] def Raised.absorbed (r : Raised) : Phase → Bool
  | .acquiring | .sleeping => false
  | .releasing _ => r = .postgres
  | _ => r.caught

/-- The runner is not stopped, and only fails as the loop absorbs. -/
@[grind] def Kept : Event → Bool
  | .returns _ | .lost => true
  | .raises r => r.absorbed s.phase
  | .stop => false

/-- Whether the round has a connection. -/
@[grind] def Phase.lends : Phase → Bool
  | .acquiring | .sleeping | .ended _ => false
  | _ => true

/-- No exception is on its way out, and only a return of the work ends the runner. -/
@[grind] def Phase.calm : Phase → Bool
  | .dropping out | .unlocking out | .closing out | .releasing out =>
    out = .falls || out = .returned
  | .ended out => out = .returned
  | _ => true

/-- Every connection the runner was given is back, except the one this round has. -/
@[grind] structure Contending : Prop where
  running : s.stopped = false
  calm : s.phase.calm = true
  settled : s.acquired = s.released ++ if s.phase.lends then [s.conn] else []

/-- How far the round is. -/
@[grind] def Phase.place : Phase → Nat
  | .acquiring | .ended _ => 0
  | .probing => 1
  | .working => 2
  | .dropping _ | .unlocking _ => 3
  | .closing _ => 4
  | .releasing _ => 5
  | .sleeping => 6

@[grind] def progress : Nat := 7 * s.attempts + s.phase.place

@[grind] def Event.outcome : Event → Bool
  | .returns _ | .raises _ => true
  | .lost | .stop => false

variable {s out} {e : Event} {es : List Event} {s' : Runner}

/-- A kept step keeps the accounts, and an await that comes back moves the round on, unless
    the work has returned. -/
theorem step_contending (h : Contending s) (hkept : Kept s e = true) :
    Contending (step s e) ∧ ((step s e).phase = .ended .returned ∨
      progress s + (if e.outcome then 1 else 0) ≤ progress (step s e)) := by
  obtain ⟨hrun, hcalm, hset⟩ := h
  cases e with
  | stop => cases hkept
  | lost => exact ⟨⟨hrun, hcalm, hset⟩, .inr (Nat.le_refl _)⟩
  | returns v => cases hph : s.phase <;> constructor <;> grind
  | raises r =>
    rw [Kept] at hkept
    -- only what the loop absorbs is left
    cases hph : s.phase <;> rw [hph] at hkept <;> cases r <;> cases hkept <;> constructor <;> grind

theorem ended_stays (h : s.phase = .ended .returned) : (step s e).phase = .ended .returned := by
  cases e <;> grind

theorem place_le (p : Phase) : p.place ≤ 6 := by
  cases p <;> simp [Phase.place]

/-! ## Whole runs -/

/-- The runner under absorbed failures. -/
abbrev absorbing : Runner → Event → Option Runner :=
  guarded (fun s e => Kept s e = true) fun s e => some (step s e)

theorem absorbing_some (h : absorbing s e = some s') : Kept s e = true ∧ step s e = s' := by
  obtain ⟨hkept, hs⟩ := guarded_some h
  exact ⟨hkept, Option.some.inj hs⟩

theorem run_contending (h : Contending s) (hrun : exec absorbing s es = some s') :
    Contending s' := by
  refine exec_invariant (fun s e s' h hs => ?_) es h hrun
  obtain ⟨hkept, rfl⟩ := absorbing_some hs
  exact (step_contending h hkept).1

/-- Over a run, every await that comes back counts. -/
theorem run_progress (h : Contending s) (hrun : exec absorbing s es = some s') :
    s'.phase = .ended .returned ∨ progress s + es.countP Event.outcome ≤ progress s' := by
  fun_induction exec absorbing s es with
  | case1 =>
    cases hrun
    exact .inr (Nat.le_refl _)
  | case2 => cases hrun
  | case3 s e es s₁ hs ih =>
    obtain ⟨hkept, rfl⟩ := absorbing_some hs
    obtain ⟨hnext, hmoves⟩ := step_contending h hkept
    rcases hmoves with hended | hlt
    · -- once the work has returned nothing moves the runner
      have hstays : ∀ s e s', s.phase = .ended .returned → absorbing s e = some s' →
          s'.phase = .ended .returned := by
        intro s e s' hs hstep
        obtain ⟨-, rfl⟩ := absorbing_some hstep
        exact ended_stays hs
      exact .inl (exec_invariant hstays es hended hrun)
    · refine (ih hnext hrun).imp_right fun hle => ?_
      rw [List.countP_cons]
      omega

/-- **THE RUNNER KEEPS CONTENDING**: while it is not stopped and fails only as the loop absorbs, the
    runner ends only because the work returned, every connection it was given but the one of the
    round under way has been given back once, and within seven awaits it makes another attempt. -/
theorem keeps_contending (h : exec absorbing .fresh es = some s) :
    (∀ out, s.phase = .ended out → out = .returned) ∧
      s.acquired = s.released ++ (if s.phase.lends then [s.conn] else []) ∧
      ∀ es' s', exec absorbing s es' = some s' → 7 ≤ es'.countP Event.outcome →
        s'.phase = .ended .returned ∨ s.attempts < s'.attempts := by
  have hcont : Contending s := run_contending ⟨rfl, rfl, rfl⟩ h
  refine ⟨fun out hout => ?_, hcont.settled, ?_⟩
  · have hcalm := hcont.calm
    rw [hout] at hcalm
    exact of_decide_eq_true hcalm
  · intro es' s' h' hmany
    refine (run_progress hcont h').imp_right fun hle => ?_
    have hplace := place_le s'.phase
    unfold progress at hle
    omega

/-- The work fails, the release fails too, and the runner has the next connection. -/
def failedRound : List Event :=
  [.returns 1, .returns 1, .raises .other, .returns 0, .raises .postgres, .returns 0, .returns 2]

theorem keeps_contending_after_failure : ∃ s', exec absorbing .fresh failedRound = some s' ∧
    s'.released = [1] ∧ s'.conn = 2 ∧
    (s'.phase = .ended .returned ∨ Runner.fresh.attempts < s'.attempts) :=
  ⟨_, rfl, rfl, rfl, (@keeps_contending _ [] rfl).2.2 failedRound _ rfl (by decide)⟩

/-- One failing acquire ends a runner that nobody stopped and whose work never ran. -/
theorem acquire_failure_ends : step .fresh (.raises .postgres) =
    { Runner.fresh with phase := .ended (.raised .postgres) } ∧
      Runner.fresh.stopped = false ∧ Kept .fresh (.raises .postgres) = false :=
  ⟨rfl, rfl, rfl⟩

end Singleton
