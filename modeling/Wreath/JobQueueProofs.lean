import Mathlib.Data.List.Basic
import Wreath.StepSystemProofs

/-! # The job queue — one row, its fence and its retry budget

The workers, sweepers and callers of `jobs.py` change a job's row by single statements. One
of a claim names the fence it read, and a claim issues at most one. When `run_at` and a lease
have passed is for the run to say. The fence keeps every row that is done or dead
(`job_fenced`); the budget that `enqueue` stored is honoured as long as the handler's
`max_attempts` is the row's (`job_budget`). -/

namespace JobQueue

open List StepSystem

inductive Status where
  | ready | leased | done | dead
  deriving Repr, DecidableEq

structure Row where
  state : Status := .ready
  attempts : Nat := 0
  maxAttempts : Nat
  fence : Nat := 0
  deriving Repr, DecidableEq

/-- `_Claimed`, and whether its run has begun. -/
structure Claimed where
  attempts : Nat
  maxAttempts : Nat
  fence : Nat
  started : Bool := false
  deriving Repr, DecidableEq

variable (r : Row) (c : Claimed)

def rowToClaim : Claimed := ⟨r.attempts, r.maxAttempts, r.fence, false⟩

def claim : Row := { r with state := .leased, fence := r.fence + 1 }

def complete : Row := if r.fence = c.fence then { r with state := .done } else r

/-- What a failure is judged by: the budget of the handler, where one is registered. -/
def maxAtt (handler : Option Nat) : Nat := handler.getD c.maxAttempts

def fail (handler : Option Nat) (permanent : Bool) : Row :=
  if r.fence = c.fence then
    { r with
      state := if permanent = true ∨ maxAtt c handler ≤ c.attempts + 1 then .dead else .ready
      attempts := c.attempts + 1 }
  else r

def releaseUnstarted : Row :=
  if r.fence = c.fence ∧ r.state = .leased then { r with state := .ready } else r

def reclaimExpired : Row :=
  { r with
    state := if r.maxAttempts ≤ r.attempts + 1 then .dead else .ready
    attempts := r.attempts + 1, fence := r.fence + 1 }

def cancel : Row := { r with state := .dead, fence := r.fence + 1 }

/-- The row, the claims that have yet to issue their statement, and the history: runs begun,
    claims that ended in a failure or an expired lease, whether a failure was permanent and
    whether the job was cancelled. -/
structure State where
  row : Row
  claims : List Claimed := []
  started : Nat := 0
  ended : Nat := 0
  permanent : Bool := false
  cancelled : Bool := false
  deriving Repr, DecidableEq

/-- A task is registered with its `retries`; the caller may override the budget. -/
def enqueue (maxAttempts : Option Nat) (retries : Nat) : Option State :=
  if maxAttempts.all (fun m => 1 ≤ m ∧ m ≤ 2147483647) then
    some { row := { maxAttempts := maxAttempts.getD (retries + 1) } }
  else none

inductive Event where
  | claim
  | run (c : Claimed)
  | complete (c : Claimed)
  | fail (c : Claimed) (handler : Option Nat) (permanent : Bool)
  | release (c : Claimed)
  | crash (c : Claimed)
  | reclaim
  | cancel
  deriving Repr, DecidableEq

/-- The claim that an event is about. -/
def Event.claimed : Event → Option Claimed
  | .run c | .complete c | .fail c .. | .release c | .crash c => some c
  | .claim | .reclaim | .cancel => none

/-- A worker holds the claim, and its run has begun or has not. -/
def possible (s : State) : Event → Prop
  | .run c | .release c => c ∈ s.claims ∧ c.started = false
  | .complete c | .fail c .. => c ∈ s.claims ∧ c.started = true
  | .crash c => c ∈ s.claims
  | .claim => s.row.state = .ready
  | .reclaim => s.row.state = .leased
  | .cancel => s.row.state = .ready ∨ s.row.state = .leased

instance (s : State) : (e : Event) → Decidable (possible s e)
  | .run _ | .release _ | .complete _ | .fail .. => inferInstanceAs (Decidable (_ ∧ _))
  | .crash _ => inferInstanceAs (Decidable (_ ∈ _))
  | .claim | .reclaim => inferInstanceAs (Decidable (_ = _))
  | .cancel => inferInstanceAs (Decidable (_ ∨ _))

def apply (s : State) : Event → State
  | .claim => { s with row := claim s.row, claims := rowToClaim (claim s.row) :: s.claims }
  | .run c =>
    { s with claims := { c with started := true } :: s.claims.erase c, started := s.started + 1 }
  | .complete c => { s with row := complete s.row c, claims := s.claims.erase c }
  | .fail c handler permanent =>
    { s with
      row := fail s.row c handler permanent
      claims := s.claims.erase c
      ended := if s.row.fence = c.fence then s.ended + 1 else s.ended
      permanent := s.permanent || (s.row.fence = c.fence && permanent) }
  | .release c => { s with row := releaseUnstarted s.row c, claims := s.claims.erase c }
  | .crash c => { s with claims := s.claims.erase c }
  | .reclaim => { s with row := reclaimExpired s.row, ended := s.ended + 1 }
  | .cancel => { s with row := cancel s.row, cancelled := true }

/-- A claim that nobody holds does nothing; a statement that selects no row changes none. -/
def step (s : State) (e : Event) : Option State :=
  if possible s e then some (apply s e) else if e.claimed = none then some s else none

/-! ## The fence -/

variable {r c} {s s' : State} {e : Event}

/-- Only the holder of the current fence has read the row as it is, and the row is leased
    while it does. -/
structure Fenced (s : State) : Prop where
  old : ∀ c ∈ s.claims, c.fence ≤ s.row.fence
  one : s.claims.countP (·.fence = s.row.fence) ≤ 1
  holder : ∀ c ∈ s.claims, c.fence = s.row.fence → s.row.state = .leased
    ∧ c.attempts = s.row.attempts ∧ c.maxAttempts = s.row.maxAttempts
  count : s.row.attempts = s.ended

theorem countP_stale {claims : List Claimed} {n : Nat} (hold : ∀ c ∈ claims, c.fence < n) :
    claims.countP (·.fence = n) = 0 :=
  countP_eq_zero.mpr fun c hc => by simpa using Nat.ne_of_lt (hold c hc)

/-- Where every claim is stale, only the count is left to hold. -/
theorem Fenced.of_stale (hold : ∀ c ∈ s.claims, c.fence < s.row.fence)
    (hcount : s.row.attempts = s.ended) : Fenced s where
  old c hc := Nat.le_of_lt (hold c hc)
  one := by rw [countP_stale hold]; exact Nat.zero_le 1
  holder c hc h := absurd h (Nat.ne_of_lt (hold c hc))
  count := hcount

/-- Once the holder has issued its statement every claim is stale. -/
theorem Fenced.spent (h : Fenced s) (hc : c ∈ s.claims) (hf : s.row.fence = c.fence) :
    ∀ d ∈ s.claims.erase c, d.fence < s.row.fence := by
  intro d hd
  refine Nat.lt_of_le_of_ne (h.old d (mem_of_mem_erase hd)) fun he => ?_
  have hone := h.one
  rw [(perm_cons_erase hc).countP_eq, countP_cons_of_pos (by simp [hf])] at hone
  have hpos : 0 < (s.claims.erase c).countP (·.fence = s.row.fence) :=
    countP_pos_iff.mpr ⟨d, hd, decide_eq_true he⟩
  omega

/-- A claim that is given up leaves the others as they were. -/
theorem Fenced.drop (h : Fenced s) (c : Claimed) : Fenced { s with claims := s.claims.erase c } where
  old d hd := h.old d (mem_of_mem_erase hd)
  one := Nat.le_trans erase_sublist.countP_le h.one
  holder d hd := h.holder d (mem_of_mem_erase hd)
  count := h.count

theorem Fenced.apply (h : Fenced s) (hp : possible s e) : Fenced (apply s e) := by
  have hold := fun d hd => Nat.lt_succ_of_le (h.old d hd)
  cases e with
  | claim =>
    refine ⟨forall_mem_cons.mpr ⟨Nat.le_refl _, fun d hd => Nat.le_of_lt (hold d hd)⟩, ?_,
      forall_mem_cons.mpr ⟨fun _ => ⟨rfl, rfl, rfl⟩, fun d hd hd' =>
        absurd hd' (Nat.ne_of_lt (hold d hd))⟩, h.count⟩
    show countP (·.fence = s.row.fence + 1) (rowToClaim (claim s.row) :: s.claims) ≤ 1
    rw [countP_cons, countP_stale hold]
    simp [rowToClaim, claim]
  | run c =>
    have hdrop := h.drop c
    refine ⟨forall_mem_cons.mpr ⟨h.old c hp.1, hdrop.old⟩, ?_,
      forall_mem_cons.mpr ⟨h.holder c hp.1, hdrop.holder⟩, h.count⟩
    have hone := h.one
    rw [(perm_cons_erase hp.1).countP_eq, countP_cons] at hone
    exact Nat.le_trans (Nat.le_of_eq countP_cons) hone
  | complete c =>
    rw [JobQueue.apply, complete]
    split
    · exact .of_stale (h.spent hp.1 ‹_›) h.count
    · exact h.drop c
  | fail c handler permanent =>
    rw [JobQueue.apply, fail]
    split
    · rename_i hf
      obtain ⟨-, hattempts, -⟩ := h.holder c hp.1 hf.symm
      exact .of_stale (h.spent hp.1 hf) (congrArg (· + 1) (hattempts.trans h.count))
    · exact { h.drop c with }
  | release c =>
    rw [JobQueue.apply, releaseUnstarted]
    split
    · rename_i hf
      exact .of_stale (h.spent hp.1 hf.1) h.count
    · exact h.drop c
  | crash c => exact h.drop c
  | reclaim => exact .of_stale hold (congrArg (· + 1) h.count)
  | cancel => exact .of_stale hold h.count

theorem step_cases (h : step s e = some s') :
    possible s e ∧ s' = apply s e ∨ ¬possible s e ∧ e.claimed = none ∧ s' = s := by
  unfold step at h
  split at h
  · cases h
    exact .inl ⟨‹_›, rfl⟩
  · split at h <;> cases h
    exact .inr ⟨‹_›, ‹_›, rfl⟩

theorem Fenced.step (h : Fenced s) (hs : step s e = some s') : Fenced s' := by
  rcases step_cases hs with ⟨hp, rfl⟩ | ⟨-, -, rfl⟩
  · exact h.apply hp
  · exact h

theorem mem_of_possible (hp : possible s e) (he : e.claimed = some c) : c ∈ s.claims := by
  cases e <;> cases he
  exacts [hp.1, hp.1, hp.1, hp.1, hp]

theorem apply_stale (he : e.claimed = some c) (hf : c.fence ≠ s.row.fence) :
    (apply s e).row = s.row := by
  cases e <;> cases he
  exacts [rfl, if_neg hf.symm, if_neg hf.symm, if_neg fun h => hf h.1.symm, rfl]

variable {maxAttempts : Option Nat} {retries : Nat} {s₀ : State} {events : List Event}

theorem fenced_enqueue (h : enqueue maxAttempts retries = some s₀) : Fenced s₀ := by
  unfold enqueue at h
  split at h <;> cases h
  exact .of_stale nofun rfl

/-- **JOBS ARE FENCED**: in every run one claim at most holds the row's fence, a statement
    under another leaves the row, and so does every statement on a row that is done or dead;
    attempts count the claims that ended in a failure or an expired lease. -/
theorem job_fenced (henqueue : enqueue maxAttempts retries = some s₀)
    (hrun : exec step s₀ events = some s) (hstep : step s e = some s') :
    (s.row.state = .done ∨ s.row.state = .dead → s'.row = s.row)
      ∧ s.claims.countP (·.fence = s.row.fence) ≤ 1
      ∧ (∀ c, e.claimed = some c → c.fence ≠ s.row.fence → s'.row = s.row)
      ∧ s.row.attempts = s.ended := by
  have h := exec_invariant (fun _ _ _ h hs => Fenced.step h hs) events (fenced_enqueue henqueue) hrun
  rcases step_cases hstep with ⟨hp, rfl⟩ | ⟨-, -, rfl⟩
  · refine ⟨fun hterminal => ?_, h.one, fun c => apply_stale, h.count⟩
    cases hc : e.claimed with
    | none => cases e <;> cases hc <;> simp only [possible] at hp <;> grind
    | some c =>
      refine apply_stale hc fun hf => ?_
      have hleased := (h.holder c (mem_of_possible hp hc) hf).1
      rw [hleased] at hterminal
      rcases hterminal with h | h <;> cases h
  · exact ⟨fun _ => rfl, h.one, fun _ _ _ => rfl, h.count⟩

/-- A worker reports after its lease has expired and the job was claimed again. -/
theorem job_fenced_late : ∃ s s', exec step { row := { maxAttempts := 3 } }
      [.claim, .run ⟨0, 3, 1, false⟩, .reclaim, .claim] = some s
    ∧ step s (.complete ⟨0, 3, 1, true⟩) = some s' ∧ s'.row = s.row :=
  runs_end (fun s _ => s.row.fence) 3 (by decide) fun _ _ hrun hstep hfence =>
    (job_fenced (show enqueue none 2 = some _ from rfl) hrun hstep).2.2.1 _ rfl
      (by rw [hfence]; decide)

/-! ## The retry budget -/

/-- The runs that have begun are within the budget, and the job is dead exactly when that
    many claims ended in a failure or an expired lease, the lease of a claim whose run never
    began included, a failure was permanent or the job was cancelled. -/
def Honoured (budget : Nat) (s : State) : Prop :=
  s.started ≤ budget
    ∧ (s.row.state = .dead ↔ budget ≤ s.ended ∨ s.permanent = true ∨ s.cancelled = true)

/-- A recorded failure that is not permanent is judged as the row's budget would judge it. -/
def Judged (s : State) : Event → Prop
  | .fail c handler false => s.row.fence = c.fence →
      (maxAtt c handler ≤ c.attempts + 1 ↔ c.maxAttempts ≤ c.attempts + 1)
  | _ => True

instance (s : State) : (e : Event) → Decidable (Judged s e)
  | .fail _ _ false => inferInstanceAs (Decidable (_ → _))
  | .fail _ _ true | .claim | .run _ | .complete _ | .release _ | .crash _ | .reclaim
  | .cancel => isTrue trivial

/-- A row after `runs` runs that have begun or still can, where `failed` of them ended
    unsuccessfully and it is `stopped` for good or not. -/
structure Budgeted (budget : Nat) (r : Row) (runs failed : Nat) (stopped : Bool) : Prop where
  stored : r.maxAttempts = budget
  within : runs ≤ budget
  ready : r.state = .ready → runs ≤ failed
  leased : r.state = .leased → runs ≤ failed + 1
  dead : r.state = .dead ↔ budget ≤ failed ∨ stopped = true

variable {budget n n' failed : Nat} {stopped : Bool}

section

variable (h : Budgeted budget r n failed stopped)
include h

theorem Budgeted.less (hn : n' ≤ n) : Budgeted budget r n' failed stopped where
  stored := h.stored
  within := Nat.le_trans hn h.within
  ready hr := Nat.le_trans hn (h.ready hr)
  leased hr := Nat.le_trans hn (h.leased hr)
  dead := h.dead

/-- A row that is not dead has a run left. -/
theorem Budgeted.left (hr : r.state ≠ .dead) : failed < budget ∧ stopped = false := by
  have hnot := mt h.dead.mpr hr
  rw [not_or, Bool.not_eq_true] at hnot
  exact ⟨Nat.lt_of_not_le hnot.1, hnot.2⟩

theorem Budgeted.claim (hr : r.state = .ready) :
    Budgeted budget (claim r) (n + 1) failed stopped := by
  obtain ⟨hleft, rfl⟩ := h.left (by rw [hr]; decide)
  have hruns := Nat.succ_le_succ (h.ready hr)
  exact ⟨h.stored, Nat.le_trans hruns hleft, nofun, fun _ => hruns, by simpa [JobQueue.claim]⟩

/-- An attempt ends, judged by `l`. -/
theorem Budgeted.ended (hr : r.state = .leased) (permanent : Bool) (l attempts fence : Nat)
    (hj : permanent = false → (l ≤ failed + 1 ↔ budget ≤ failed + 1)) :
    Budgeted budget ⟨if permanent = true ∨ l ≤ failed + 1 then .dead else .ready, attempts,
      r.maxAttempts, fence⟩ n (failed + 1) (stopped || permanent) := by
  obtain ⟨-, rfl⟩ := h.left (by rw [hr]; decide)
  refine ⟨h.stored, h.within, fun _ => h.leased hr, ?_, ?_⟩
  · intro h
    split at h <;> cases h
  · cases permanent with
    | true => simp
    | false => simp [hj rfl]

/-- The holder completes or releases. -/
theorem Budgeted.settle {state : Status}
    (hr : r.state = .leased) (hst : state = .done ∨ state = .ready ∧ n ≤ failed) :
    Budgeted budget { r with state := state } n failed stopped := by
  obtain ⟨hleft, rfl⟩ := h.left (by rw [hr]; decide)
  rcases hst with rfl | ⟨rfl, hn⟩
  · exact ⟨h.stored, h.within, nofun, nofun, by simpa⟩
  · exact ⟨h.stored, h.within, fun _ => hn, nofun, by simpa⟩

theorem Budgeted.cancel : Budgeted budget (cancel r) n failed true :=
  ⟨h.stored, h.within, nofun, nofun, iff_of_true rfl (.inr rfl)⟩

end

/-- The runs that have begun and those that still can. -/
def runs (s : State) : Nat := s.started + s.claims.countP (!·.started)

theorem runs_erase (hc : c ∈ s.claims) : runs s =
    s.started + (s.claims.erase c).countP (!·.started) + if c.started then 0 else 1 := by
  rw [runs, (perm_cons_erase hc).countP_eq, countP_cons, Nat.add_assoc]
  cases c.started <;> rfl

/-- What is kept as long as every failure is judged by the row's budget. -/
structure Kept (budget : Nat) (s : State) : Prop extends Fenced s where
  budget : Budgeted budget s.row (runs s) s.ended (s.cancelled || s.permanent)

theorem Kept.apply (h : Kept budget s) (hp : possible s e) (hj : Judged s e) :
    Kept budget (apply s e) := by
  refine ⟨h.toFenced.apply hp, ?_⟩
  have hdrop : ∀ {c}, c ∈ s.claims → Budgeted budget s.row (runs { s with claims := s.claims.erase c })
      s.ended (s.cancelled || s.permanent) :=
    fun hc => h.budget.less (by rw [runs_erase hc]; exact Nat.le_add_right ..)
  cases e with
  | claim =>
    have hruns : runs (JobQueue.apply s .claim) = runs s + 1 := by
      simp [runs, JobQueue.apply, rowToClaim, Nat.add_assoc]
    rw [hruns]
    exact h.budget.claim hp
  | run c =>
    refine h.budget.less (Nat.le_of_eq ?_)
    rw [runs_erase hp.1]
    simp [runs, JobQueue.apply, hp.2, Nat.add_right_comm]
  | complete c =>
    rw [JobQueue.apply, complete]
    split
    · rename_i hf
      have hleased := (h.holder c hp.1 hf.symm).1
      exact (hdrop hp.1).settle hleased (.inl rfl)
    · exact hdrop hp.1
  | fail c handler permanent =>
    rw [JobQueue.apply, fail]
    split
    · rename_i hf
      obtain ⟨hleased, hattempts, hmax⟩ := h.holder c hp.1 hf.symm
      rw [decide_eq_true hf, Bool.true_and, ← Bool.or_assoc, hattempts, h.count]
      refine (hdrop hp.1).ended hleased permanent _ _ _ ?_
      rintro rfl
      rw [← h.budget.stored, ← hmax, ← h.count, ← hattempts]
      exact hj hf
    · rename_i hf
      rw [decide_eq_false hf, Bool.false_and, Bool.or_false]
      exact hdrop hp.1
  | release c =>
    rw [JobQueue.apply, releaseUnstarted]
    split
    · rename_i hf
      have hruns := h.budget.leased hf.2
      rw [runs_erase hp.1, hp.2] at hruns
      exact (hdrop hp.1).settle hf.2 (.inr ⟨rfl, Nat.le_of_succ_le_succ hruns⟩)
    · exact hdrop hp.1
  | crash c => exact hdrop hp
  | reclaim =>
    have hended := h.budget.ended hp false s.row.maxAttempts (s.row.attempts + 1)
      (s.row.fence + 1) fun _ => by rw [h.budget.stored]
    simpa [JobQueue.apply, reclaimExpired, runs, h.count] using hended
  | cancel => exact h.budget.cancel

theorem kept_run (henq : enqueue maxAttempts retries = some s₀)
    (hrun : exec (guarded Judged step) s₀ events = some s) :
    Kept (maxAttempts.getD (retries + 1)) s := by
  refine exec_guarded_invariant (fun s e s' h hj hs => ?_) ?_ hrun
  · rcases step_cases hs with ⟨hp, rfl⟩ | ⟨-, -, rfl⟩
    · exact h.apply hp hj
    · exact h
  · have hpositive : 0 < maxAttempts.getD (retries + 1) := by
      unfold enqueue at henq
      split at henq
      · cases maxAttempts <;> simp_all [Nat.lt_iff_add_one_le]
      · cases henq
    refine ⟨fenced_enqueue henq, ?_⟩
    unfold enqueue at henq
    split at henq <;> cases henq
    exact ⟨rfl, Nat.zero_le _, fun _ => Nat.le_refl 0, nofun, iff_of_false nofun (by simp; omega)⟩

/-- **THE RETRY BUDGET**: as long as every failure was judged by the budget that `enqueue`
    stored, the next step honours it if and only if it judges so too. -/
theorem job_budget (henqueue : enqueue maxAttempts retries = some s₀)
    (hrun : exec (guarded Judged step) s₀ events = some s) (hstep : step s e = some s') :
    Honoured (maxAttempts.getD (retries + 1)) s' ↔ Judged s e := by
  have h := kept_run henqueue hrun
  generalize maxAttempts.getD (retries + 1) = budget at h ⊢
  constructor
  · intro hhonoured
    fun_cases Judged s e with
    | case2 => trivial
    | case1 c handler =>
      intro hf
      rcases step_cases hstep with ⟨hp, rfl⟩ | ⟨-, hnone, -⟩
      · obtain ⟨hleased, hattempts, hmax⟩ := h.holder c hp.1 hf.symm
        obtain ⟨-, hstopped⟩ := h.budget.left (by rw [hleased]; decide)
        rw [Bool.or_eq_false_iff] at hstopped
        simpa [apply, fail, hf, hattempts, hmax, h.count, h.budget.stored, hstopped]
          using hhonoured.2
      · cases hnone
  · intro hj
    have hkept : Kept budget s' := by
      rcases step_cases hstep with ⟨hp, rfl⟩ | ⟨-, -, rfl⟩
      · exact h.apply hp hj
      · exact h
    refine ⟨Nat.le_trans (Nat.le_add_right ..) hkept.budget.within, hkept.budget.dead.trans ?_⟩
    rw [Bool.or_eq_true, or_comm (b := s'.permanent = true)]

/-- The handler and the row allow two attempts, and the first fails. -/
theorem job_budget_retried : ∃ s s', exec (guarded Judged step) { row := { maxAttempts := 2 } }
      [.claim, .run ⟨0, 2, 1, false⟩] = some s
    ∧ step s (.fail ⟨0, 2, 1, true⟩ (some 2) false) = some s' ∧ Honoured 2 s' :=
  runs_end (fun _ s' => s'.started) 1 (by decide) fun _ _ hrun hstep _ =>
    (job_budget (show enqueue none 1 = some _ from rfl) hrun hstep).mpr fun _ => Iff.rfl

/-- A job that is enqueued for one attempt runs again: its task has two retries. -/
theorem override_exceeded : ((enqueue (some 1) 2).bind (exec step · [.claim,
      .run ⟨0, 1, 1, false⟩, .fail ⟨0, 1, 1, true⟩ (some 3) false, .claim,
      .run ⟨1, 1, 2, false⟩])).map (fun s => (s.row.maxAttempts, s.started)) = some (1, 2) := by
  decide

end JobQueue
