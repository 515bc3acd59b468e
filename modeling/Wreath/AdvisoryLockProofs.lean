import Mathlib.Algebra.Order.Floor.Defs
import Mathlib.Data.Rat.Floor
import Wreath.TableProofs
import Wreath.StepSystemProofs

/-! # Advisory locks — `_locks.py` over a pool of connections

`lock`, `try_lock` and a round of `run_singleton` borrow a connection, take a session lock
on it and give it back. A statement that was sent is run by the server whether or not its
sender still awaits the answer: `lock` and `try_lock`, interrupted between the acquisition
and the handle, give the connection back with the lock (`pooled_with_lock`). When that does
not happen, and no connection is lost under a handle, no connection in the pool has a lock
(`pool_holds_no_lock`). -/

namespace AdvisoryLock

open StepSystem List Option Function

inductive Mode where
  | exclusive
  | shared
  deriving Repr, DecidableEq

structure Target where
  nspace : String
  key : String
  mode : Mode
  deriving Repr, DecidableEq

/-- The three classes; a runner's next round is another use. -/
inductive Use where
  | lock
  | tryLock (timeout : Option ℚ)
  | singleton
  deriving DecidableEq

inductive Statement where
  | setTimeout (milliseconds : Nat)
  | acquire (target : Target)
  | tryAcquire (target : Target)
  | resetTimeout
  | unlock (target : Target)
  deriving Repr, DecidableEq

/-- `refused` is the answer `false`, `lockNotAvailable` is sqlstate 55P03. -/
inductive Reply where
  | ok
  | refused
  | lockNotAvailable
  | error
  deriving Repr, DecidableEq

def Reply.raises : Reply → Bool
  | .lockNotAvailable | .error => true
  | _ => false

/-! ## The server -/

/-- The answers a statement can have on a session with `locks`. Whether another session
    holds the lock is left to the server. -/
def answers (locks : List Target) : Statement → Reply → Bool
  | .setTimeout _, r | .resetTimeout, r => r = .ok || r = .error
  | .acquire _, r => r ≠ .refused
  | .tryAcquire _, r => r ≠ .lockNotAvailable
  | .unlock t, r =>
    r = .error || (r = .ok && t ∈ locks) || (r = .refused && t ∉ locks)

/-- The locks of a session after a statement. -/
def effect (locks : List Target) : Statement → Reply → List Target
  | .acquire t, .ok | .tryAcquire t, .ok => t :: locks
  | .unlock t, .ok => locks.erase t
  | _, _ => locks

structure Conn where
  closed : Bool
  lent : Option Nat
  queue : List (Nat × Statement)
  locks : List Target
  deriving DecidableEq

variable (s : State) (u : Nat) (q : User) (k : Conn)

/-- `_drop`: a closed connection ends its session. -/
def drop : Conn := { k with closed := true, queue := [], locks := [] }

/-! ## The three classes -/

/-- What `_attempt` has come to when it resets the timeout. -/
inductive Attempt where
  | got
  | refused
  | raising
  deriving Repr, DecidableEq

/-- The await a use is at; a reply that has come may not have been seen. -/
inductive Phase where
  | setting (reply : Option Reply)
  | acquiring (reply : Option Reply)
  | resetting (attempt : Attempt) (reply : Option Reply)
  | holding
  | unlocking (reply : Option Reply)
  | exited
  deriving Repr, DecidableEq

structure User where
  use : Use
  target : Target
  conn : Nat
  phase : Phase
  deriving DecidableEq

/-- The `lock_timeout` of a timed `try_lock`. -/
def milliseconds : Option ℚ → Option Nat
  | none => none
  | some t => if t ≤ 0 then none else some (max 1 ⌊t * 1000⌋.toNat)

def timed : Use → Option Nat
  | .tryLock timeout => milliseconds timeout
  | _ => none

/-- The statement that takes the lock. -/
def acquisition (use : Use) (target : Target) : Statement :=
  match use with
  | .lock => .acquire target
  | .singleton => .tryAcquire target
  | .tryLock timeout =>
    match milliseconds timeout with
    | some _ => .acquire target
    | none => .tryAcquire target

/-- A statement on a closed connection raises at once. -/
def submit (st : Statement) (phase : Option Reply → Phase) : User × Conn :=
  if k.closed then ({ q with phase := phase (some .error) }, k)
  else ({ q with phase := phase none }, { k with queue := k.queue ++ [(u, st)] })

/-- `database.release`; the pool discards a connection that is closed. -/
def giveBack : User × Conn := ({ q with phase := .exited }, { k with lent := none })

/-- `_release` with `unlock=True`. -/
def unlock (u : Nat) (q : User) (k : Conn) : User × Conn :=
  submit u q k (.unlock q.target) .unlocking

def reset (attempt : Attempt) : User × Conn := submit u q k .resetTimeout (.resetting attempt)

def hold : User × Conn := ({ q with phase := .holding }, k)

def start : User × Conn :=
  match timed q.use with
  | some ms => submit u q k (.setTimeout ms) .setting
  | none => submit u q k (acquisition q.use q.target) .acquiring

def Reply.attempt : Reply → Attempt
  | .ok => .got
  | .lockNotAvailable => .refused
  | _ => .raising

/-- The acquisition has answered. -/
def acquired (r : Reply) : User × Conn :=
  if (timed q.use).isSome then reset u q k r.attempt
  else if r = .ok then hold q k
  else if q.use = .singleton ∧ r.raises then giveBack q (drop k)
  else giveBack q k

/-- The await returns, or raises the error that was answered. -/
def resumed : Option (User × Conn) :=
  match q.phase with
  | .setting (some r) =>
    some (if r.raises then giveBack q k
      else submit u q k (acquisition q.use q.target) .acquiring)
  | .acquiring (some r) => some (acquired u q k r)
  | .resetting attempt (some r) =>
    some (if attempt = .got ∧ r.raises = false then hold q k
      else giveBack q k)
  | .unlocking (some r) =>
    some (if r.raises then giveBack q (drop k) else giveBack q k)
  | _ => none

/-- The await is cancelled, or the block raises. -/
def cancelled : Option (User × Conn) :=
  match q.phase with
  | .setting _ | .resetting .. => some (giveBack q k)
  | .acquiring _ =>
    some (if q.use = .singleton then giveBack q (drop k)
      else if (timed q.use).isSome then reset u q k .raising
      else giveBack q k)
  | .holding =>
    some (if q.use = .singleton then giveBack q (drop k) else unlock u q k)
  | .unlocking _ => some (giveBack q (drop k))
  | .exited => none

/-- The block, or the singleton's work, has returned. -/
def left : Option (User × Conn) := if q.phase = .holding then some (unlock u q k) else none

/-! ## Runs -/

structure State where
  conn : Nat → Option Conn
  user : Nat → Option User

def State.init : State := ⟨fun _ => none, fun _ => none⟩

def State.setConn (c : Nat) (k : Conn) : State := { s with conn := update s.conn c (some k) }

/-- A use goes on, with its connection. -/
def State.turn (p : User × Conn) : State :=
  { conn := update s.conn p.1.conn (some p.2)
    user := update s.user u (some p.1) }

inductive Event where
  | enter (u : Nat) (use : Use) (target : Target) (c : Nat)
  | serve (c : Nat) (r : Reply)
  | resume (u : Nat)
  | cancel (u : Nat)
  | leave (u : Nat)
  | lose (c : Nat)

/-- `database.acquire`: an idle connection or a new one. -/
def State.lend (c : Nat) : Option Conn :=
  match s.conn c with
  | none => some ⟨false, none, [], []⟩
  | some k => if k.closed || k.lent.isSome then none else some k

/-- The statement a use awaits. -/
def User.awaits : Option Statement :=
  match q.phase with
  | .setting none => (timed q.use).map .setTimeout
  | .acquiring none => some (acquisition q.use q.target)
  | .resetting _ none => some .resetTimeout
  | .unlocking none => some (.unlock q.target)
  | _ => none

def Phase.hear (r : Reply) : Phase → Phase
  | .setting none => .setting (some r)
  | .acquiring none => .acquiring (some r)
  | .resetting attempt none => .resetting attempt (some r)
  | .unlocking none => .unlocking (some r)
  | p => p

def User.hear (q : User) (r : Reply) : User := { q with phase := q.phase.hear r }

/-- The session after its next statement. -/
def ran (rest : List (Nat × Statement)) (st : Statement) (r : Reply) : Conn :=
  { k with queue := rest, locks := effect k.locks st r }

/-- The server runs the next statement of a session; who still awaits it hears the answer. -/
def serve (c : Nat) (r : Reply) : Option State := do
  let k ← s.conn c
  match k.queue with
  | [] => none
  | (u, st) :: rest =>
    if answers k.locks st r then
      match s.user u with
      | some q =>
        if q.conn = c ∧ q.awaits = some st then
          some (s.turn u (q.hear r, ran k rest st r))
        else some (s.setConn c (ran k rest st r))
      | none => some (s.setConn c (ran k rest st r))
    else none

/-- The connection breaks, and the await on it raises. -/
def lose (c : Nat) : Option State := do
  let k ← s.conn c
  match k.lent with
  | none => some (s.setConn c (drop k))
  | some u => do
      let q ← s.user u
      some (s.turn u (q.hear .error, drop k))

/-- The task of a use runs. -/
def State.task (f : Nat → User → Conn → Option (User × Conn)) : Option State := do
  let q ← s.user u
  let k ← s.conn q.conn
  let p ← f u q k
  some (s.turn u p)

def step : Event → Option State
  | .enter u use target c => do
      let k ← s.lend c
      if (s.user u).isSome then none
      else
        some (s.turn u (start u ⟨use, target, c, .setting none⟩ { k with lent := some u }))
  | .serve c r => serve s c r
  | .resume u => s.task u resumed
  | .cancel u => s.task u cancelled
  | .leave u => s.task u left
  | .lose c => lose s c

/-! ## What a session holds -/

/-- Statements that no lock depends on. -/
def Statement.quiet : Statement → Bool
  | .setTimeout _ | .resetTimeout => true
  | _ => false

def Quiet (queue : List (Nat × Statement)) : Prop := ∀ p ∈ queue, p.2.quiet = true

/-- The statement of a use that the session has still to run, where a lock depends on it. -/
def User.sent : List (Nat × Statement) :=
  match q.phase with
  | .acquiring none => [(u, acquisition q.use q.target)]
  | .unlocking none => [(u, .unlock q.target)]
  | _ => []

/-- The locks of the session in each phase. -/
def User.owns : List Target :=
  match q.phase with
  | .acquiring (some .ok) | .resetting .got _ | .holding | .unlocking none =>
    [q.target]
  | .unlocking (some r) => if r.raises then [q.target] else []
  | _ => []

/-- The use has the lock, or is about to be told. -/
def Phase.granted : Phase → Bool
  | .acquiring (some .ok) | .holding => true
  | .resetting .got (some r) => !r.raises
  | _ => false

/-- A use and the connection it has borrowed. -/
inductive Fits (u : Nat) (q : User) (k : Conn) : Prop where
  | dead (hclosed : k.closed = true) (hqueue : k.queue = [])
      (hlocks : k.locks = []) (hphase : q.phase.granted = false)
  | live (l : List (Nat × Statement)) (hopen : k.closed = false)
      (hquiet : Quiet l) (hqueue : k.queue = l ++ q.sent u)
      (hlocks : k.locks = q.owns)

/-- A connection that is in the pool, or closed and out of it. -/
def Clean : Prop := Quiet k.queue ∧ k.locks = []

/-- What may become of a use and its connection. -/
inductive After (u : Nat) (q : User) (k : Conn) : Prop where
  | stays (hlent : k.lent = some u) (hphase : q.phase ≠ .exited) (hfits : Fits u q k)
  | gone (hlent : k.lent = none) (hphase : q.phase = .exited) (hclean : Clean k)

/-- A use goes on, on the connection it has. -/
def Goes (p : User × Conn) : Prop := p.1.conn = q.conn ∧ After u p.1 p.2

structure Sound (s : State) : Prop where
  idle : ∀ c k, s.conn c = some k → k.lent = none → Clean k
  lent : ∀ c k u, s.conn c = some k → k.lent = some u →
    ∃ q, s.user u = some q ∧ q.conn = c ∧ q.phase ≠ .exited ∧ Fits u q k
  user : ∀ u q, s.user u = some q → q.phase ≠ .exited →
    ∃ k, s.conn q.conn = some k ∧ k.lent = some u

theorem Sound.init : Sound State.init where
  idle _ _ h := nomatch h
  lent _ _ _ h := nomatch h
  user _ _ h := nomatch h

variable {s s' : State} {e : Event} {u c : Nat} {q q' : User} {k k' : Conn}
  {st : Statement} {r : Reply}

/-- A use goes on with a connection that was its own or nobody's. -/
theorem Sound.turn (h : Sound s)
    (hconn : ∀ k, s.conn q'.conn = some k → k.lent = none ∨ k.lent = some u)
    (huser : ∀ q, s.user u = some q → q.phase ≠ .exited → q.conn = q'.conn)
    (hafter : After u q' k') : Sound (s.turn u (q', k')) := by
  constructor
  · intro c k hk hlent
    rcases SlotMap.set_cases hk with ⟨-, rfl⟩ | ⟨-, hold⟩
    · cases hafter with
      | stays hl => exact nomatch hl.symm.trans hlent
      | gone _ _ hclean => exact hclean
    · exact h.idle c k hold hlent
  · intro c k v hk hlent
    rcases SlotMap.set_cases hk with ⟨hc, rfl⟩ | ⟨hc, hold⟩
    · cases hafter with
      | stays hl hph hfits =>
        cases hl.symm.trans hlent
        exact ⟨q', update_self .., hc.symm, hph, hfits⟩
      | gone hl => exact nomatch hl.symm.trans hlent
    · obtain ⟨q, hq, hqc, hph, hfits⟩ := h.lent c k v hold hlent
      have hv : v ≠ u := by
        rintro rfl
        exact hc (hqc.symm.trans (huser q hq hph))
      exact ⟨q, (update_of_ne hv ..).trans hq, hqc, hph, hfits⟩
  · intro v q hq hph
    rcases SlotMap.set_cases hq with ⟨hv, rfl⟩ | ⟨hv, hold⟩
    · cases hafter with
      | stays hl => exact ⟨k', update_self .., hv ▸ hl⟩
      | gone _ hout => exact absurd hout hph
    · obtain ⟨k, hk, hl⟩ := h.user v q hold hph
      have hqc : q.conn ≠ q'.conn := by
        intro hqc
        rcases hconn k (hqc ▸ hk) with hnone | hsome
        · exact nomatch hnone.symm.trans hl
        · exact hv (some.inj (hl.symm.trans hsome))
      exact ⟨k, (update_of_ne hqc ..).trans hk, hl⟩

/-- A use that has not exited has a connection. -/
theorem Sound.borrowed (h : Sound s) (hq : s.user u = some q) (hph : q.phase ≠ .exited) :
    ∃ k, s.conn q.conn = some k ∧ k.lent = some u ∧ Fits u q k := by
  obtain ⟨k, hk, hlent⟩ := h.user u q hq hph
  obtain ⟨q₁, hq₁, -, -, hfits⟩ := h.lent _ k u hk hlent
  cases hq.symm.trans hq₁
  exact ⟨k, hk, hlent, hfits⟩

/-- The borrower of a connection goes on. -/
theorem Sound.turn_own (h : Sound s) (hq : s.user u = some q)
    (hk : s.conn q.conn = some k) (hlent : k.lent = some u)
    (hqc : q'.conn = q.conn) (hafter : After u q' k') : Sound (s.turn u (q', k')) := by
  refine h.turn ?_ ?_ hafter
  · intro k₁ hk₁
    rw [hqc, hk] at hk₁
    exact .inr (some.inj hk₁ ▸ hlent)
  · intro q₁ hq₁ _
    cases hq.symm.trans hq₁
    exact hqc.symm

/-- Only the session changes. -/
theorem Sound.setConn (h : Sound s) (hk : s.conn c = some k)
    (hlent : k'.lent = k.lent) (hclean : Clean k → Clean k')
    (hfits : ∀ u q, k.lent = some u → s.user u = some q → q.conn = c → Fits u q k → Fits u q k') :
    Sound (s.setConn c k') := by
  constructor
  · intro c' k₁ hk₁ hl
    rcases SlotMap.set_cases hk₁ with ⟨-, rfl⟩ | ⟨-, hold⟩
    · exact hclean (h.idle c k hk (hlent ▸ hl))
    · exact h.idle c' k₁ hold hl
  · intro c' k₁ v hk₁ hl
    rcases SlotMap.set_cases hk₁ with ⟨rfl, rfl⟩ | ⟨-, hold⟩
    · rw [hlent] at hl
      obtain ⟨q, hq, hqc, hph, hf⟩ := h.lent c' k v hk hl
      exact ⟨q, hq, hqc, hph, hfits v q hl hq hqc hf⟩
    · exact h.lent c' k₁ v hold hl
  · intro v q hq hph
    obtain ⟨k₁, hk₁, hl⟩ := h.user v q hq hph
    obtain ⟨k₂, hk₂, hl₂⟩ := SlotMap.set_keeps Conn.lent k' hk hlent hk₁
    exact ⟨k₂, hk₂, hl₂.trans hl⟩

/-! ## One use -/

theorem Clean.of_nil (hqueue : k.queue = []) (hlocks : k.locks = []) : Clean k := by
  refine ⟨?_, hlocks⟩
  intro p hp
  rw [hqueue] at hp
  cases hp

theorem drop_clean : Clean (drop k) := .of_nil rfl rfl

/-- A use that has sent nothing and owns nothing leaves no trace. -/
theorem Fits.clean (h : Fits u q k) (hnone : k.closed = false → q.sent u = [] ∧ q.owns = []) :
    Clean k := by
  cases h with
  | dead _ hqueue hlocks => exact .of_nil hqueue hlocks
  | live l hopen hquiet hqueue hlocks =>
    rw [(hnone hopen).1, append_nil] at hqueue
    exact ⟨hqueue ▸ hquiet, hlocks.trans (hnone hopen).2⟩

theorem giveBack_goes (h : Clean k) : Goes u q (giveBack q k) := ⟨rfl, .gone rfl rfl h⟩

variable {phase : Option Reply → Phase}

section

variable (h : Fits u q k) (hlent : k.lent = some u)
include h hlent

/-- A use sends its next statement. -/
theorem Fits.submit (hstays : ∀ o, phase o ≠ .exited)
    (herror : (phase (some .error)).granted = false)
    (hnone : k.closed = false → q.sent u = [] ∧ q.owns = { q with phase := phase none }.owns)
    (hnew : { q with phase := phase none }.sent u = [(u, st)] ∨
      (st.quiet = true ∧ { q with phase := phase none }.sent u = [])) :
    Goes u q (submit u q k st phase) := by
  rw [AdvisoryLock.submit]
  cases h with
  | dead hclosed hqueue hlocks _ =>
    rw [if_pos hclosed]
    exact ⟨rfl, .stays hlent (hstays _) (.dead hclosed hqueue hlocks herror)⟩
  | live l hopen hquiet hqueue hlocks =>
    obtain ⟨hsent, howns⟩ := hnone hopen
    rw [hsent, append_nil] at hqueue
    replace howns := hlocks.trans howns
    rw [if_neg (Bool.eq_false_iff.mp hopen)]
    refine ⟨rfl, .stays hlent (hstays _) ?_⟩
    rcases hnew with hst | ⟨hst, hnone⟩
    · refine .live l hopen hquiet ?_ howns
      rw [hst, hqueue]
    · refine .live (l ++ [(u, st)]) hopen ?_ ?_ howns
      · intro p hp
        rcases mem_append.mp hp with hp | hp
        · exact hquiet p hp
        · rw [mem_singleton.mp hp]
          exact hst
      · rw [hnone, hqueue, append_nil]

theorem unlock_goes (hph : q.phase = .holding) : Goes u q (unlock u q k) := by
  refine h.submit hlent (fun _ => nofun) rfl (fun _ => ?_) (.inl rfl)
  rw [User.sent, User.owns, hph]
  exact ⟨rfl, rfl⟩

theorem reset_goes {attempt : Attempt} (hnone : k.closed = false →
      q.sent u = [] ∧ q.owns = if attempt = .got then [q.target] else []) :
    Goes u q (reset u q k attempt) := by
  refine h.submit hlent (fun _ => nofun) ?_ (fun hopen => ?_) (.inr ⟨rfl, rfl⟩)
  · cases attempt
    all_goals rfl
  · refine ⟨(hnone hopen).1, (hnone hopen).2.trans ?_⟩
    cases attempt
    all_goals rfl

/-- A use that has its lock on an open connection has the handle. -/
theorem hold_goes (hgranted : q.phase.granted = true) (hsent : q.sent u = [])
    (howns : q.owns = [q.target]) : Goes u q (hold q k) := by
  cases h with
  | dead _ _ _ hph => exact nomatch hph.symm.trans hgranted
  | live l hopen hquiet hqueue hlocks =>
    refine ⟨rfl, .stays hlent nofun (.live l hopen hquiet ?_ (hlocks.trans howns))⟩
    exact hqueue.trans (by rw [hsent]; rfl)

end

/-! ## Interruptions -/

/-- Between sending the acquisition and having the handle. -/
def User.unsure (q : User) : Bool :=
  match q.phase with
  | .acquiring none | .acquiring (some .ok) => q.use ≠ .singleton
  | .resetting .got _ => true
  | _ => false

def sureCancel (q : User) (k : Conn) : Bool := k.closed || !q.unsure

def sureResume (q : User) (k : Conn) : Bool :=
  match q.phase with
  | .resetting .got (some r) => k.closed || !r.raises
  | _ => true

/-- The condition on a step: no `lock` or `try_lock` is cancelled between sending the
    acquisition and having the handle, nor does the reset of the timeout fail in between,
    and a connection is not lost under a handle. -/
def Sure (s : State) : Event → Prop
  | .cancel u => ∀ q ∈ s.user u, ∀ k ∈ s.conn q.conn, sureCancel q k = true
  | .resume u => ∀ q ∈ s.user u, ∀ k ∈ s.conn q.conn, sureResume q k = true
  | .lose c => ∀ k ∈ s.conn c, ∀ u ∈ k.lent, ∀ q ∈ s.user u, q.phase.granted = false
  | _ => True

instance (s : State) : (e : Event) → Decidable (Sure s e)
  | .cancel u => inferInstanceAs (Decidable (∀ q ∈ s.user u, _))
  | .resume u => inferInstanceAs (Decidable (∀ q ∈ s.user u, _))
  | .lose c => inferInstanceAs (Decidable (∀ k ∈ s.conn c, _))
  | .enter .. | .serve .. | .leave .. => isTrue trivial

variable {p : User × Conn}

theorem left_goes (h : Fits u q k) (hlent : k.lent = some u)
    (hp : left u q k = some p) : Goes u q p := by
  obtain ⟨hph, hp⟩ := ite_none_right_eq_some.mp hp
  cases hp
  exact unlock_goes h hlent hph

/-- What is not unsure has neither sent the acquisition nor been granted it. -/
theorem sure_nothing (hsure : sureCancel q k = true) (hopen : k.closed = false)
    (hph : (∃ o, q.phase = .acquiring o ∧ q.use ≠ .singleton) ∨ ∃ a o, q.phase = .resetting a o) :
    q.sent u = [] ∧ q.owns = [] := by
  rw [sureCancel, hopen, Bool.false_or, Bool.not_eq_true', User.unsure] at hsure
  rw [User.sent, User.owns]
  rcases hph with ⟨o, hph, huse⟩ | ⟨a, o, hph⟩
  · rw [hph] at hsure ⊢
    cases o with
    | none => exact absurd (of_decide_eq_false hsure) (not_not.mpr huse)
    | some r =>
      cases r with
      | ok => exact absurd (of_decide_eq_false hsure) (not_not.mpr huse)
      | refused | lockNotAvailable | error => exact ⟨rfl, rfl⟩
  · rw [hph] at hsure ⊢
    cases a with
    | got => cases hsure
    | refused | raising => exact ⟨rfl, rfl⟩

theorem cancelled_goes (h : Fits u q k) (hlent : k.lent = some u) (hsure : sureCancel q k = true)
    (hp : cancelled u q k = some p) : Goes u q p := by
  revert hp
  fun_cases cancelled u q k with
  | case1 o hph =>
    rintro ⟨⟩
    refine giveBack_goes (h.clean fun _ => ?_)
    rw [User.sent, User.owns, hph]
    exact ⟨rfl, rfl⟩
  | case2 a o hph =>
    rintro ⟨⟩
    exact giveBack_goes (h.clean fun hopen => sure_nothing hsure hopen (.inr ⟨a, o, hph⟩))
  | case3 o hph =>
    rintro ⟨⟩
    by_cases huse : q.use = .singleton
    · rw [if_pos huse]
      exact giveBack_goes drop_clean
    · rw [if_neg huse]
      have hnone hopen := sure_nothing (u := u) hsure hopen (.inl ⟨o, hph, huse⟩)
      split
      · exact reset_goes h hlent hnone
      · exact giveBack_goes (h.clean hnone)
  | case4 hph =>
    rintro ⟨⟩
    split
    · exact giveBack_goes drop_clean
    · exact unlock_goes h hlent hph
  | case5 =>
    rintro ⟨⟩
    exact giveBack_goes drop_clean
  | case6 => rintro ⟨⟩

/-- The session has the lock when the acquisition has answered so. -/
theorem owns_acquired (hph : q.phase = .acquiring (some r)) :
    q.owns = if r.attempt = .got then [q.target] else [] := by
  rw [User.owns, hph]
  cases r
  all_goals rfl

theorem acquired_goes (h : Fits u q k) (hlent : k.lent = some u)
    (hph : q.phase = .acquiring (some r)) : Goes u q (acquired u q k r) := by
  have hsent : q.sent u = [] := by rw [User.sent, hph]
  have howns := owns_acquired hph
  rw [acquired]
  split
  · exact reset_goes h hlent fun _ => ⟨hsent, howns⟩
  split
  · rename_i hok
    subst hok
    refine hold_goes h hlent ?_ hsent howns
    rw [hph]
    rfl
  · rename_i hok
    split
    · exact giveBack_goes drop_clean
    · refine giveBack_goes (h.clean fun _ => ⟨hsent, ?_⟩)
      rw [howns, if_neg]
      cases r with
      | ok => exact absurd rfl hok
      | refused | lockNotAvailable | error => exact nofun

theorem resumed_goes (h : Fits u q k) (hlent : k.lent = some u) (hsure : sureResume q k = true)
    (hp : resumed u q k = some p) : Goes u q p := by
  rw [resumed] at hp
  split at hp
  · rename_i r hph
    cases hp
    have hnone : q.sent u = [] ∧ q.owns = [] := by
      rw [User.sent, User.owns, hph]
      exact ⟨rfl, rfl⟩
    split
    · exact giveBack_goes (h.clean fun _ => hnone)
    · exact h.submit hlent (fun _ => nofun) rfl (fun _ => hnone) (.inl rfl)
  · rename_i r hph
    cases hp
    exact acquired_goes h hlent hph
  · rename_i a r hph
    cases hp
    have hsent : q.sent u = [] := by rw [User.sent, hph]
    split
    · rename_i hgot
      obtain ⟨rfl, hr⟩ := hgot
      refine hold_goes h hlent ?_ hsent ?_
      · rw [hph, Phase.granted, hr]
        rfl
      · rw [User.owns, hph]
    · rename_i hgot
      -- An answer that raises is on a closed connection, or of no grant.
      refine giveBack_goes (h.clean fun hopen => ⟨hsent, ?_⟩)
      rw [sureResume, hph] at hsure
      rw [User.owns, hph]
      cases a with
      | got =>
        simp only [hopen, Bool.false_or, Bool.not_eq_true'] at hsure
        exact absurd ⟨rfl, hsure⟩ hgot
      | refused | raising => rfl
  · rename_i r hph
    cases hp
    split
    · exact giveBack_goes drop_clean
    · rename_i hr
      refine giveBack_goes (h.clean fun _ => ⟨?_, ?_⟩)
      · rw [User.sent, hph]
      · simp only [User.owns, hph, if_neg hr]
  · cases hp

/-! ## The server's turn -/

theorem effect_quiet (h : st.quiet = true) (locks : List Target) : effect locks st r = locks := by
  cases st with
  | setTimeout | resetTimeout => rfl
  | acquire | tryAcquire | unlock => cases h

variable {t : Target}

variable {use : Use}

theorem acquisition_cases : acquisition use t = .acquire t ∨ acquisition use t = .tryAcquire t := by
  cases use with
  | lock => exact .inl rfl
  | singleton => exact .inr rfl
  | tryLock timeout =>
    rw [acquisition]
    split
    · exact .inl rfl
    · exact .inr rfl

theorem acquisition_not_quiet : (acquisition use t).quiet = false := by
  rcases acquisition_cases with h | h
  all_goals rw [h]; rfl

theorem effect_acquisition :
    effect [] (acquisition use t) r = if r.attempt = .got then [t] else [] := by
  rcases acquisition_cases with h | h
  all_goals
    rw [h]
    cases r
    all_goals rfl

theorem effect_unlock (h : answers [t] (.unlock t) r = true) :
    effect [t] (.unlock t) r = if r.raises then [t] else [] := by
  cases r with
  | ok => exact erase_cons_head ..
  | error => rfl
  | refused | lockNotAvailable => simp [answers] at h

variable {rest : List (Nat × Statement)}

/-- After the quiet statements the head of the queue is what the use sent. -/
theorem Quiet.head {l : List (Nat × Statement)} (hl : Quiet l)
    (hst : st.quiet = false) (h : l ++ [(u, st)] = (u, st) :: rest) : rest = [] := by
  cases l with
  | nil => exact (List.cons.inj h).2.symm
  | cons p l =>
    have hp := hl p mem_cons_self
    rw [(List.cons.inj h).1] at hp
    exact nomatch hst.symm.trans hp

/-- The answer to a quiet statement. -/
theorem Fits.heard_quiet (hopen : k.closed = false) (hquiet : Quiet ((u, st) :: rest))
    (hlocks : k.locks = q.owns) (hsent : (q.hear r).sent u = [])
    (howns : (q.hear r).owns = q.owns) : Fits u (q.hear r) (ran k rest st r) := by
  refine .live rest hopen (fun p hp => hquiet p (mem_cons_of_mem _ hp)) ?_ ?_
  · rw [hsent, append_nil]
    rfl
  · exact (effect_quiet (hquiet _ mem_cons_self) _).trans (hlocks.trans howns.symm)

/-- A use hears the answer to its statement. -/
theorem Fits.heard (h : Fits u q k)
    (hqueue : k.queue = (u, st) :: rest) (hawaits : q.awaits = some st)
    (hans : answers k.locks st r = true) : Fits u (q.hear r) (ran k rest st r) := by
  cases h with
  | dead _ hnil => exact nomatch hnil.symm.trans hqueue
  | live l hopen hquiet hq hlocks =>
    rw [hqueue] at hq
    obtain ⟨use, target, c, phase⟩ := q
    rw [User.awaits] at hawaits
    split at hawaits
    · rename_i hph
      obtain rfl : phase = .setting none := hph
      obtain rfl : l = (u, st) :: rest := (hq.trans (append_nil l)).symm
      exact .heard_quiet hopen hquiet hlocks rfl rfl
    · rename_i hph
      obtain rfl : phase = .acquiring none := hph
      cases hawaits
      obtain rfl := hquiet.head (acquisition_not_quiet) hq.symm
      refine .live [] hopen nofun rfl ?_
      have hnone : k.locks = [] := hlocks
      rw [owns_acquired (r := r) rfl]
      show effect k.locks _ r = _
      rw [hnone]
      exact effect_acquisition
    · rename_i a hph
      obtain rfl : phase = .resetting a none := hph
      obtain rfl : l = (u, st) :: rest := (hq.trans (append_nil l)).symm
      refine .heard_quiet hopen hquiet hlocks rfl ?_
      cases a
      all_goals rfl
    · rename_i hph
      obtain rfl : phase = .unlocking none := hph
      cases hawaits
      obtain rfl := hquiet.head rfl hq.symm
      refine .live [] hopen nofun rfl ?_
      have hown : k.locks = [target] := hlocks
      rw [hown] at hans
      show effect k.locks _ r = _
      rw [hown]
      exact effect_unlock hans
    · cases hawaits

/-- What was sent and is a lock's statement is awaited. -/
theorem awaits_sent {p : Nat × Statement} (h : p ∈ q.sent u) : p.1 = u ∧ q.awaits = some p.2 := by
  rw [User.sent] at h
  split at h
  · rename_i hph
    rw [mem_singleton.mp h, User.awaits, hph]
    exact ⟨rfl, rfl⟩
  · rename_i hph
    rw [mem_singleton.mp h, User.awaits, hph]
    exact ⟨rfl, rfl⟩
  · cases h

variable {v : Nat}

/-- A statement that its borrower does not await is a quiet one. -/
theorem Fits.skipped (h : Fits u q k) (hqueue : k.queue = (v, st) :: rest)
    (hother : ¬(v = u ∧ q.awaits = some st)) : Fits u q (ran k rest st r) := by
  cases h with
  | dead _ hnil => exact nomatch hnil.symm.trans hqueue
  | live l hopen hquiet hq hlocks =>
    rw [hqueue] at hq
    cases l with
    | nil =>
      refine absurd (awaits_sent (p := (v, st)) ?_) hother
      rw [nil_append] at hq
      rw [← hq]
      exact mem_cons_self
    | cons p l =>
      obtain ⟨rfl, rfl⟩ := List.cons.inj hq
      refine .live l hopen (fun p hp => hquiet p (mem_cons_of_mem _ hp)) rfl ?_
      exact (effect_quiet (hquiet _ mem_cons_self) _).trans hlocks

theorem Clean.ran (h : Clean k) (hqueue : k.queue = (v, st) :: rest) : Clean (ran k rest st r) := by
  obtain ⟨hquiet, hlocks⟩ := h
  rw [hqueue] at hquiet
  exact ⟨fun p hp => hquiet p (mem_cons_of_mem _ hp),
    (effect_quiet (hquiet _ mem_cons_self) _).trans hlocks⟩

theorem Phase.hear_stays {p : Phase} (h : p ≠ .exited) : p.hear r ≠ .exited := by
  cases p with
  | setting o | acquiring o | resetting a o | unlocking o => cases o <;> exact nofun
  | holding => exact nofun
  | exited => exact absurd rfl h

theorem awaits_stays (h : q.awaits = some st) : q.phase ≠ .exited := by
  intro hout
  rw [User.awaits, hout] at h
  cases h

/-- Nobody awaits the statement. -/
theorem Sound.skip (h : Sound s) (hk : s.conn c = some k) (hqueue : k.queue = (v, st) :: rest)
    (hother : ∀ q, s.user v = some q → ¬(q.conn = c ∧ q.awaits = some st)) :
    Sound (s.setConn c (ran k rest st r)) := by
  refine h.setConn hk rfl (fun hc => hc.ran hqueue) ?_
  intro u q _ hq hqc hfits
  refine hfits.skipped hqueue ?_
  rintro ⟨rfl, hawaits⟩
  exact hother q hq ⟨hqc, hawaits⟩

theorem Sound.serve (h : Sound s) (hs : serve s c r = some s') : Sound s' := by
  obtain ⟨k, hk, hs⟩ := bind_eq_some_iff.mp hs
  split at hs
  · cases hs
  rename_i u st rest hqueue
  obtain ⟨hans, hs'⟩ := ite_none_right_eq_some.mp hs
  split at hs'
  · rename_i q hq
    split at hs'
    · rename_i hhear
      obtain ⟨rfl, hawaits⟩ := hhear
      cases hs'
      have hstays := awaits_stays hawaits
      obtain ⟨k₁, hk₁, hlent, hfits⟩ := h.borrowed hq hstays
      cases hk.symm.trans hk₁
      exact h.turn_own hq hk hlent rfl
        (.stays hlent (Phase.hear_stays hstays) (hfits.heard hqueue hawaits hans))
    · rename_i hnot
      cases hs'
      refine h.skip hk hqueue fun q₁ hq₁ => ?_
      cases hq.symm.trans hq₁
      exact hnot
  · rename_i hnone
    cases hs'
    exact h.skip hk hqueue fun q hq => nomatch hnone.symm.trans hq

/-- A use that was not told of a grant is not told of one by an error. -/
theorem Phase.hear_error {p : Phase} (h : p.granted = false) : (p.hear .error).granted = false := by
  cases p with
  | setting o | unlocking o => cases o <;> rfl
  | acquiring o =>
    cases o with
    | none => rfl
    | some r => exact h
  | resetting a o =>
    cases o with
    | none => cases a <;> rfl
    | some r => exact h
  | holding => exact h
  | exited => rfl

theorem Sound.lose (h : Sound s) (hsure : Sure s (.lose c))
    (hs : lose s c = some s') : Sound s' := by
  obtain ⟨k, hk, hs⟩ := bind_eq_some_iff.mp hs
  split at hs
  · rename_i hlent
    cases hs
    refine h.setConn hk rfl (fun _ => drop_clean) ?_
    intro u q hsome
    exact nomatch hlent.symm.trans hsome
  · rename_i u hlent
    obtain ⟨q, hq, hs⟩ := bind_eq_some_iff.mp hs
    cases hs
    obtain ⟨q₁, hq₁, rfl, hph, hfits⟩ := h.lent c k u hk hlent
    cases hq.symm.trans hq₁
    exact h.turn_own hq hk hlent rfl (.stays hlent (Phase.hear_stays hph)
      (.dead rfl rfl rfl (Phase.hear_error (hsure k hk u hlent q hq))))

/-- A use that begins has nothing and gets a clean connection. -/
theorem start_goes (hclean : Clean k) (hopen : k.closed = false)
    (hlent : k.lent = some u) (hph : q.phase = .setting none) : Goes u q (start u q k) := by
  have hnone : q.sent u = [] ∧ q.owns = [] := by
    rw [User.sent, User.owns, hph]
    exact ⟨rfl, rfl⟩
  have hfits : Fits u q k := by
    refine .live k.queue hopen hclean.1 ?_ (hclean.2.trans hnone.2.symm)
    rw [hnone.1, append_nil]
  rw [start]
  split
  · exact hfits.submit hlent (fun _ => nofun) rfl (fun _ => hnone) (.inr ⟨rfl, rfl⟩)
  · exact hfits.submit hlent (fun _ => nofun) rfl (fun _ => hnone) (.inl rfl)

/-- What the pool lends is open, clean and nobody's. -/
theorem Sound.lend (h : Sound s) (hk : s.lend c = some k) :
    k.closed = false ∧ Clean k ∧ ∀ k', s.conn c = some k' → k'.lent = none := by
  rw [State.lend] at hk
  split at hk
  · rename_i hnone
    cases hk
    exact ⟨rfl, .of_nil rfl rfl, fun k' hk' => nomatch hnone.symm.trans hk'⟩
  · rename_i k₁ hk₁
    obtain ⟨hfree, hk⟩ := ite_none_left_eq_some.mp hk
    obtain rfl := some.inj hk
    obtain ⟨hopen, hlent⟩ := not_or.mp (mt Bool.or_eq_true_iff.mpr hfree)
    have hlent := not_isSome_iff_eq_none.mp hlent
    refine ⟨Bool.eq_false_iff.mpr hopen, h.idle c k₁ hk₁ hlent, fun k' hk' => ?_⟩
    cases hk₁.symm.trans hk'
    exact hlent

theorem Sound.enter {target : Target} (h : Sound s)
    (hs : step s (.enter u use target c) = some s') : Sound s' := by
  obtain ⟨k, hk, hs⟩ := bind_eq_some_iff.mp hs
  obtain ⟨hnew, hs⟩ := ite_none_left_eq_some.mp hs
  cases hs
  obtain ⟨hopen, hclean, hfree⟩ := h.lend hk
  obtain ⟨hconn, hafter⟩ := start_goes (u := u)
    (q := ⟨use, target, c, .setting none⟩) (k := { k with lent := some u })
    hclean hopen rfl rfl
  refine h.turn (fun k' hk' => ?_) (fun q hq => ?_) hafter
  · exact .inl (hfree k' ((congrArg s.conn hconn).symm.trans hk'))
  · rw [hq] at hnew
    exact absurd rfl hnew

/-- The task of a use runs, and keeps what its connection fits. -/
theorem Sound.task {f : Nat → User → Conn → Option (User × Conn)} (h : Sound s)
    (hf : ∀ q k p, s.user u = some q → s.conn q.conn = some k → Fits u q k →
      k.lent = some u → f u q k = some p → Goes u q p)
    (hout : ∀ q k, q.phase = .exited → f u q k = none) (hs : s.task u f = some s') : Sound s' := by
  obtain ⟨q, hq, hs⟩ := bind_eq_some_iff.mp hs
  obtain ⟨k, hk, hs⟩ := bind_eq_some_iff.mp hs
  obtain ⟨p, hp, hs⟩ := bind_eq_some_iff.mp hs
  cases hs
  have hph : q.phase ≠ .exited := by
    intro hexit
    exact nomatch (hout q k hexit).symm.trans hp
  obtain ⟨k₁, hk₁, hlent, hfits⟩ := h.borrowed hq hph
  cases hk.symm.trans hk₁
  obtain ⟨hconn, hafter⟩ := hf q k p hq hk hfits hlent hp
  exact h.turn_own hq hk hlent hconn hafter

theorem Sound.step (h : Sound s) (hsure : Sure s e) (hs : step s e = some s') : Sound s' := by
  cases e with
  | enter u use target c => exact h.enter hs
  | serve c r => exact h.serve hs
  | resume u =>
    refine h.task (fun q k p hq hk hfits hlent hp => ?_) (fun q k hexit => ?_) hs
    · exact resumed_goes hfits hlent (hsure q hq k hk) hp
    · rw [resumed, hexit]
  | cancel u =>
    refine h.task (fun q k p hq hk hfits hlent hp => ?_) (fun q k hexit => ?_) hs
    · exact cancelled_goes hfits hlent (hsure q hq k hk) hp
    · rw [cancelled, hexit]
  | leave u =>
    refine h.task (fun q k p _ _ hfits hlent hp => ?_) (fun q k hexit => ?_) hs
    · exact left_goes hfits hlent hp
    · rw [left, hexit]
      rfl
  | lose c => exact h.lose hsure hs

/-! ## What the pool has -/

theorem owns_target (h : t ∈ q.owns) : t = q.target := by
  rw [User.owns] at h
  split at h
  all_goals try exact mem_singleton.mp h
  · split at h
    · exact mem_singleton.mp h
    · cases h
  · cases h

theorem Fits.locks (h : Fits u q k) (ht : t ∈ k.locks) : t = q.target := by
  cases h with
  | dead _ _ hlocks => exact nomatch hlocks ▸ ht
  | live _ _ _ _ hlocks => exact owns_target (hlocks ▸ ht)

theorem Fits.holding (h : Fits u q k) (hph : q.phase = .holding) :
    k.closed = false ∧ k.locks = [q.target] := by
  cases h with
  | dead _ _ _ hgranted =>
    rw [hph] at hgranted
    cases hgranted
  | live _ hopen _ _ hlocks =>
    rw [User.owns, hph] at hlocks
    exact ⟨hopen, hlocks⟩

/-- **NO LOCK IN THE POOL**: in every run in which no `lock` or `try_lock` is cut off between
    sending the acquisition and having the handle, and no connection is lost under a handle, a
    connection nobody has borrowed has no lock, a lock that is held is that of the use that has its
    session, and a handle is held by its own open session. -/
theorem pool_holds_no_lock {es : List Event} (h : exec (guarded Sure step) State.init es = some s) :
    (∀ c k, s.conn c = some k → k.lent = none → k.locks = []) ∧
    (∀ c k t, s.conn c = some k → t ∈ k.locks →
      ∃ u q, k.lent = some u ∧ s.user u = some q ∧ q.conn = c ∧
        q.target = t ∧ q.phase ≠ .exited) ∧ (∀ u q, s.user u = some q → q.phase = .holding →
      ∃ k, s.conn q.conn = some k ∧ k.lent = some u ∧ k.closed = false ∧ k.locks = [q.target]) := by
  have hmoves : ∀ s e s', Sound s → Sure s e → step s e = some s' → Sound s' :=
    fun _ _ _ hsound hsure hs => hsound.step hsure hs
  have hsound := exec_guarded_invariant hmoves .init h
  refine ⟨?_, ?_, ?_⟩
  · intro c k hk hlent
    exact (hsound.idle c k hk hlent).2
  · intro c k t hk ht
    cases hlent : k.lent with
    | none =>
      rw [(hsound.idle c k hk hlent).2] at ht
      cases ht
    | some u =>
      obtain ⟨q, hq, hqc, hphase, hfits⟩ := hsound.lent c k u hk hlent
      exact ⟨u, q, rfl, hq, hqc, (hfits.locks ht).symm, hphase⟩
  · intro u q hq hphase
    obtain ⟨k, hk, hlent, hfits⟩ := hsound.borrowed hq (by rw [hphase]; exact nofun)
    exact ⟨k, hk, hlent, hfits.holding hphase⟩

def report : Target := ⟨"main", "nightly-report", .exclusive⟩

/-- A runner is cancelled while it leads; a `try_lock` with a timeout takes the lock on
    another connection and has the handle. -/
def takesOver : List Event := [.enter 0 .singleton report 0, .serve 0 .ok, .resume 0, .cancel 0,
    .enter 1 (.tryLock (some (1 / 2))) report 1, .serve 1 .ok, .resume 1,
    .serve 1 .ok, .resume 1, .serve 1 .ok, .resume 1]

theorem pool_holds_no_lock_taken_over :
    ∃ s q k, exec (guarded Sure step) State.init takesOver = some s ∧
      s.user 1 = some q ∧ q.phase = .holding ∧ s.conn 1 = some k ∧
      k.locks = [report] ∧
      ∀ c k, s.conn c = some k → k.lent = none → k.locks = [] := by
  have hruns : (exec (guarded Sure step) State.init takesOver).bind
      (fun s => (s.user 1).map fun q => (q.phase, q.conn, q.target)) =
        some (.holding, 1, report) := by decide +kernel
  obtain ⟨s, hs, hq⟩ := bind_eq_some_iff.mp hruns
  obtain ⟨q, hq, hfields⟩ := map_eq_some_iff.mp hq
  simp only [Prod.mk.injEq] at hfields
  obtain ⟨hphase, hconn, htarget⟩ := hfields
  obtain ⟨hpool, -, hheld⟩ := pool_holds_no_lock hs
  obtain ⟨k, hk, -, -, hlocks⟩ := hheld 1 q hq hphase
  rw [hconn] at hk
  rw [htarget] at hlocks
  exact ⟨s, q, k, hs, hq, hphase, hk, hlocks, hpool⟩

/-- A `lock` is granted and its task is cancelled before it sees the answer: the connection
    is in the pool, open, and its session has the lock. -/
theorem pooled_with_lock : ∃ s k, exec step State.init
        [.enter 0 .lock report 0, .serve 0 .ok, .cancel 0] = some s ∧
      s.conn 0 = some k ∧ k.lent = none ∧ k.closed = false ∧
      k.locks = [report] := by
  have hruns : (exec step State.init [.enter 0 .lock report 0, .serve 0 .ok, .cancel 0]).bind
        (fun s => s.conn 0) = some ⟨false, none, [], [report]⟩ := by
    decide +kernel
  obtain ⟨s, hs, hk⟩ := bind_eq_some_iff.mp hruns
  exact ⟨s, _, hs, hk, rfl, rfl, rfl⟩

end AdvisoryLock
