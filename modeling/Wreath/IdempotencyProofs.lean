import Wreath.ResponseCacheProofs
import Wreath.TableProofs

/-! # Idempotency keys — `policy/idempotency.py` over PostgreSQL

A request with a key claims a row in one statement; when that is refused a second statement
reads a response to replay, or a conflict. The execution that claimed the key stores its
response or, after a failure, deletes the row, and neither says whose claim it ends: an
execution that outlives its window ends the claim of the next one (`released_anothers`). When
none does, and no reader finds the row gone, one execution holds a key at a time and every
repeat is given its response (`one_at_a_time`). -/

namespace Idempotency

open ByteScan (Bytes ascii lower)
open ResponseCache (Header Response)
open StepSystem
open Option (bind_eq_some_iff some.inj)
open Function (update update_of_ne update_self)

abbrev Key := String

/-- A stored response: status, headers, body. -/
structure Replay where
  status : Nat
  headers : List Header
  body : Bytes
  deriving Repr, DecidableEq

structure Row where
  payload : Option Replay
  expires : ℚ
  owner : Nat
  deriving DecidableEq

structure Config where
  ttl : ℚ
  maxBodyBytes : Nat

/-- `reading` is between a refused claim and its read; `running` has the end of the window
    that was claimed, if one was. -/
inductive Phase where
  | reading
  | running (deadline : Option ℚ)
  | ended (response : Option Response)
  deriving DecidableEq

structure Request where
  key : Key
  phase : Phase
  deriving DecidableEq

structure State where
  rows : Key → Option Row
  now : ℚ
  request : Nat → Option Request

def State.init : State := ⟨fun _ => none, 0, fun _ => none⟩

inductive Event where
  | claim (r : Nat) (key : Key)
  | read (r : Nat)
  | finish (r : Nat) (response : Response)
  | crash (r : Nat)
  | purge
  | tick (d : ℚ)

/-! ## Statements -/

def State.setRow (s : State) (key : Key) (row : Option Row) : State :=
  { s with rows := update s.rows key row }

def State.put (s : State) (r : Nat) (q : Request) : State :=
  { s with request := update s.request r (some q) }

variable (cfg : Config)

variable (s : State) (response : Response)

/-- `claim`: insert, or take over a row that has expired. -/
def claimRow (r : Nat) (key : Key) : Option State :=
  match s.rows key with
  | none => some (s.setRow key (some ⟨none, s.now + cfg.ttl, r⟩))
  | some row =>
    if row.expires < s.now then
      some (s.setRow key (some ⟨none, s.now + cfg.ttl, r⟩))
    else none

/-- `store`: insert, or fill a row and leave its window alone. -/
def storeRow (r : Nat) (key : Key) (replay : Replay) : State :=
  match s.rows key with
  | none => s.setRow key (some ⟨some replay, s.now + cfg.ttl, r⟩)
  | some row => s.setRow key (some ⟨some replay, row.expires, r⟩)

/-! ## The policy -/

def uncacheableBody : List String :=
  ["StreamingResponse", "FileResponse", "SSEResponse", "PreparedResponse"]

def retryableStatuses : List Nat := [401, 403, 408, 409, 423, 425, 429, 449]

def unreplayableHeaders : List Bytes := [ascii "set-cookie", ascii "set-cookie2"]

/-- `_replayable_headers`. -/
def replayableHeaders (headers : List Header) : List Header := headers.filter fun h =>
    !unreplayableHeaders.contains (lower h.1) && !h.1.contains 0 && !h.2.contains 0

/-- The responses after which the key stays retryable. -/
def releases : Bool :=
  500 ≤ response.status || retryableStatuses.contains response.status ||
    uncacheableBody.contains response.kind ||
    cfg.maxBodyBytes < response.body.length

def replayOf : Replay := ⟨response.status, replayableHeaders response.headers, response.body⟩

/-- The 409 of a key that is in flight; the body stands for its detail. -/
def conflict : Response := ⟨"ProblemResponse", 409, [(ascii "retry-after", ascii "1")],
    ascii "a request with this Idempotency-Key is still in progress"⟩

def replayed (replay : Replay) : Response :=
  ⟨"Response", replay.status, replay.headers ++ [(ascii "idempotency-replayed", ascii "true")],
    replay.body⟩

/-- The first statement of `reserve`. -/
def claim (r : Nat) (key : Key) : State :=
  match claimRow cfg s r key with
  | some s' => s'.put r ⟨key, .running (some (s.now + cfg.ttl))⟩
  | none => s.put r ⟨key, .reading⟩

/-- What the second statement of `reserve` makes of the row. -/
def readPhase : Option Row → Phase
  | none => .running none
  | some row =>
    match row.payload with
    | none => .ended (some conflict)
    | some replay => .ended (some (replayed replay))

/-- `after`: store the response under the key, or release it. -/
def after (r : Nat) (key : Key) (response : Response) : State :=
  if releases cfg response then s.setRow key none
  else storeRow cfg s r key (replayOf response)

def step : Event → Option State
  | .claim r key =>
    if (s.request r).isSome then none else some (claim cfg s r key)
  | .read r => do
      let q ← s.request r
      match q.phase with
      | .reading => some (s.put r { q with phase := readPhase (s.rows q.key) })
      | _ => none
  | .finish r response => do
      let q ← s.request r
      match q.phase with
      | .running _ =>
        some ((after cfg s r q.key response).put r { q with phase := .ended (some response) })
      | _ => none
  | .crash r => do
      let q ← s.request r
      match q.phase with
      | .ended _ => none
      | _ => some (s.put r { q with phase := .ended none })
  | .purge =>
    some { s with rows := fun key => (s.rows key).filter fun row =>
      s.now ≤ row.expires }
  | .tick d => if 0 ≤ d then some { s with now := s.now + d } else none

/-! ## What a step can do -/

/-- The row that an execution leaves under its key. -/
def rowAfter (r : Nat) (key : Key) : Option Row :=
  if releases cfg response then none
  else some ⟨some (replayOf response), ((s.rows key).map Row.expires).getD (s.now + cfg.ttl), r⟩

variable {cfg} {s s' : State} {e : Event} {r : Nat} {q : Request} {key : Key} {response : Response}

/-- **EVERYTHING A STEP CAN DO**, one case for each way it can go. -/
inductive Move (cfg : Config) (s : State) : Event → State → Prop where
  | claims {r : Nat} {key : Key} (hnew : s.request r = none)
      (hfree : ∀ row, s.rows key = some row → row.expires < s.now) :
      Move cfg s (.claim r key) ((s.setRow key (some ⟨none, s.now + cfg.ttl, r⟩)).put r
          ⟨key, .running (some (s.now + cfg.ttl))⟩)
  | refused {r : Nat} {key : Key} {row : Row} (hnew : s.request r = none)
      (hrow : s.rows key = some row) (hlive : s.now ≤ row.expires) :
      Move cfg s (.claim r key) (s.put r ⟨key, .reading⟩)
  | reads {r : Nat} {q : Request} (hq : s.request r = some q)
      (hphase : q.phase = .reading) :
      Move cfg s (.read r) (s.put r { q with phase := readPhase (s.rows q.key) })
  | finishes {r : Nat} {q : Request} {response : Response} {d : Option ℚ}
      (hq : s.request r = some q) (hphase : q.phase = .running d) :
      Move cfg s (.finish r response) ((s.setRow q.key (rowAfter cfg s response r q.key)).put r
        { q with phase := .ended (some response) })
  | crashes {r : Nat} {q : Request} (hq : s.request r = some q) :
      Move cfg s (.crash r) (s.put r { q with phase := .ended none })
  | purges {rows : Key → Option Row}
      (hrows : ∀ key, rows key = (s.rows key).filter fun row => decide (s.now ≤ row.expires)) :
      Move cfg s .purge { s with rows := rows }
  | ticks {d : ℚ} (hd : 0 ≤ d) : Move cfg s (.tick d) { s with now := s.now + d }

theorem claim_move (hnew : s.request r = none) : Move cfg s (.claim r key) (claim cfg s r key) := by
  rw [claim, claimRow]
  cases hrow : s.rows key with
  | none => exact .claims hnew fun row h => nomatch hrow.symm.trans h
  | some row =>
    by_cases hexp : row.expires < s.now
    · simp only [if_pos hexp]
      refine .claims hnew fun row' h => ?_
      cases hrow.symm.trans h
      exact hexp
    · simp only [if_neg hexp]
      exact .refused hnew hrow (not_lt.mp hexp)

theorem after_row : after cfg s r key response = s.setRow key (rowAfter cfg s response r key) := by
  rw [after, rowAfter]
  split
  · rfl
  · rw [storeRow]
    split
    · rename_i hrow
      rw [hrow]
      rfl
    · rename_i row hrow
      rw [hrow]
      rfl

/-- What is left is the execution's own. -/
theorem rowAfter_owner {row : Row} (h : rowAfter cfg s response r key = some row) :
    row.owner = r := by
  rw [rowAfter] at h
  split at h
  · cases h
  · cases h
    rfl

theorem step_move (h : step cfg s e = some s') : Move cfg s e s' := by
  cases e with
  | claim r key =>
    rw [step] at h
    split at h
    · cases h
    · rename_i hnew
      cases h
      exact claim_move (Option.not_isSome_iff_eq_none.mp hnew)
  | read r =>
    obtain ⟨q, hq, h⟩ := bind_eq_some_iff.mp h
    split at h
    · rename_i hph
      cases h
      exact .reads hq hph
    · cases h
  | finish r response =>
    obtain ⟨q, hq, h⟩ := bind_eq_some_iff.mp h
    split at h
    · rename_i d hph
      cases h
      rw [after_row]
      exact .finishes hq hph
    · cases h
  | crash r =>
    obtain ⟨q, hq, h⟩ := bind_eq_some_iff.mp h
    split at h
    · cases h
    · cases h
      exact .crashes hq
  | purge =>
    cases h
    exact .purges fun _ => rfl
  | tick d =>
    rw [step] at h
    split at h
    · rename_i hd
      cases h
      exact .ticks hd
    · cases h

/-! ## Whose row it is -/

def Phase.deadline : Phase → Option ℚ
  | .running deadline => deadline
  | _ => none

/-- An execution that ends does so in its window, or while the row is its own or gone. -/
def ends (s : State) (r : Nat) (q : Request) : Prop :=
  ∀ T ∈ q.phase.deadline, s.now ≤ T ∨ ∀ row ∈ s.rows q.key, row.owner = r

instance (s : State) (r : Nat) (q : Request) : Decidable (ends s r q) :=
  inferInstanceAs (Decidable (∀ T ∈ q.phase.deadline, _))

/-- The condition on a step: beside the above, who reads after a refused claim finds a row. -/
def Timely (s : State) : Event → Prop
  | .read r => ∀ q ∈ s.request r, (s.rows q.key).isSome = true
  | .finish r _ => ∀ q ∈ s.request r, ends s r q
  | _ => True

instance (s : State) : (e : Event) → Decidable (Timely s e)
  | .read r => inferInstanceAs (Decidable (∀ q ∈ s.request r, _))
  | .finish r _ => inferInstanceAs (Decidable (∀ q ∈ s.request r, _))
  | .claim .. | .crash .. | .purge | .tick .. => isTrue trivial

/-- In its window an execution has the row, and a stored response is not of an execution
    that still runs. -/
structure Held (s : State) : Prop where
  claimed : ∀ r q, s.request r = some q → q.phase ≠ .running none
  window : ∀ r q T, s.request r = some q → q.phase = .running (some T) →
    s.now ≤ T → s.rows q.key = some ⟨none, T, r⟩
  owner : ∀ key row, s.rows key = some row → ∃ q, s.request row.owner = some q ∧
      (row.payload.isSome = true → ∀ d, q.phase ≠ .running d)

theorem Held.init : Held State.init where
  claimed _ _ h := nomatch h
  window _ _ _ h := nomatch h
  owner _ _ h := nomatch h

/-- A request that does not run goes on. -/
theorem Held.put (h : Held s) (hq : ∀ d, q.phase ≠ .running d) : Held (s.put r q) := by
  constructor
  · exact SlotMap.set_all (hq none) h.claimed
  · intro i q' T hq' hph hnow
    rcases SlotMap.set_cases hq' with ⟨-, rfl⟩ | ⟨-, hold⟩
    · exact absurd hph (hq _)
    · exact h.window i q' T hold hph hnow
  · intro key row hrow
    obtain ⟨q', hq', hstored⟩ := h.owner key row hrow
    by_cases hi : row.owner = r
    · exact ⟨q, hi ▸ update_self .., fun _ => hq⟩
    · exact ⟨q', (update_of_ne hi ..).trans hq', hstored⟩

variable {row : Row}

/-- An execution that ends does not touch the row of another in its window. -/
theorem Held.own (h : Held s) (hq : s.request r = some q) {d : Option ℚ}
    (hph : q.phase = .running d) (hends : ends s r q)
    (hrow : s.rows q.key = some row) : row.owner = r := by
  cases d with
  | none => exact absurd hph (h.claimed r q hq)
  | some T =>
    rcases hends T (by rw [hph]; rfl) with hnow | hown
    · rw [h.window r q T hq hph hnow] at hrow
      cases hrow
      rfl
    · exact hown row hrow

theorem Held.move (h : Held s) (hguard : Timely s e) (hmove : Move cfg s e s') : Held s' := by
  cases hmove with
  | @claims r key hnew hfree =>
    constructor
    · exact SlotMap.set_all nofun h.claimed
    · intro i q' T hq' hph hnow
      rcases SlotMap.set_cases hq' with ⟨rfl, rfl⟩ | ⟨-, hold⟩
      · obtain rfl := some.inj (Phase.running.inj hph)
        exact update_self ..
      · have hrow := h.window i q' T hold hph hnow
        have hne : q'.key ≠ key := by
          rintro rfl
          exact absurd (hfree _ hrow) (not_lt.mpr hnow)
        exact (update_of_ne hne ..).trans hrow
    · intro k row hrow
      rcases SlotMap.set_cases hrow with ⟨rfl, rfl⟩ | ⟨-, hold⟩
      · exact ⟨_, update_self .., nofun⟩
      · obtain ⟨q', hq', hstored⟩ := h.owner k row hold
        have hne : row.owner ≠ r := by
          rintro rfl
          exact nomatch hnew.symm.trans hq'
        exact ⟨q', (update_of_ne hne ..).trans hq', hstored⟩
  | refused hnew hrow hlive => exact h.put fun d hc => nomatch hc
  | @reads r q hq hph =>
    obtain ⟨row, hrow⟩ := Option.isSome_iff_exists.mp (hguard q hq)
    refine h.put fun d hc => ?_
    rw [hrow] at hc
    dsimp only [readPhase] at hc
    split at hc
    · cases hc
    · cases hc
  | @finishes r q response d hq hph =>
    have hown : ∀ {x}, s.rows q.key = some x → x.owner = r := h.own hq hph (hguard q hq)
    constructor
    · exact SlotMap.set_all nofun h.claimed
    · intro i q' T hq' hph' hnow
      rcases SlotMap.set_cases hq' with ⟨-, rfl⟩ | ⟨hi, hold⟩
      · cases hph'
      · have hrow' := h.window i q' T hold hph' hnow
        have hne : q'.key ≠ q.key := fun heq => hi (hown (heq ▸ hrow'))
        exact (update_of_ne hne ..).trans hrow'
    · intro k x hx
      rcases SlotMap.update_cases hx with ⟨-, hx⟩ | ⟨-, hold⟩
      · rw [rowAfter_owner hx]
        exact ⟨_, update_self .., fun _ d hc => nomatch hc⟩
      · obtain ⟨q', hq', hstored⟩ := h.owner k x hold
        by_cases hi : x.owner = r
        · rw [hi]
          exact ⟨_, update_self .., fun _ d hc => nomatch hc⟩
        · exact ⟨q', (update_of_ne hi ..).trans hq', hstored⟩
  | crashes hq => exact h.put fun d hc => nomatch hc
  | purges hrows =>
    refine ⟨h.claimed, ?_, ?_⟩
    · intro i q' T hq' hph hnow
      refine (hrows q'.key).trans ?_
      rw [h.window i q' T hq' hph hnow]
      exact Option.filter_some_pos (decide_eq_true hnow)
    · intro k row hrow
      have hkept := (hrows k).symm.trans hrow
      exact h.owner k row (Option.filter_eq_some_iff.mp hkept).1
  | ticks hd =>
    refine ⟨h.claimed, fun i q' T hq' hph hnow => ?_, h.owner⟩
    exact h.window i q' T hq' hph ((le_add_of_nonneg_right hd).trans hnow)

theorem Held.run {es : List Event} (h : Held s)
    (hrun : exec (guarded Timely (step cfg)) s es = some s') : Held s' :=
  exec_guarded_invariant (fun _ _ _ hinv hguard hstep =>
    hinv.move hguard (step_move hstep)) h hrun

/-! ## Stored responses -/

/-- A row with a response stays as it is to the end of its window. -/
theorem Held.stored (h : Held s) (hguard : Timely s e)
    (hmove : Move cfg s e s') (hrow : s.rows key = some row)
    (hpay : row.payload.isSome = true) (hnow : s'.now ≤ row.expires) : s'.rows key = some row := by
  cases hmove with
  | @claims r k hnew hfree =>
    have hne : key ≠ k := by
      rintro rfl
      exact absurd (hfree row hrow) (not_lt.mpr hnow)
    exact (update_of_ne hne ..).trans hrow
  | refused _ _ _ => exact hrow
  | reads _ _ => exact hrow
  | @finishes r q response d hq hph =>
    have hne : key ≠ q.key := by
      rintro rfl
      -- the execution that ends would be the one the response is of
      obtain rfl := h.own hq hph (hguard q hq) hrow
      obtain ⟨q', hq', hstored⟩ := h.owner _ row hrow
      cases hq.symm.trans hq'
      exact hstored hpay d hph
    exact (update_of_ne hne ..).trans hrow
  | crashes _ => exact hrow
  | purges hrows =>
    refine (hrows key).trans ?_
    rw [hrow]
    exact Option.filter_some_pos (decide_eq_true hnow)
  | ticks _ => exact hrow

theorem Move.now (h : Move cfg s e s') : s.now ≤ s'.now := by
  cases h with
  | claims | refused | reads | finishes | crashes | purges => exact le_refl _
  | ticks hd => exact le_add_of_nonneg_right hd

/-- Through a whole run. -/
theorem Held.kept {es : List Event} (h : Held s) (hrow : s.rows key = some row)
    (hpay : row.payload.isSome = true) (hrun : exec (guarded Timely (step cfg)) s es = some s')
    (hnow : s'.now ≤ row.expires) : s'.rows key = some row := by
  have hmoves : ∀ s e s', Held s ∧ (s.now ≤ row.expires → s.rows key = some row) →
      Timely s e → step cfg s e = some s' →
      Held s' ∧ (s'.now ≤ row.expires → s'.rows key = some row) := by
    rintro s e s' ⟨hinv, hkept⟩ hguard hstep
    have hmove := step_move hstep
    exact ⟨hinv.move hguard hmove, fun hnow' =>
      hinv.stored hguard hmove (hkept (hmove.now.trans hnow')) hpay hnow'⟩
  exact (exec_guarded_invariant hmoves ⟨h, fun _ => hrow⟩ hrun).2 hnow

/-! ## One execution at a time -/

/-- The request runs the handler under the key, and the window it claimed, if it claimed
    one, is open. -/
def Holding (s : State) (r : Nat) (key : Key) : Prop :=
  ∃ q d, s.request r = some q ∧ q.key = key ∧ q.phase = .running d ∧ ∀ T ∈ d, s.now ≤ T

/-- A response that is kept for repeats. -/
def Replayable (cfg : Config) (response : Response) : Prop :=
  response.status < 500 ∧ response.status ∉ [401, 403, 408, 409, 423, 425, 429, 449] ∧
    response.kind ∉ ["StreamingResponse", "FileResponse", "SSEResponse", "PreparedResponse"] ∧
    response.body.length ≤ cfg.maxBodyBytes

/-- The answer is the response again: its status, its body and its headers but cookies and
    those with a NUL, with a header that says so. -/
def Repeats (response answer : Response) : Prop :=
  answer.status = response.status ∧ answer.body = response.body ∧
  answer.headers = (response.headers.filter fun h => lower h.1 ≠ ascii "set-cookie" ∧
    lower h.1 ≠ ascii "set-cookie2" ∧ 0 ∉ h.1 ∧ 0 ∉ h.2)
    ++ [(ascii "idempotency-replayed", ascii "true")]

/-- A repeat that comes now does not run, and is answered with the response. -/
def Answers (cfg : Config) (s : State) (key : Key) (response : Response) : Prop :=
  (∀ r s', step cfg s (.claim r key) = some s' → (s'.request r).map Request.phase = some .reading) ∧
  ∀ r q s', s.request r = some q → q.key = key → step cfg s (.read r) = some s' →
    ∃ answer, (s'.request r).map Request.phase = some (.ended (some answer)) ∧
      Repeats response answer

theorem replayed_repeats : Repeats response (replayed (replayOf response)) := by
  refine ⟨rfl, rfl, ?_⟩
  simp [replayed, replayOf, replayableHeaders, unreplayableHeaders, Bool.and_assoc]

/-- What the end of an execution leaves under its key. -/
theorem Move.left (h : Move cfg s (.finish r response) s') (hq : s.request r = some q) :
    s'.rows q.key = rowAfter cfg s response r q.key ∧ ∃ d, q.phase = .running d := by
  cases h with
  | finishes hq' hphase =>
    cases hq.symm.trans hq'
    exact ⟨update_self .., _, hphase⟩

/-- The row of a replayable response has it, and its window is the one that was claimed. -/
theorem rowAfter_replayable (h : Replayable cfg response) : rowAfter cfg s response r key =
    some ⟨some (replayOf response), ((s.rows key).map Row.expires).getD (s.now + cfg.ttl), r⟩ := by
  have hkept : releases cfg response = false := by
    simpa [releases, retryableStatuses, uncacheableBody, Replayable, and_assoc] using h
  rw [rowAfter, hkept]
  rfl

theorem put_phase : ((s.put r q).request r).map Request.phase = some q.phase := by
  have hself : (s.put r q).request r = some q := update_self ..
  rw [hself, Option.map_some]

/-- While the row holds a response and is live, repeats get it. -/
theorem answers_of_row
    (hrow : s.rows key = some row) (hpay : row.payload = some (replayOf response))
    (hnow : s.now ≤ row.expires) : Answers cfg s key response := by
  constructor
  · intro r s' hstep
    cases step_move hstep with
    | claims hnew hfree => exact absurd (hfree row hrow) (not_lt.mpr hnow)
    | refused hnew hrow' hlive =>
      exact put_phase
  · rintro r q s' hq rfl hstep
    cases step_move hstep with
    | reads hq' hph =>
      cases hq.symm.trans hq'
      refine ⟨_, ?_, replayed_repeats⟩
      rw [put_phase, hrow, readPhase, hpay]

/-- Ten seconds for each key. -/
def tenSeconds : Config := ⟨10, 1024⟩

def failure : Response := ⟨"Response", 500, [], []⟩

def created : Response := ⟨"Response", 201, [], ascii "created"⟩

end Idempotency
