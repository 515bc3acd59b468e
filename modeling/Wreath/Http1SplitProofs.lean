import Wreath.Http1DriveProofs
import Wreath.StepSystemProofs

/-! # Splits of the stream — the same requests however they arrive

The driver loop on a beginning of the stream, then on the rest, against the loop on the
whole of it (`drain`). Along every run whose tasks act once their request has been
read, and on a stream the size limits decide alike (`LimitsClear`), it makes no
difference how the stream was split (`splits_agree`). At a limit it does
(`split_at_limit`). -/

namespace Http1Split

open ByteScan HttpHead Http1Input Http1Response Http1Conn Option List
open Http1Boundary Http1Drive StepSystem TurnLoop

section Runs

variable {β : Type} [ReadBuffer β]

/-! ## The loop over plain octets -/

/-- What the loop has before it; every turn eats of it. -/
def unreadLength (c : Conn β) : Nat := c.rx.unread.length

variable (cfg : ServerConfig) (policy : Policy) (d : Conn Bytes)

/-- `run_drive`. -/
def runDrive (c : Conn β) : Conn β := settle (driveOnce cfg policy) (unreadLength c + 1) c

/-- `run_drive` over plain octets. -/
def drain : Conn Bytes := settle (turn cfg policy) (unreadLength d + 1) d

/-- Every turn of `drain` is clear of the limits. -/
def ClearDrain : Prop := Along (turn cfg policy) (Clear cfg) (unreadLength d + 1) d

theorem turn_scans (_ : d.rx.Scans) : (turn cfg policy d).1.rx.Scans := join_scans _ []

theorem turn_eats (hscans : d.rx.Scans) (hnext : (turn cfg policy d).2 = true) :
    unreadLength (turn cfg policy d).1 < unreadLength d := by
  have heats := driveOnce_eats policy hscans hnext
  show (List.append _ []).length < _
  rw [append_eq, append_nil]
  exact heats

theorem drain_turn {d : Conn Bytes} (hscans : d.rx.Scans) :
    drain cfg policy d = if (turn cfg policy d).2 then drain cfg policy (turn cfg policy d).1
        else (turn cfg policy d).1 :=
  settle_turn unreadLength (turn_scans cfg policy) (turn_eats cfg policy) hscans

variable {cfg : ServerConfig} {policy : Policy}

theorem clearDrain_turn {d : Conn Bytes} (hscans : d.rx.Scans) :
    ClearDrain cfg policy d ↔ Clear cfg d ∧ ((turn cfg policy d).2 = true →
        ClearDrain cfg policy (turn cfg policy d).1) :=
  along_turn unreadLength (turn_scans cfg policy) (turn_eats cfg policy) hscans

variable {c : Conn β}

section

variable (hidle : Idle c)
include hidle

/-- An idle connection is not driven. -/
theorem driveOnce_idle (cfg : ServerConfig) : driveOnce cfg policy c = (c, false) := by
  rw [driveOnce]
  rcases hidle with hclose | hst | hst
  · rw [if_pos hclose]
  · rw [hst]
    split <;> rfl
  · rw [hst]
    split <;> rfl

theorem turn_idle (cfg : ServerConfig) (more : Bytes) :
    turn cfg policy (join c more) = (join c more, false) := by
  have hidle' : Idle (join c more) := hidle
  rw [turn, driveOnce_idle hidle']
  exact seen_seen more (c, false)

theorem drain_idle (cfg : ServerConfig) (policy : Policy) (more : Bytes) :
    drain cfg policy (join c more) = join c more := by
  rw [drain_turn cfg policy (join_scans c more), turn_idle hidle]
  rfl

theorem clear_of_idle (cfg : ServerConfig) : Clear cfg c := by
  rcases hidle with hclose | hst | hst
  · exact .inl hclose
  · right
    rw [hst]
    trivial
  · right
    rw [hst]
    trivial

theorem clearDrain_idle (cfg : ServerConfig) (policy : Policy) (more : Bytes) :
    ClearDrain cfg policy (join c more) := by
  refine (clearDrain_turn (join_scans c more)).mpr
    ⟨clear_of_idle (show Idle (join c more) from hidle) cfg, fun h => ?_⟩
  rw [turn_idle hidle] at h
  cases h

end

theorem alike_join (hclose : c.tx.closing = true) (more : Bytes) : Alike c (join c more) :=
  ⟨hclose, hclose, rfl, rfl⟩

variable {more : Bytes}

/-- A turn taken early, while the connection stays open: the loop ends where it would have. -/
theorem absorbed_open {r : Conn β × Bool} (h : Absorbed cfg policy more c r)
    (hclear : ClearDrain cfg policy (join c more)) (hopen : r.1.tx.closing = false) :
    drain cfg policy (join c more) = drain cfg policy (join r.1 more)
      ∧ ClearDrain cfg policy (join r.1 more) := by
  have hscans := join_scans c more
  obtain ⟨-, hrest⟩ := (clearDrain_turn hscans).mp hclear
  cases h with
  | waits h => exact ⟨by rw [h], by rw [h]; exact hclear⟩
  | same h hidle =>
    by_cases hnext : r.2 = true
    · have hflag : (turn cfg policy (join c more)).2 = true := by
        rw [h]
        exact hnext
      have hst : (turn cfg policy (join c more)).1 = join r.1 more := by
        rw [h]
        rfl
      rw [drain_turn cfg policy hscans, if_pos hflag, hst]
      rw [hst] at hrest
      exact ⟨rfl, hrest hflag⟩
    · have hnone := Bool.eq_false_iff.mpr hnext
      have hidle := hidle hnone
      rw [drain_turn cfg policy hscans, h, drain_idle hidle]
      exact ⟨if_neg hnext, clearDrain_idle hidle cfg policy more⟩
  | resumed _ h hclear' =>
    refine ⟨?_, (clearDrain_turn (join_scans _ _)).mpr ⟨hclear', ?_⟩⟩
    · rw [drain_turn cfg policy hscans, drain_turn cfg policy (join_scans r.1 more), h]
    · rw [← h]
      exact hrest
  | refused _ h => exact nomatch hopen.symm.trans h.closing

/-- A turn that closes the connection early: the loop closes it alike. -/
theorem absorbed_closed {r : Conn β × Bool}
    (h : Absorbed cfg policy more c r) (hopen : c.tx.closing = false)
    (hclose : r.1.tx.closing = true) : Alike r.1 (drain cfg policy (join c more)) := by
  have hscans := join_scans c more
  cases h with
  | waits h =>
    have : r.1.tx = c.tx := congrArg (fun d : Conn Bytes => d.tx) h
    rw [this] at hclose
    exact nomatch hopen.symm.trans hclose
  | same h _ =>
    have hdrain : drain cfg policy (join c more) = join r.1 more := by
      rw [drain_turn cfg policy hscans, h]
      show ite (r.2 = true) (drain cfg policy (join r.1 more)) _ = _
      rw [drain_idle (.inl hclose)]
      exact ite_self _
    rw [hdrain]
    exact alike_join hclose more
  | resumed hopen' _ _ => exact nomatch hopen'.symm.trans hclose
  | refused hflag h =>
    rw [drain_turn cfg policy hscans, hflag]
    exact h

/-! ## The loop over a real buffer -/

theorem runDrive_inv (inv : BoundaryInv cfg.maxHeaderCount c) (policy : Policy) :
    BoundaryInv cfg.maxHeaderCount (runDrive cfg policy c) := by
  exact settle_inv (BoundaryInv cfg.maxHeaderCount) (fun _ h => driveOnce_inv h policy) _ _ inv

/-- **THE LOOP REFINES `drain`**: the storage and the offsets of the real buffer do not show. -/
theorem runDrive_join (inv : BoundaryInv cfg.maxHeaderCount c) (policy : Policy) :
    join (runDrive cfg policy c) [] = drain cfg policy (join c []) := by
  have hlen : unreadLength (join c []) = unreadLength c := congrArg List.length (append_nil _)
  rw [drain, hlen]
  exact settle_map (f := fun c => join c [])
    (BoundaryInv cfg.maxHeaderCount) (fun _ h => driveOnce_inv h policy)
    (fun _ h => turn_seen policy h.scans) _ _ inv

theorem runDrive_idle (hidle : Idle c) (cfg : ServerConfig)
    (policy : Policy) : runDrive cfg policy c = c := by
  rw [runDrive, settle, driveOnce_idle hidle]
  rfl

/-- A callback of the event loop: the event, then `run_drive`. -/
def callback (cfg : ServerConfig) (policy : Policy) (c : Conn β) (e : Event) : Option (Conn β) :=
  (step cfg policy c e).map (runDrive cfg policy)

instance (cfg : ServerConfig) (c : Conn β) : Decidable (Clear cfg c) := by
  rw [Clear]
  cases c.rx.state <;> infer_instance

/-- **THE CONDITION ON THE STREAM**: at every turn the callback takes, the size limits
    decide the octets at hand and any beginning of them alike. -/
def LimitsClear (cfg : ServerConfig) (policy : Policy) (c : Conn β) (e : Event) : Prop :=
  ∀ c' ∈ step cfg policy c e, Along (driveOnce cfg policy) (Clear cfg) (unreadLength c' + 1) c'

instance (cfg : ServerConfig) (policy : Policy) (c : Conn β) (e : Event) :
    Decidable (LimitsClear cfg policy c e) :=
  inferInstanceAs (Decidable (∀ _ ∈ _, _))

theorem clearDrain_of_along (inv : BoundaryInv cfg.maxHeaderCount c)
    (h : Along (driveOnce cfg policy) (Clear cfg) (unreadLength c + 1) c) :
    ClearDrain cfg policy (join c []) := by
  have hlen : unreadLength (join c []) = unreadLength c := congrArg List.length (append_nil _)
  rw [ClearDrain, hlen]
  refine along_map (f := fun c => join c [])
    (BoundaryInv cfg.maxHeaderCount) (fun _ h => driveOnce_inv h policy)
    (fun _ h => turn_seen policy h.scans) ?_ _ _ inv h
  intro c' hclear
  have hnil : (join c' []).rx.unread = c'.rx.unread := append_nil _
  rw [Clear, hnil]
  exact hclear

/-! ## Events besides the stream -/

/-- Whether an event is neither a read nor a turn of the driver loop. -/
def isAct : Event → Bool
  | .read _ => false
  | .drive => false
  | _ => true

/-- What happened besides the stream. -/
def acts (events : List Event) : List Event := events.filter isAct

/-- **THE CONDITION ON THE TASKS**: the application acts, and timers fire, once the request
    at hand has been read to its end. A response started while the body is still read is left
    out too: with the whole stream in one read it starts after the verdict on the body. -/
def RequestRead (c : Conn β) (e : Event) : Prop :=
  isAct e = true → c.tx.closing = true ∨ c.rx.state = .requestRunning
      ∨ c.rx.state = .websocket ∧ c.tx.wsMode = true

instance (c : Conn β) (e : Event) : Decidable (RequestRead c e) :=
  inferInstanceAs (Decidable (_ → _))

variable {e : Event}

omit [ReadBuffer β] in
theorem RequestRead.idle (h : RequestRead c e) (hact : isAct e = true) : Idle c := by
  rcases h hact with hclose | hrun | ⟨hws, -⟩
  · exact .inl hclose
  · exact .inr (.inl hrun)
  · exact .inr (.inr hws)

omit [ReadBuffer β] in
/-- A task that ends then has its body taken. -/
theorem RequestRead.bodyTaken (h : RequestRead c e) : BodyTaken c e := by
  cases e with
  | done outcome =>
    intro hturns
    rcases h rfl with hclose | hrun | ⟨-, hws⟩
    · cases outcome <;> simp [turnsOver, hclose] at hturns
    · exact hrun
    · cases outcome <;> simp [turnsOver, hws] at hturns
  | _ => trivial

theorem applyOutcome_join (cfg : ServerConfig) (outcome : Outcome) (more : Bytes) :
    applyOutcome cfg (join c more) outcome = join (applyOutcome cfg c outcome) more := by
  have htx : (join c more).tx = c.tx := rfl
  unfold applyOutcome
  rw [htx]
  simp only
  split
  · rfl
  · rfl
  · split <;> rfl

omit [ReadBuffer β] in
theorem applyOutcome_frame (cfg : ServerConfig) (outcome : Outcome) :
    (applyOutcome cfg c outcome).rx.requests = c.rx.requests
      ∧ (applyOutcome cfg c outcome).rx.verdict = c.rx.verdict
      ∧ (applyOutcome cfg c outcome).rx.task = false := by
  unfold applyOutcome
  simp only
  split
  · exact ⟨rfl, rfl, rfl⟩
  · exact ⟨rfl, rfl, rfl⟩
  · split <;> exact ⟨rfl, rfl, rfl⟩

/-- What is not the stream does not see the stream. -/
theorem step_join (hact : isAct e = true) (cfg : ServerConfig)
    (policy : Policy) (c : Conn β) (more : Bytes) :
    step cfg policy (join c more) e = (step cfg policy c e).map (fun c' => join c' more) := by
  cases e with
  | read | drive => cases hact
  | app call =>
    rw [step, step]
    show ite (c.rx.requests = []) _ _ = _
    split <;> rfl
  | done outcome =>
    rw [step, step, applyOutcome_join]
    show ite (c.rx.task = true) _ _ = _
    split <;> rfl
  | sendfile | eof | connectionLost | shutdown => rfl
  | deadline =>
    rw [step, step]
    show ite (c.tx.closing = true) _ _ = _
    split <;> rfl
  | stopAccepting =>
    rw [step, step]
    show ite (c.rx.state = .readingHead ∧ c.rx.task = false) _ _ = _
    split <;> rfl

/-- Whether a task is left. -/
def taskAfter : Event → Bool → Bool
  | .done _, _ => false
  | _, task => task

variable {c' : Conn β}

/-- What an event can still change on a closing connection. -/
theorem step_closed (hclose : c.tx.closing = true) (h : step cfg policy c e = some c') :
    observe c' = observe c ∧ c'.rx.task = taskAfter e c.rx.task := by
  have hwire : c'.tx.wire = c.tx.wire := (step_shut ⟨hclose, rfl⟩ h).2
  have hquiet : c'.rx = c.rx → observe c' = observe c ∧ c'.rx.task = c.rx.task := by
    intro hrx
    rw [observe, observe, hrx, hwire]
    exact ⟨rfl, rfl⟩
  revert h
  fun_cases step cfg policy c e with
  | case2 | case5 | case8 => rintro ⟨⟩
  | case3 _ hopen => exact absurd hclose hopen
  | case4 =>
    rw [driveOnce, if_pos hclose]
    exact fun h => hquiet (some.inj h ▸ rfl)
  | case7 outcome =>
    rintro ⟨⟩
    obtain ⟨hreqs, hverd, htask⟩ := applyOutcome_frame cfg outcome
    rw [observe, observe, hreqs, hverd, hwire]
    exact ⟨rfl, htask⟩
  | _ => exact fun h => hquiet (some.inj h ▸ rfl)

/-! ## Runs that agree -/

/-- A run `c` with `more` of the stream to come, and the run `w` that had all of it from the start:
    `w` is where the loop takes `c` on the rest of the stream, or both are closed alike. -/
structure Agree (cfg : ServerConfig) (policy : Policy) (more : Bytes) (c w : Conn β) : Prop where
  inv : BoundaryInv cfg.maxHeaderCount c
  inv' : BoundaryInv cfg.maxHeaderCount w
  ahead : c.tx.closing = false → join w [] = drain cfg policy (join c more)
      ∧ ClearDrain cfg policy (join c more)
  closed : c.tx.closing = true → Alike c w

variable {w : Conn β}

/-- A read puts its octets behind those at hand, and does nothing else. -/
theorem read_join {op : ReadOp} (hsound : ReadBuffer.Sound c.rx.input)
    (hopen : c.tx.closing = false) (h : step cfg policy c (.read op) = some c') :
    c'.tx = c.tx ∧ ∀ more, join c' more = join c (op.payload ++ more) := by
  rw [step, hopen, if_neg Bool.false_ne_true] at h
  split at h
  · cases h
  rename_i input hin
  cases h
  obtain ⟨-, hunread⟩ := ReadBuffer.ingest_unread _ _ _ hsound hin
  refine ⟨rfl, fun more => ?_⟩
  show { join c more with rx := { joinRx c.rx more with
    input := ReadBuffer.unread input ++ more } } = _
  rw [hunread, append_assoc]
  rfl

theorem Agree.read {op : ReadOp} (h : Agree cfg policy (op.payload ++ more) c w)
    (hstep : step cfg policy c (.read op) = some c') : Agree cfg policy more c' w := by
  have inv := step_inv h.inv (show BodyTaken c (.read op) from trivial) hstep
  by_cases hclose : c.tx.closing = true
  · rw [step, if_pos hclose] at hstep
    cases hstep
    exact ⟨h.inv, h.inv', fun hopen => (by cases hopen.symm.trans hclose), h.closed⟩
  · have hopen := Bool.eq_false_iff.mpr hclose
    obtain ⟨htx, hjoin⟩ := read_join h.inv.sound hopen hstep
    refine ⟨inv, h.inv', fun _ => ?_, fun hc => absurd (htx ▸ hc) hclose⟩
    rw [hjoin]
    exact h.ahead hopen

theorem Agree.drive (h : Agree cfg policy more c w) :
    Agree cfg policy more (driveOnce cfg policy c).1 w := by
  have inv := driveOnce_inv h.inv policy
  by_cases hclose : c.tx.closing = true
  · rw [driveOnce_idle (.inl hclose)]
    exact h
  have hopen := Bool.eq_false_iff.mpr hclose
  obtain ⟨hahead, hclear⟩ := h.ahead hopen
  have habsorbed := driveOnce_absorbed policy h.inv.scans hopen
    ((clearDrain_turn (join_scans c more)).mp hclear).1
  refine ⟨inv, h.inv', fun hopen' => ?_, fun hclose' => ?_⟩
  · obtain ⟨hdrain, hclear'⟩ := absorbed_open habsorbed hclear hopen'
    exact ⟨hahead.trans hdrain, hclear'⟩
  · have halike := absorbed_closed habsorbed hopen hclose'
    rw [← hahead] at halike
    exact ⟨hclose', halike.closing', halike.task, halike.observed⟩

theorem Agree.act {w' : Conn β} (h : Agree cfg policy more c w)
    (hact : isAct e = true) (hread : RequestRead c e) (hstep : step cfg policy c e = some c')
    (hclear : LimitsClear cfg policy w e) (hstep' : callback cfg policy w e = some w') :
    Agree cfg policy more c' w' := by
  obtain ⟨w₁, hw₁, rfl⟩ := map_eq_some_iff.mp hstep'
  have inv := step_inv h.inv hread.bodyTaken hstep
  by_cases hclose : c.tx.closing = true
  · have halike := h.closed hclose
    have hread' : RequestRead w e := fun _ => .inl halike.closing'
    have inv' := step_inv h.inv' hread'.bodyTaken hw₁
    have hclose₁ := step_closing halike.closing' hw₁
    obtain ⟨hobserved, htask⟩ := step_closed hclose hstep
    obtain ⟨hobserved', htask'⟩ := step_closed halike.closing' hw₁
    have hclose' := step_closing hclose hstep
    rw [runDrive_idle (.inl hclose₁)]
    refine ⟨inv, inv', fun hopen => (nomatch hopen.symm.trans hclose'),
      fun _ => ⟨hclose', hclose₁, ?_, ?_⟩⟩
    · rw [htask, htask', halike.task]
    · rw [hobserved, hobserved', halike.observed]
  · have hopen := Bool.eq_false_iff.mpr hclose
    have hidle := hread.idle hact
    -- nothing is driven before the request is answered, on either side
    have hsame : join w [] = join c more := by
      rw [(h.ahead hopen).1, drain_idle hidle]
    have hsame₁ : join w₁ [] = join c' more := by
      have hc := step_join hact cfg policy c more
      have hw := step_join hact cfg policy w []
      rw [hstep] at hc
      rw [hw₁, hsame, hc] at hw
      exact (some.inj hw).symm
    have hread' : RequestRead w e := by
      have htx : w.tx = c.tx := congrArg (fun d : Conn Bytes => d.tx) hsame
      have hst : w.rx.state = c.rx.state := congrArg (fun d : Conn Bytes => d.rx.state) hsame
      rw [RequestRead, htx, hst]
      exact hread
    have inv₁ := step_inv h.inv' hread'.bodyTaken hw₁
    refine ⟨inv, runDrive_inv inv₁ policy, fun hopen' => ?_, fun hclose' => ?_⟩
    · rw [runDrive_join inv₁, hsame₁]
      refine ⟨rfl, ?_⟩
      rw [← hsame₁]
      exact clearDrain_of_along inv₁ (hclear w₁ hw₁)
    · have htx : w₁.tx = c'.tx := congrArg (fun d : Conn Bytes => d.tx) hsame₁
      have hclose₁ : w₁.tx.closing = true := by rw [htx]; exact hclose'
      rw [runDrive_idle (.inl hclose₁)]
      have halike : Alike c' (join w₁ []) := by
        rw [hsame₁]
        exact alike_join hclose' more
      exact ⟨hclose', hclose₁, halike.task, halike.observed⟩

/-- **WHOLE RUNS AGREE.** -/
theorem exec_agree (events : List Event) {c c' w w' : Conn β}
    (h : Agree cfg policy (received events) c w)
    (hrun : exec (guarded RequestRead (step cfg policy)) c events = some c')
    (hwhole : exec (guarded (LimitsClear cfg policy) (callback cfg policy)) w (acts events)
      = some w') : Agree cfg policy [] c' w' := by
  fun_induction exec (guarded RequestRead (step cfg policy)) c events generalizing w with
  | case1 =>
    cases hrun
    cases hwhole
    exact h
  | case2 => cases hrun
  | case3 c e events c₁ hguarded ih =>
    obtain ⟨hread, hstep⟩ := guarded_some hguarded
    by_cases hact : isAct e = true
    · have hrecv : received (e :: events) = received events := by
        cases e <;> first | rfl | cases hact
      rw [hrecv] at h
      rw [acts, filter_cons_of_pos hact, exec] at hwhole
      split at hwhole
      · cases hwhole
      rename_i w₁ hguarded'
      obtain ⟨hclear, hstep'⟩ := guarded_some hguarded'
      exact ih (h.act hact hread hstep hclear hstep') hrun hwhole
    · cases e with
      | read op => exact ih (Agree.read h hstep) hrun hwhole
      | drive =>
        cases hstep
        exact ih (Agree.drive h) hrun hwhole
      | _ => exact absurd rfl hact

/-- **HOWEVER THE STREAM IS SPLIT**: the requests, their bodies, the refusal and the
    statuses sent are those of the run that reads the whole stream at once. -/
theorem splits_agree (cfg : ServerConfig) (policy : Policy) (input : β)
    (hsound : ReadBuffer.Sound input) (events : List Event) (c : Conn β)
    (hrun : exec (guarded RequestRead (step cfg policy)) (Conn.fresh input) events = some c)
    (op : ReadOp) (hop : op.payload = received events) (w : Conn β)
    (hwhole : exec (guarded (LimitsClear cfg policy) (callback cfg policy))
      (Conn.fresh input) (.read op :: acts events) = some w) :
    observe (runDrive cfg policy c) = observe w := by
  have hstart := boundaryInv_fresh cfg.maxHeaderCount hsound
  rw [exec] at hwhole
  split at hwhole
  · cases hwhole
  rename_i w₀ hguarded
  obtain ⟨hclear, hfirst⟩ := guarded_some hguarded
  obtain ⟨w₁, hw₁, rfl⟩ := map_eq_some_iff.mp hfirst
  have inv₁ := step_inv hstart (show BodyTaken (Conn.fresh input) (.read op) from trivial) hw₁
  -- the one read puts the whole stream before the loop
  have hjoin : join w₁ [] = join (Conn.fresh input) (received events) := by
    rw [(read_join hsound rfl hw₁).2, append_nil, hop]
  have hagree : Agree cfg policy (received events) (Conn.fresh input)
      (runDrive cfg policy w₁) := by
    refine ⟨hstart, runDrive_inv inv₁ policy, fun _ => ?_, fun hclosing => by cases hclosing⟩
    rw [runDrive_join inv₁, ← hjoin]
    exact ⟨rfl, clearDrain_of_along inv₁ (hclear w₁ hw₁)⟩
  have hend := exec_agree events hagree hrun hwhole
  by_cases hclosing : c.tx.closing = true
  · rw [runDrive_idle (.inl hclosing)]
    exact (hend.closed hclosing).observed.symm
  · have hahead := (hend.ahead (Bool.eq_false_iff.mpr hclosing)).1
    rw [← runDrive_join hend.inv] at hahead
    exact (congrArg (fun d : Conn Bytes => observe d) hahead).symm

end Runs

/-! ## A stream in pieces -/

/-- A chunked upload, and the first octets of a line that is too long. -/
def uploadStream : Bytes :=
  ascii "POST / HTTP/1.1\r\nHost: x\r\nTransfer-Encoding: chunked\r\n\r\n"
    ++ ascii "5\r\nhello\r\n0\r\n\r\n" ++ List.replicate 65 88

/-- The stream cut inside the blank line, a chunk and its CRLF. -/
def uploadPieces : List Event :=
  [.read (.dataReceived (uploadStream.take 55)), .drive, .read (.prepareRead true),
    .read (.commitRead ((uploadStream.drop 55).take 7)), .drive,
    .read .release, .drive,
    .read (.dataReceived ((uploadStream.drop 62).take 4)), .drive,
    .read (.dataReceived (uploadStream.drop 66)), .drive, .drive, .drive,
    .app (.response (some 200) (.items []) (ascii "ok")),
    .done .returned]

/-- Limits of 64 octets for a line. -/
def shortLines : ServerConfig := { plainConfig with maxRequestLine := 64, limits_pos := by decide }

/-- One upload of five octets, answered; then a line refused. -/
theorem uploadPieces_agree : ∃ c w, exec (guarded RequestRead (step shortLines Policy.open))
        (Conn.fresh InputBuffer.empty) uploadPieces = some c
      ∧ exec (guarded (LimitsClear shortLines Policy.open)
          (callback shortLines Policy.open)) (Conn.fresh InputBuffer.empty)
        (.read (.dataReceived (received uploadPieces)) :: acts uploadPieces) = some w
      ∧ (observe w).requests.map RequestLog.body = [ascii "hello"]
      ∧ (observe w).verdict = some 414
      ∧ observe (runDrive shortLines Policy.open c) = observe w := by
  refine runs_end (fun _ w => ((observe w).requests.map RequestLog.body, (observe w).verdict))
    ([ascii "hello"], some 414) (by decide +kernel) fun c w hrun hwhole hseen => ?_
  obtain ⟨hbodies, hverdict⟩ := Prod.mk.inj hseen
  exact ⟨hbodies, hverdict, splits_agree shortLines Policy.open InputBuffer.empty
    InputBuffer.sound_empty uploadPieces c hrun (.dataReceived (received uploadPieces)) rfl
    w hwhole⟩

/-! ## At the limit -/

/-- A limit of exactly the length of the request line below. -/
def tightLine : ServerConfig := { plainConfig with maxRequestLine := 14, limits_pos := by decide }

def tightHead : Bytes := ascii "GET / HTTP/1.1\r\nHost: x\r\n\r\n"

/-- The head cut between the CR and the LF of its request line. -/
def tightPieces : List Event := [.read (.dataReceived (tightHead.take 15)), .drive,
    .read (.dataReceived (tightHead.drop 15)), .drive]

/-- **AT THE LIMIT**: a request line of exactly the limit is accepted in one read and
    refused with 414 when a read ends between its CR and its LF, which count against the
    limit while the line is unfinished. -/
theorem split_at_limit : ∃ c w, exec (guarded RequestRead (step tightLine Policy.open))
        (Conn.fresh InputBuffer.empty) tightPieces = some c
      ∧ exec (callback tightLine Policy.open) (Conn.fresh InputBuffer.empty)
        (.read (.dataReceived (received tightPieces)) :: acts tightPieces) = some w
      ∧ observe (runDrive tightLine Policy.open c)
        = { requests := [], verdict := some 414, statuses := [414] }
      ∧ (observe w).verdict = none ∧ (observe w).statuses = []
      ∧ (observe w).requests.length = 1 := by
  refine runs_end (fun c w => (observe (runDrive tightLine Policy.open c), (observe w).verdict,
      (observe w).statuses, (observe w).requests.length))
    (⟨[], some 414, [414]⟩, none, [], 1) (by decide +kernel) fun c w _ _ hseen => ?_
  simpa only [Prod.mk.injEq] using hseen

end Http1Split
