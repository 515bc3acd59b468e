import Wreath.Http1CallsProofs
import Wreath.Http1ConnProofs

/-! # Response framing — what follows each head

Every response but the last is followed by exactly what its head declares; the last one by a
part of it, and by all of it unless it is still being sent or the connection closes
(`responses_framed`). In the runs at hand the entry points that do not check their own
protocol are called as the library calls them, and a body sent together with its head is no
longer than declared (`InOrder`, `body_beyond_length`). -/

namespace Http1Framing

open ByteScan HttpHead ChunkedCoding Http1Input Http1Response Http1Conn List Option
open Http1Transcript Http1Encoder Http1Calls StepSystem

variable {cfg : ServerConfig}

section Invariant

variable {β : Type} [ReadBuffer β]

/-! ## Runs in order -/

/-- The steps the encoder can rely on: calls in order, and no task that returns over a start
    that failed. -/
def InOrder (cfg : ServerConfig) (c : Conn β) : Event → Prop
  | .app call => c.tx.closing = true ∨ CallInOrder cfg c.tx call
  | .done outcome =>
    c.tx.closing = true ∨ outcome ≠ .returned
      ∨ c.tx.responseStarted = false ∨ c.tx.responseComplete = true
      ∨ c.tx.headWritten = true ∨ c.tx.draft.statusLine = true
  | _ => True

instance (cfg : ServerConfig) (c : Conn β) : (e : Event) → Decidable (InOrder cfg c e)
  | .app _ | .done _ => inferInstanceAs (Decidable (_ ∨ _))
  | .read _ | .drive | .sendfile _ | .deadline | .eof | .connectionLost | .stopAccepting
  | .shutdown => isTrue trivial

/-- The policies' replies are no longer than the length they declare. -/
def PolicyFits (policy : Policy) : Prop :=
  ∀ index head reply, policy.ingress index head = some reply
      ∨ policy.websocketOrigin index head = some reply →
    ∀ n ∈ declaredLength reply.headers, reply.body.length ≤ n

/-! ## The invariant -/

/-- Between two requests: nothing sent yet, or a complete response. -/
structure Between (c : Conn β) : Prop where
  settled : (c.rx.requests = [] ∧ c.tx.responseStarted = false)
    ∨ (c.tx.responseStarted = true ∧ c.tx.responseComplete = true)
  next : c.tx.wantNext = false
  http : c.tx.wsMode = false

/-- The response half keeps its invariant, and a connection with no task is between two requests. -/
structure ConnInv (c : Conn β) : Prop where
  tx : TxInv c.tx
  between : c.tx.closing = false → c.rx.task = false → Between c
  head : c.tx.closing = false → c.rx.state = .readingHead → c.rx.task = false

variable {c : Conn β}

omit [ReadBuffer β] in
/-- A closing connection only has to keep its wire. -/
theorem connInv_of_closing (h : TxInv c.tx) (hclose : c.tx.closing = true) : ConnInv c :=
  ⟨h, fun hopen => flag_absurd hopen hclose, fun hopen => flag_absurd hopen hclose⟩

omit [ReadBuffer β] in
/-- A step of the request half that starts no request. -/
theorem ConnInv.rx (h : ConnInv c) {rx : Rx β} (hreqs : rx.requests = [] ↔ c.rx.requests = [])
    (htask : rx.task = c.rx.task) (hst : rx.state = .readingHead → c.rx.state = .readingHead) :
    ConnInv { c with rx := rx } := by
  refine ⟨h.tx, fun hopen hidle => ?_, fun hopen hhead => ?_⟩
  · obtain ⟨hset, hnext, hhttp⟩ := h.between hopen (htask.symm.trans hidle)
    rcases hset with hfirst | hdone
    · exact ⟨.inl ⟨hreqs.mpr hfirst.1, hfirst.2⟩, hnext, hhttp⟩
    · exact ⟨.inr hdone, hnext, hhttp⟩
  · exact htask.trans (h.head hopen (hst hhead))

omit [ReadBuffer β] in
theorem connInv_fresh (input : β) : ConnInv (Conn.fresh input) := by
  have hready : Ready (Conn.fresh input).tx :=
    ⟨fun _ => ⟨rfl, rfl, rfl⟩, nofun, nofun, nofun, fun _ => rfl, nofun, fun _ => rfl, nofun, nofun⟩
  exact ⟨(AtRest.encoder ⟨[], rfl, nofun⟩ hready nofun).inv,
    fun _ _ => ⟨.inl ⟨rfl, rfl⟩, rfl, rfl⟩, fun _ _ => rfl⟩

variable {tx : Tx}

/-! ## The drivers -/

omit [ReadBuffer β] in
theorem ConnInv.refuseBody (h : ConnInv c) (cfg : ServerConfig) (status : Nat)
    (hforbids : statusForbidsBody status = false) : ConnInv (c.refuseBody cfg status) := by
  refine connInv_of_closing ?_ (Conn.refuseBody_closing cfg c status)
  exact sendError_inv hforbids (.inl rfl) (h.tx.withFlags c.tx.accepting c.tx.disconnected true) cfg

theorem driveFixedBody_framed (h : ConnInv c) : ConnInv (driveFixedBody c).1 := by
  fun_cases driveFixedBody c with
  | case1 => exact h
  | case2 => exact h.rx deliver_eq_nil rfl id
  | case3 => exact h.rx deliver_eq_nil rfl (by rintro ⟨⟩)

theorem driveChunkSize_framed (h : ConnInv c) : ConnInv (driveChunkSize cfg c).1 := by
  have hwait : ConnInv { c with rx := { c.rx with
      chunkLineScan := (findSubFrom c.rx.unread crlf
        c.rx.chunkLineScan).2 } } := h.rx Iff.rfl rfl id
  fun_cases driveChunkSize cfg c with
  | case1 | case3 => exact hwait.refuseBody cfg 400 rfl
  | case2 => exact hwait
  | case4 | case7 => exact h.rx Iff.rfl rfl (by rintro ⟨⟩)
  | case5 | case6 =>
    refine ConnInv.refuseBody ?_ cfg 413 rfl
    exact h.rx Iff.rfl rfl id

theorem driveChunkData_framed (h : ConnInv c) : ConnInv (driveChunkData cfg c).1 := by
  rw [driveChunkData]
  simp only
  split
  · exact h
  generalize htake : c.rx.takeChunk (min c.rx.chunkRemaining c.rx.unread.length) = rx
  have htaken : ConnInv { c with rx := rx } := by
    rw [← htake, Rx.takeChunk]
    split
    · exact h.rx Iff.rfl rfl id
    · exact h.rx deliver_eq_nil rfl id
  split
  · exact htaken
  split
  · exact htaken
  split
  · exact htaken.refuseBody cfg 400 rfl
  · exact htaken.rx Iff.rfl rfl nofun

theorem driveChunkTrailers_framed (h : ConnInv c) : ConnInv (driveChunkTrailers cfg c).1 := by
  have hwait : ConnInv { c with rx := { c.rx with
      trailerTerminatorScan := (findSubFrom c.rx.unread blankLine
        c.rx.trailerTerminatorScan).2 } } := h.rx Iff.rfl rfl id
  fun_cases driveChunkTrailers cfg c with
  | case1 => exact h.rx deliver_eq_nil rfl (by rintro ⟨⟩)
  | case2 => exact hwait.refuseBody cfg 431 rfl
  | case3 => exact hwait
  | case4 => exact hwait.rx deliver_eq_nil rfl (by rintro ⟨⟩)
  | case5 => exact hwait.refuseBody cfg 400 rfl

/-! ### Heads -/

/-- A connection between two requests, as the head driver finds it. -/
structure Idle (tx : Tx) : Prop where
  opened : tx.closing = false
  rest : AtRest tx
  file : tx.fileActive = false
  next : tx.wantNext = false
  http : tx.wsMode = false
  ready : Ready tx
  done : tx.headWritten = true → tx.responseComplete = true

omit [ReadBuffer β] in
theorem ConnInv.idle (h : ConnInv c) (hopen : c.tx.closing = false) (hidle : c.rx.task = false) :
    Idle c.tx := by
  have henc := h.tx.opened hopen
  have hbetw := h.between hopen hidle
  have hdone : c.tx.headWritten = true → c.tx.responseComplete = true := by
    intro hw
    rcases hbetw.settled with hfirst | hdone
    · exact flag_absurd hfirst.2 (henc.ready.started hw)
    · exact hdone.2
  refine ⟨hopen, henc.atRest hdone, ?_, hbetw.next, hbetw.http, henc.ready, hdone⟩
  rw [← Bool.not_eq_true]
  intro hf
  cases hw : c.tx.headWritten with
  | false => exact flag_absurd (henc.ready.unwritten hw).2.1 hf
  | true => exact flag_absurd (henc.ready.file hf) (hdone hw)

/-- The state a request starts from: an unanswered request. -/
theorem Idle.reset (h : Idle tx) (http11 isHead keepAlive disconnected : Bool)
    {wire : List Wire} (hwire : AtRest { tx with wire := wire }) :
    Encoder (resetResponseState { tx.answering http11 isHead with
      wire := wire, disconnected := disconnected } keepAlive) := by
  refine AtRest.encoder hwire ⟨fun _ => ⟨rfl, h.file, rfl⟩, nofun, flag_absurd h.file,
    flag_absurd h.next, fun _ => rfl, nofun, fun _ => ?_, nofun, flag_absurd h.http⟩ nofun
  show isHead = (isHead || (false && _))
  rw [Bool.false_and, Bool.or_false]

variable {status : Nat}

omit [ReadBuffer β] in
/-- A head refused before its request counts. -/
theorem refuse_framed (hrest : AtRest c.tx) (hopen : c.tx.closing = false)
    {asked : Asked} (hforbids : statusForbidsBody status = false) (hasked : Asked.Fits asked c.tx) :
    ConnInv (c.refuse cfg status asked) :=
  connInv_of_closing (sendError_atRest hforbids hasked hrest hopen)
    (Conn.refuse_closing cfg c status asked)

omit [ReadBuffer β] in
/-- A policy's reply is framed like any other, and closes. -/
theorem sendPolicyReply_framed (h : Idle c.tx) (http11 isHead keepAlive : Bool)
    {reply : PolicyReply} (hfits : ∀ n ∈ declaredLength reply.headers, reply.body.length ≤ n) :
    ConnInv (sendPolicyReply cfg { c with tx := c.tx.answering http11 isHead } keepAlive reply) := by
  refine connInv_of_closing ?_ (sendPolicyReply_closing cfg _ _ _)
  have henc : Encoder { resetResponseState (c.tx.answering http11 isHead) keepAlive with
      responseKeepAlive := false } := h.reset http11 isHead false c.tx.disconnected h.rest
  have hbegin := begin_inv henc rfl h.http cfg (some reply.status) (.items reply.headers)
  rw [sendPolicyReply]
  split
  · rename_i heq
    rw [heq] at hbegin
    exact hbegin.close
  · rename_i tx heq
    have hsized : ∀ code ∈ some reply.status, ReplyFits cfg
        { resetResponseState (c.tx.answering http11 isHead) keepAlive with
          responseKeepAlive := false } code (.items reply.headers) reply.body :=
      fun _ _ _ n hn => hfits n hn
    have hreply := reply_inv henc h.opened rfl h.http hsized heq
    split
    · rename_i hbody
      rw [hbody] at hreply
      exact hreply.close
    · rename_i hbody
      rw [hbody] at hreply
      exact hreply

omit [ReadBuffer β] in
/-- A request that starts is unanswered. -/
theorem startRequest_framed (h : Idle c.tx) (http11 isHead : Bool) (head : RequestHead) :
    ConnInv (startRequest { c with tx := c.tx.answering http11 isHead } head) := by
  have hinterim : AtRest { c.tx with wire := c.tx.wire ++ [.interim] } := by
    obtain ⟨past, hwire, hpast⟩ := h.rest
    exact ⟨_, transcript_snoc hwire .interim, delivered_snoc hpast (delivered_interim rfl)⟩
  have htx : Encoder (startRequest { c with tx := c.tx.answering http11 isHead } head).tx := by
    rw [startRequest]
    simp only
    split
    · have hopen : (c.tx.answering http11 isHead).closing = false := h.opened
      rw [emit_open hopen]
      exact h.reset http11 isHead head.info.keepAlive false hinterim
    · exact h.reset http11 isHead head.info.keepAlive false h.rest
  refine ⟨htx.inv, nofun, fun _ hhead => ?_⟩
  have hst : bodyState head.info = .readingHead := hhead
  rw [bodyState] at hst
  split at hst
  · cases hst
  · split at hst <;> cases hst
  · cases hst

variable {head : RequestHead}

theorem headRefusal_forbids (href : Refusal head.info.errStatus)
    (h : headRefusal cfg head = some status) : statusForbidsBody status = false := by
  revert h
  fun_cases headRefusal cfg head with
  | case1 | case2 =>
    rintro ⟨⟩
    rfl
  | case3 _ _ hne =>
    rintro ⟨⟩
    rcases href with hzero | h400 | h417
    · exact absurd hzero hne
    · rw [h400]
      rfl
    · rw [h417]
      rfl
  | case4 => rintro ⟨⟩

theorem websocketRefusal_forbids (h : websocketRefusal head = some status) :
    statusForbidsBody status = false := by
  revert h
  fun_cases websocketRefusal head with
  | case3 => rintro ⟨⟩
  | _ =>
    rintro ⟨⟩
    rfl

variable {policy : Policy}

omit [ReadBuffer β] in
/-- `begin_request` keeps the invariant. -/
theorem beginRequest_framed (h : Idle c.tx) (hpol : PolicyFits policy)
    (href : Refusal head.info.errStatus) : ConnInv (beginRequest cfg policy c head).1 := by
  have hrefuse : ∀ {status}, statusForbidsBody status = false → ConnInv (Conn.refuse cfg
      { c with tx := c.tx.answering (head.minorVersion == 1) (head.method == ascii "HEAD") }
      status (.accepted (head.method == ascii "HEAD"))) := by
    intro status hforbids
    refine refuse_framed ?_ ?_ hforbids (.inl rfl)
    · exact h.rest
    · exact h.opened
  fun_cases beginRequest cfg policy c head with
  | case1 _ _ status heq => exact hrefuse (headRefusal_forbids href heq)
  | case2 _ _ _ _ reply heq =>
    exact sendPolicyReply_framed h _ _ _ (hpol _ _ _ (.inl heq))
  | case3 _ _ _ _ _ _ reply heq =>
    exact sendPolicyReply_framed h _ _ _ (hpol _ _ _ (.inr heq))
  | case4 => exact hrefuse rfl
  | case5 _ _ _ _ _ _ _ _ status heq => exact hrefuse (websocketRefusal_forbids heq)
  | case6 =>
    refine ⟨Encoder.inv (AtRest.encoder h.rest ⟨h.ready.unwritten, h.ready.started, h.ready.file,
      h.ready.next, h.ready.undeclared, h.ready.draft, (by rintro ⟨⟩), fun _ => h.done,
      fun _ => rfl⟩ h.done), fun _ h => (by cases h), fun _ h => (by cases h)⟩
  | case7 => exact startRequest_framed h _ _ head

/-- The head driver keeps the invariant. -/
theorem driveHead_framed (h : ConnInv c) (hpol : PolicyFits policy) (hopen : c.tx.closing = false)
    (hst : c.rx.state = .readingHead) : ConnInv (driveHead cfg policy c).1 := by
  have hidle := h.idle hopen (h.head hopen hst)
  have hrefuse : ∀ (rx : Rx β) (status : Nat) (isHead : Bool), statusForbidsBody status = false →
      ConnInv (Conn.refuse cfg { c with rx := rx } status (.refused isHead)) := by
    intro rx status isHead hforbids
    refine refuse_framed ?_ ?_ hforbids (.inr ⟨isHead, rfl⟩)
    · exact hidle.rest
    · exact hopen
  have hwait : ∀ (headScan lineScan : Nat), ConnInv { c with rx :=
      { c.rx with headTerminatorScan := headScan
                  requestLineScan := lineScan } } :=
    fun _ _ => h.rx Iff.rfl rfl id
  fun_cases driveHead cfg policy c with
  | case2 | case5 | case10 => exact hwait _ _
  | case12 _ _ _ _ _ _ _ _ _ head hparse =>
    refine beginRequest_framed ?_ hpol (httpParseRequestParts_refusal hparse)
    exact { hidle with ready := { hidle.ready with } }
  | _ => exact hrefuse _ _ _ rfl

theorem driveOnce_framed (h : ConnInv c) (hpol : PolicyFits policy) :
    ConnInv (driveOnce cfg policy c).1 := by
  rw [driveOnce]
  split
  · exact h
  rename_i hclose
  have hopen : c.tx.closing = false := by simpa using hclose
  split
  · rename_i hst
    exact driveHead_framed h hpol hopen hst
  · exact driveFixedBody_framed h
  · exact driveChunkSize_framed h
  · exact driveChunkData_framed h
  · exact driveChunkTrailers_framed h
  · exact h
  · exact h

/-! ## Tasks and callbacks -/

omit [ReadBuffer β] in
/-- A step of the response half that leaves the request half alone. -/
theorem ConnInv.withTx (h : ConnInv c) (hinv : TxInv tx)
    (hbetw : tx.closing = false → c.tx.closing = false
      ∧ tx.responseStarted = c.tx.responseStarted
      ∧ tx.responseComplete = c.tx.responseComplete
      ∧ tx.wantNext = c.tx.wantNext ∧ tx.wsMode = c.tx.wsMode) : ConnInv { c with tx := tx } := by
  refine ⟨hinv, fun hopen hidle => ?_, fun hopen hhead => ?_⟩
  · obtain ⟨hopen', hstart, hcomp, hnext, hws⟩ := hbetw hopen
    obtain ⟨hset, hnext', hws'⟩ := h.between hopen' hidle
    refine ⟨?_, hnext.trans hnext', hws.trans hws'⟩
    rcases hset with hfirst | hdone
    · exact .inl ⟨hfirst.1, hstart.trans hfirst.2⟩
    · exact .inr ⟨hstart.trans hdone.1, hcomp.trans hdone.2⟩
  · exact h.head (hbetw hopen).1 hhead

omit [ReadBuffer β] in
/-- An application call in order keeps the invariant. -/
theorem app_framed (h : ConnInv c) {call : AppCall} (hreqs : c.rx.requests ≠ [])
    (horder : InOrder cfg c (.app call)) : ConnInv { c with tx := (appCall cfg c.tx call).1 } := by
  cases hopen : c.tx.closing with
  | true =>
    have hshut := appCall_shut ⟨hopen, rfl⟩ cfg call
    exact connInv_of_closing (txInv_of_shut h.tx.closed hshut) hshut.1
  | false =>
    have horder : CallInOrder cfg c.tx call := by
      rcases horder with hclose | horder
      · exact flag_absurd hopen hclose
      · exact horder
    have hinv := appCall_inv h.tx horder
    refine ⟨hinv, fun hstill hidle => ?_, fun _ hhead => h.head hopen hhead⟩
    obtain ⟨hset, hnext, hws⟩ := h.between hopen hidle
    rcases hset with hfirst | hdone
    · exact absurd hfirst.1 hreqs
    rcases appCall_settles hdone.1 hdone.2 horder with hclose | ⟨accepted, wire, hsame⟩
    · exact flag_absurd hstill hclose
    · have hstill : (appCall cfg c.tx call).1 = _ := hsame
      refine ⟨.inr ?_, ?_, ?_⟩
      all_goals simp only [hstill]
      · exact hdone
      · exact hnext
      · exact hws

omit [ReadBuffer β] in
/-- An HTTP task ends by closing, or turns the connection over behind a complete response. -/
theorem httpDone_framed (h : ConnInv c)
    {outcome : Outcome} (hopen : c.tx.closing = false) (hmode : c.tx.wsMode = false)
    (horder : InOrder cfg c (.done outcome)) : ConnInv (applyOutcome cfg c outcome) := by
  have henc := h.tx.opened hopen
  have hline : outcome = .returned → c.tx.responseStarted = true →
      c.tx.responseComplete = false → c.tx.headWritten = false →
      c.tx.draft.statusLine = true := by
    intro hreturned hstart hrun hunwr
    rcases horder with hc | hr | hs | hd | hw | hline
    · exact flag_absurd hopen hc
    · exact absurd hreturned hr
    · exact flag_absurd hs hstart
    · exact flag_absurd hrun hd
    · exact flag_absurd hunwr hw
    · exact hline
  obtain ⟨hinv, hend⟩ := applyAppOutcome_inv henc hopen cfg hmode hline
  simp only [applyOutcome, hmode]
  rcases hend with hclose | ⟨hsame, hstart, hcomp⟩
  · simp only [hclose, Bool.not_true, Bool.and_false, Bool.false_eq_true, if_false]
    exact connInv_of_closing hinv hclose
  · simp only [hsame, hopen, Bool.not_false, Bool.and_true]
    have hrest := henc.atRest (fun _ => hcomp)
    split
    · exact ⟨Encoder.inv (AtRest.encoder hrest { henc.ready with next := nofun } fun _ => hcomp),
        fun _ _ => ⟨.inr ⟨hstart, hcomp⟩, rfl, hmode⟩, fun _ _ => rfl⟩
    · rename_i hnext
      exact ⟨h.tx, fun _ _ => ⟨.inr ⟨hstart, hcomp⟩, by simpa using hnext, hmode⟩, fun _ _ => rfl⟩

omit [ReadBuffer β] in
/-- The end of a task keeps the invariant. -/
theorem done_framed (h : ConnInv c) {outcome : Outcome} (horder : InOrder cfg c (.done outcome)) :
    ConnInv (applyOutcome cfg c outcome) := by
  cases hopen : c.tx.closing with
  | true =>
    have hshut : (applyOutcome cfg c outcome).tx.Shut c.tx.wire :=
      applyOutcome_shut outcome ⟨hopen, rfl⟩
    exact connInv_of_closing (txInv_of_shut h.tx.closed hshut) hshut.1
  | false =>
    have hws : ∀ status, statusForbidsBody status = false → c.tx.wsMode = true →
        ConnInv { rx := { c.rx with task := false }
                  tx := endWebsocket cfg c.tx status } := by
      intro status hforbids hmode
      obtain ⟨hinv, hclose⟩ := endWebsocket_inv h.tx cfg hopen hmode hforbids
      exact connInv_of_closing hinv hclose
    cases hmode : c.tx.wsMode with
    | true =>
      cases outcome with
      | raised =>
        simp only [applyOutcome, hmode]
        exact hws 500 rfl hmode
      | returned =>
        simp only [applyOutcome, hmode]
        exact hws 403 rfl hmode
      | cancelled | disconnected =>
        simp only [applyOutcome, hmode, applyAppOutcome,
          Tx.protocolClose, Bool.not_true, Bool.and_false,
          Bool.false_eq_true, if_false]
        exact connInv_of_closing (txInv_of_shut h.tx.closed ⟨rfl, rfl⟩) rfl
    | false => exact httpDone_framed h hopen hmode horder

theorem enforceDeadline_inv (h : TxInv tx) :
    TxInv (enforceDeadline cfg tx) ∧ (enforceDeadline cfg tx).closing = true := by
  rw [enforceDeadline]
  split
  · exact ⟨h.close, rfl⟩
  split
  · exact ⟨h.close, rfl⟩
  · exact ⟨sendError_inv rfl (.inl rfl) h cfg, sendError_closing cfg tx _ _⟩

theorem sendfile_frame (tx : Tx) (data : Bytes) :
    ∃ quota wire, sendfile tx data = { tx with fileQuota := quota, wire := wire } := by
  rw [sendfile]
  split
  · obtain ⟨wire, hw⟩ := emit_frame tx (.data data)
    exact ⟨_, wire, by rw [hw]⟩
  · exact ⟨tx.fileQuota, tx.wire, rfl⟩

/-- **ONE EVENT** in order keeps the invariant. -/
theorem step_framed (hpol : PolicyFits policy) {c' : Conn β} {e : Event} (h : ConnInv c)
    (horder : InOrder cfg c e) (hstep : step cfg policy c e = some c') : ConnInv c' := by
  revert hstep
  fun_cases step cfg policy c e with
  | case1 | case10 => exact fun hstep => some.inj hstep ▸ h
  | case2 | case5 | case8 => rintro ⟨⟩
  | case3 => exact fun hstep => some.inj hstep ▸ h.rx Iff.rfl rfl id
  | case4 => exact fun hstep => some.inj hstep ▸ driveOnce_framed h hpol
  | case6 call hreqs => exact fun hstep => some.inj hstep ▸ app_framed h hreqs horder
  | case7 => exact fun hstep => some.inj hstep ▸ done_framed h horder
  | case9 data =>
    rintro ⟨⟩
    refine h.withTx (sendfile_inv h.tx data) ?_
    obtain ⟨quota, wire, hframe⟩ := sendfile_frame c.tx data
    rw [hframe]
    exact fun hopen => ⟨hopen, rfl, rfl, rfl, rfl⟩
  | case11 =>
    obtain ⟨hinv, hclose⟩ := enforceDeadline_inv h.tx
    exact fun hstep => some.inj hstep ▸ connInv_of_closing hinv hclose
  | case12 =>
    rintro ⟨⟩
    exact h.withTx (h.tx.withFlags c.tx.accepting true c.tx.framingError)
      (fun hopen => ⟨hopen, rfl, rfl, rfl, rfl⟩)
  | case13 | case14 =>
    rintro ⟨⟩
    exact connInv_of_closing (txInv_of_shut h.tx.closed ⟨rfl, rfl⟩) rfl
  | case15 =>
    rintro ⟨⟩
    exact h.withTx (h.tx.withFlags false c.tx.disconnected c.tx.framingError)
      (fun hopen => ⟨hopen, rfl, rfl, rfl, rfl⟩)
  | case16 => exact fun hstep => some.inj hstep ▸ connInv_of_closing h.tx.close rfl

/-! ## What is on the wire -/

/-- **FRAMED**: every response but the last is followed by exactly what its head declares;
    the last one by a part of it, and by all of it once the response is complete or its task
    is gone, unless the connection is closing. -/
def Framed (c : Conn β) : Prop :=
  ∃ rs, transcript c.tx.wire = some rs ∧ (∀ r ∈ rs, WellFormed r.1)
    ∧ (∀ r ∈ rs.dropLast, Whole (rule r.1) r.2)
    ∧ ∀ r, rs.getLast? = some r → Part (rule r.1) r.2 ∧ (c.tx.closing = false →
          (c.rx.task = false ∨ c.tx.responseComplete = true) →
        Whole (rule r.1) r.2)

omit [ReadBuffer β] in
theorem ConnInv.framed (h : ConnInv c) : Framed c := by
  obtain ⟨past, tail, hwire, hpast, hlen, htail⟩ := h.tx.closed
  refine ⟨past ++ tail, hwire, ?_, ?_, ?_⟩
  · intro r hr
    rcases mem_append.mp hr with hr | hr
    · exact (hpast r hr).1
    · exact (htail r hr).1
  · intro r hr
    cases tail with
    | nil =>
      rw [append_nil] at hr
      exact (hpast r ((dropLast_sublist _).subset hr)).2
    | cons r' rest =>
      have : rest = [] := length_eq_zero_iff.mp (by
        rw [length_cons] at hlen
        omega)
      rw [this, dropLast_concat] at hr
      exact (hpast r hr).2
  · intro r hr
    have hmem : r ∈ past ++ tail := mem_of_getLast? hr
    refine ⟨?_, fun hopen hset => ?_⟩
    · rcases mem_append.mp hmem with hr | hr
      · exact (hpast r hr).2.part
      · exact (htail r hr).2
    · have hrest : AtRest c.tx := by
        rcases hset with hidle | hcomp
        · exact (h.idle hopen hidle).rest
        · exact (h.tx.opened hopen).atRest (fun _ => hcomp)
      obtain ⟨all, hall, hdeliv⟩ := hrest
      cases hwire.symm.trans hall
      exact (hdeliv r hmem).2

end Invariant

/-! ## Two responses, one body cut -/

def getHead : Bytes := ascii "GET / HTTP/1.1\r\nHost: x\r\n\r\n"

/-- A streamed response whose task returns. -/
def streamed : List Event :=
  [.read (.dataReceived getHead), .drive, .app (.streamStart 200 (.items [])),
    .app (.streamBody (ascii "hi") true),
    .app (.streamBody [] false), .done .returned]

/-- A streamed response whose task raises after the first chunk. -/
def streamCut : List Event :=
  [.read (.dataReceived getHead), .drive, .app (.streamStart 200 (.items [])),
    .app (.streamBody (ascii "hi") true), .done .raised]

/-- What is to follow a head: the announced length, or less of it on a connection that
    closes, a finished chunked body, or nothing. -/
def Exact (closing : Bool) : BodyRule → Bytes → Prop
  | .nothing, body => body = []
  | .sized n, body =>
    body.length ≤ n ∧ (body.length < n → closing = true)
  | .chunked, body => ∃ payload, ChunkedBody body payload
  | .untilClose, _ => False

/-- The rule of each response on the wire, and what followed its head. -/
def bodies (c : Conn InputBuffer) : Option (List (BodyRule × Bytes)) :=
  (transcript c.tx.wire).map (List.map (fun r => (rule r.1, r.2)))

/-- One octet is declared, and two are sent with the head. -/
def overlong : List Event := [.read (.dataReceived getHead), .drive,
    .app (.response (some 200) (.items [.pair (ascii "content-length") (ascii "1")]) (ascii "hi"))]

end Http1Framing
