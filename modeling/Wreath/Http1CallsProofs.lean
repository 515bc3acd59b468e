import Wreath.Http1EncoderProofs

/-! # Errors, files, application calls

Every way into the encoder keeps its invariant: the server's own error responses, the
descriptor path, the application's calls, the end of its task. The entry points that do
not check their own order of calls are called in order (`CallInOrder`). -/

namespace Http1Calls

open ByteScan HttpHead ChunkedCoding Http1Response Http1Transcript
open Http1Encoder

/-! ## Error responses -/

variable (cfg : ServerConfig)

theorem errorHead_wellFormed (status : Nat)
    (asked : Asked) : WellFormed (errorHead cfg status asked) := by
  refine ⟨rfl, ?_⟩
  intro f hf
  rcases List.mem_cons.mp hf with rfl | hf
  · decide
  · exact defaults_framing cfg f hf

/-- The request an error answers: the accepted one, or one refused before its method counts. -/
def Asked.Fits (asked : Asked) (tx : Tx) : Prop :=
  asked = .accepted tx.methodIsHead ∨ ∃ isHead, asked = .refused isHead

variable {tx : Tx} {status : Nat} {asked : Asked}

section

variable (hforbids : statusForbidsBody status = false) (hasked : Asked.Fits asked tx)
include hforbids hasked

/-- An error response leaves out the body for a HEAD, and is otherwise exact. -/
theorem errorHead_part : Part (rule (errorHead cfg status asked))
      (if tx.methodIsHead then [] else errorBody status) := by
  have hrule : bodyless (errorHead cfg status asked) = (asked == .accepted true) := by
    show (asked == _ || statusForbidsBody status) = _
    rw [hforbids, Bool.or_false]
  rw [rule, hrule]
  by_cases hm : tx.methodIsHead = true
  · split
    · rfl
    · exact Nat.zero_le _
  · have hno : asked ≠ .accepted true := by
      rcases hasked with rfl | ⟨isHead, rfl⟩
      · simpa using hm
      · rintro ⟨⟩
    rw [if_neg hm, if_neg (by simpa using hno)]
    exact le_rfl

variable {cfg}

/-- An error goes behind finished responses. -/
theorem writeError_closed (hrest : AtRest tx) (hopen : tx.closing = false) (cfg : ServerConfig) :
    Closed (writeError cfg tx status asked).wire := by
  obtain ⟨past, hwire, hpast⟩ := hrest
  have hpart := errorHead_part cfg hforbids hasked
  have hhead := transcript_head hwire (errorHead cfg status asked)
  have hwf := errorHead_wellFormed cfg status asked
  have hopen' : Tx.closing { tx with
      wire := tx.wire ++ [.head (errorHead cfg status asked)] } = false :=
    hopen
  rw [writeError, emit_open hopen]
  split
  · rename_i hm
    rw [if_pos hm] at hpart
    refine ⟨past, _, hhead, hpast, le_rfl, ?_⟩
    intro r hr
    rw [List.mem_singleton.mp hr]
    exact ⟨hwf, hpart⟩
  · rename_i hm
    rw [if_neg hm] at hpart
    rw [emit_open hopen']
    refine ⟨past, _, transcript_data hhead _, hpast, le_rfl, ?_⟩
    intro r hr
    rw [List.mem_singleton.mp hr]
    exact ⟨hwf, hpart⟩

/-- An error between two requests. -/
theorem sendError_atRest (hrest : AtRest tx) (hopen : tx.closing = false) :
    TxInv (sendError cfg tx status asked) := by
  rw [sendError]
  split
  · exact txInv_of_shut hrest.closed ⟨rfl, rfl⟩
  · exact txInv_of_shut (writeError_closed hforbids hasked hrest hopen cfg) ⟨rfl, rfl⟩

/-- **SERVER ERRORS** keep the invariant. -/
theorem sendError_inv (h : TxInv tx) (cfg : ServerConfig) :
    TxInv (sendError cfg tx status asked) := by
  cases hopen : tx.closing with
  | true =>
    exact txInv_of_shut h.closed (sendError_shut ⟨hopen, rfl⟩ cfg status asked)
  | false =>
    have henc := h.opened hopen
    by_cases hstart : tx.responseStarted = true
    · rw [sendError, if_pos hstart]
      exact h.close
    · have hunwr := henc.unstarted (by simpa using hstart)
      exact sendError_atRest hforbids hasked (henc.atRest (flag_absurd hunwr)) hopen

end

variable {cfg}

/-! ## Files -/

/-- `_wreath_file_start` keeps the invariant when a body that may not be sent has no octets. -/
theorem fileStart_inv (henc : Encoder tx)
    (hopen : tx.closing = false) (hstart : tx.responseStarted = false)
    (hws : tx.wsMode = false) {status : Int} {headers : HeaderArg} {size : Nat}
    (hnone : (tx.responseSuppressBody || statusForbidsBody status.toNat) = true → size = 0) :
    TxInv (fileStart cfg tx status headers size).1 := by
  have hbegan := beginResponseParts_began cfg tx (some status) headers
  rw [fileStart]
  generalize beginResponseParts cfg tx (some status) headers = reply at hbegan
  have henc' := hbegan.encoder henc hstart hws
  obtain ⟨hsent, hfile, -⟩ := henc.ready.unwritten (henc.unstarted hstart)
  cases hbegan with
  | refused | failed => exact henc'.inv
  | ready _ draft hline hflds =>
    simp only
    split
    · exact henc'.inv
    rename_i hdecl
    rw [not_or, Bool.not_eq_false, not_not] at hdecl
    generalize hbegun : ({ startedWith tx status draft
          ((HeaderArg.declared headers).isSome || tx.respHasLength)
          ((HeaderArg.declared headers).getD tx.respContentLength) with
        headWritten := false } : Tx) = begun at henc' ⊢
    have hready : HeadReady begun := by
      subst hbegun
      exact ⟨henc', hopen, rfl, rfl, hws, hline⟩
    have hsame : begun.responseSuppressBody
          = (tx.responseSuppressBody || statusForbidsBody status.toNat)
        ∧ begun.fileActive = false ∧ begun.responseBodySent = 0
        ∧ begun.respHasLength = true
        ∧ begun.respContentLength = size := by
      subst hbegun
      exact ⟨rfl, hfile, hsent, hdecl⟩
    obtain ⟨hflight, -⟩ := hready.inFlight cfg [] true rfl
    obtain ⟨hsup', hfile', hsent', hlen'⟩ := writeHead_frame cfg hready.opened [] true rfl
    obtain ⟨hsup, hfile, hsent, hl, hn⟩ := hsame
    obtain ⟨hl', hn'⟩ := hlen' hl
    refine (hflight.file hl' (hn'.trans hn) (hfile'.trans hfile)
      (hsent'.trans hsent) (fun hs => hnone ?_)).encoder.inv
    rw [← hsup, ← hsup']
    exact hs

/-- `sendfile` moves octets from the quota to the wire. -/
theorem sendfile_inv (h : TxInv tx) (data : Bytes) : TxInv (sendfile tx data) := by
  cases hopen : tx.closing with
  | true =>
    exact txInv_of_shut h.closed (sendfile_shut ⟨hopen, rfl⟩ data)
  | false =>
    rw [sendfile]
    split
    · rename_i hfile
      have henc := h.opened hopen
      have hwritten : tx.headWritten = true := by
        rw [← Bool.not_eq_false]
        intro hw
        exact flag_absurd (henc.ready.unwritten hw).2.1 hfile.1
      obtain ⟨past, r, hwire, hpast, hs⟩ := (henc.inFlight hopen hwritten
        (henc.ready.file hfile.1)).wire
      obtain ⟨hl, hquota⟩ := hs.file hfile.1
      rw [emit_open hopen]
      refine Encoder.inv ⟨{ henc.ready with }, past,
        [(r.1, r.2 ++ data)], transcript_data hwire data, hpast,
        .sending { hs with counted := ?_, file := fun _ => ⟨hl, ?_⟩ }⟩
      · have hcnt := hs.counted
        by_cases hsup : tx.responseSuppressBody = true
        · have hnil : data = [] := by
            have := hfile.2
            rw [hquota hsup] at this
            exact List.length_eq_zero_iff.mp (Nat.le_zero.mp this)
          simp only [Counted, txRule, hsup, if_true] at hcnt ⊢
          rw [hcnt, hnil]
          rfl
        · simp only [Counted, txRule, hsup, hl, hfile.1, if_true,
            Bool.false_eq_true, if_false] at hcnt ⊢
          rw [List.length_append]
          omega
      · intro hsup
        rw [hquota hsup, Nat.zero_sub]
    · exact h

/-- `_wreath_file_finish`, once the descriptor is through. -/
theorem fileFinish_inv (henc : Encoder tx)
    (hopen : tx.closing = false) (hfile : tx.fileActive = true)
    (hquota : tx.fileQuota = 0) (keepAlive : Bool) : TxInv (finishResponse cfg
      { tx with responseBodySent := tx.respContentLength
                fileActive := false, fileQuota := 0 } keepAlive) := by
  have hwritten : tx.headWritten = true := by
    rw [← Bool.not_eq_false]
    intro hw
    exact flag_absurd (henc.ready.unwritten hw).2.1 hfile
  have hrun := henc.ready.file hfile
  obtain ⟨past, r, hwire, hpast, hs⟩ := (henc.inFlight hopen hwritten hrun).wire
  obtain ⟨hl, -⟩ := hs.file hfile
  have hdone : Finished { tx with
      responseBodySent := tx.respContentLength
      fileActive := false, fileQuota := 0 } := by
    refine ⟨hopen, { henc.ready with
        unwritten := fun hw => flag_absurd hw hwritten
        file := fun hf => nomatch hf }, rfl, hwritten, hrun, _, hwire,
      delivered_snoc hpast ⟨hs.wellFormed, ?_⟩⟩
    have hcnt := hs.counted
    rw [hs.ruled]
    by_cases hsup : tx.responseSuppressBody = true
    · rw [txRule, if_pos hsup]
      rw [Counted, txRule, if_pos hsup] at hcnt
      exact hcnt
    · simp only [Counted, txRule, hsup, hl, hfile, hquota, if_true] at hcnt
      rw [txRule, if_neg hsup, if_pos hl]
      exact hcnt
  exact hdone.finish cfg keepAlive

/-! ## Application calls -/

/-- A body that rides with its head fits the declared length, no file is being sent, and a
    head that is still to be written has its status line. -/
def BodyInOrder (cfg : ServerConfig) (tx : Tx) (body : Bytes) (more : Bool) : Prop :=
  tx.fileActive = false
    ∧ (tx.headWritten = false → tx.draft.statusLine = true)
    ∧ (tx.headWritten = false → coalesces cfg tx body more = true →
      tx.respHasLength = true → body.length ≤ tx.respContentLength)

instance (cfg : ServerConfig) (tx : Tx) (body : Bytes) (more : Bool) :
    Decidable (BodyInOrder cfg tx body more) :=
  inferInstanceAs (Decidable (_ ∧ _ ∧ _))

/-- A reply sent in one piece fits the length its headers declare. -/
def ReplyFits (cfg : ServerConfig) (tx : Tx) (status : Int)
    (headers : HeaderArg) (body : Bytes) : Prop :=
  coalesces cfg { tx with responseSuppressBody :=
      tx.responseSuppressBody || statusForbidsBody status.toNat } body false
    = true →
    ∀ n ∈ HeaderArg.declared headers, body.length ≤ n

instance (cfg : ServerConfig) (tx : Tx) (status : Int) (headers : HeaderArg) (body : Bytes) :
    Decidable (ReplyFits cfg tx status headers body) :=
  inferInstanceAs (Decidable (_ → ∀ n ∈ _, _))

/-- **CALLS IN ORDER**: the order of calls that the entry points rely on without checking it. -/
def CallInOrder (cfg : ServerConfig) (tx : Tx) : AppCall → Prop
  | .response status headers body =>
    ∀ code ∈ status, ReplyFits cfg tx code headers body
  | .body body more =>
    tx.responseStarted = true → tx.responseComplete = false →
      tx.wsMode = false → BodyInOrder cfg tx body more
  | .streamBody body more =>
    tx.responseStarted = true ∧ tx.responseComplete = false
      ∧ tx.wsMode = false ∧ BodyInOrder cfg tx body more
  | .fileStart status _ size =>
    (tx.responseSuppressBody || statusForbidsBody status.toNat) = true → size = 0
  | .fileFinish =>
    tx.responseStarted = true → tx.responseComplete = false →
      tx.fileActive = true ∧ tx.fileQuota = 0
  | _ => True

instance (cfg : ServerConfig) (tx : Tx) (call : AppCall) : Decidable (CallInOrder cfg tx call) := by
  cases call <;> unfold CallInOrder <;> infer_instance

/-- Starting and answering in one piece. -/
theorem reply_inv (henc : Encoder tx) (hopen : tx.closing = false)
    (hstart : tx.responseStarted = false) (hws : tx.wsMode = false)
    {status : Option Int} {headers : HeaderArg} {body : Bytes}
    (hfits : ∀ code ∈ status, ReplyFits cfg tx code headers body)
    {tx' : Tx} (hbegin : beginResponseParts cfg tx status headers = (tx', none)) :
    TxInv (writeBodyParts cfg tx' body false).1 := by
  have hbegan := beginResponseParts_began cfg tx status headers
  rw [hbegin] at hbegan
  have henc' := hbegan.encoder henc hstart hws
  obtain ⟨hsent, hfile, hrun⟩ := henc.ready.unwritten (henc.unstarted hstart)
  cases hbegan with
  | ready code draft hline hflds =>
    refine BodyReady.inv ⟨henc', hopen, rfl, hrun, hws, hfile, fun _ => hline, ?_⟩
    intro _ hco hl
    have hdecl : ((HeaderArg.declared headers).isSome || tx.respHasLength) = true := hl
    rw [henc.ready.undeclared hstart, Bool.or_false] at hdecl
    obtain ⟨n, hn⟩ := Option.isSome_iff_exists.mp hdecl
    rw [hn]
    exact hfits code rfl hco n hn

/-- Starting a response, with no body yet. -/
theorem begin_inv (henc : Encoder tx) (hstart : tx.responseStarted = false)
    (hws : tx.wsMode = false) (cfg : ServerConfig) (status : Option Int) (headers : HeaderArg) :
    TxInv (beginResponseParts cfg tx status headers).1 :=
  ((beginResponseParts_began cfg tx status headers).encoder henc hstart hws).inv

theorem bodyCall_inv (henc : Encoder tx) (hopen : tx.closing = false) {body : Bytes}
    {more : Bool} (hstart : tx.responseStarted = true)
    (hrun : tx.responseComplete = false) (hws : tx.wsMode = false)
    (horder : BodyInOrder cfg tx body more) : TxInv (writeBodyParts cfg tx body more).1 :=
  BodyReady.inv ⟨henc, hopen, hstart, hrun, hws, horder.1, horder.2.1, horder.2.2⟩

theorem wsAccept_inv (henc : Encoder tx) (hopen : tx.closing = false) (hws : tx.wsMode = true) :
    TxInv { tx.emit .switched with wsAccepted := true } := by
  obtain ⟨past, hwire, hpast⟩ := henc.atRest (henc.ready.websocket hws)
  rw [emit_open hopen]
  refine Encoder.inv ⟨{ henc.ready with }, past ++ [(interimHead 101, [])],
    [], ?_, delivered_snoc hpast (delivered_interim rfl),
    .rest (henc.ready.websocket hws)⟩
  rw [List.append_nil]
  exact transcript_snoc hwire .switched

/-- **APPLICATION CALLS** in order keep the invariant. -/
theorem appCall_inv (h : TxInv tx)
    {call : AppCall} (horder : CallInOrder cfg tx call) : TxInv (appCall cfg tx call).1 := by
  cases hopen : tx.closing with
  | true => exact txInv_of_shut h.closed (appCall_shut ⟨hopen, rfl⟩ cfg call)
  | false =>
    have henc := h.opened hopen
    fun_cases appCall cfg tx call with
    -- the calls that are refused
    | case1 | case2 | case3 | case6 | case7 | case8 | case10 | case11 | case12 | case13 | case15
    | case18 | case20 | case22 | case23 | case24 | case26 | case27 => exact h
    | case4 status headers body _ hws hstart tx' reason heq =>
      have hbegin := begin_inv henc (eq_false_of_ne_true hstart) (eq_false_of_ne_true hws)
        cfg status headers
      rw [heq] at hbegin
      exact hbegin
    | case5 status headers body _ hws hstart tx' heq =>
      exact reply_inv henc hopen (eq_false_of_ne_true hstart) (eq_false_of_ne_true hws) horder heq
    | case9 status headers _ hws hstart =>
      exact begin_inv henc (eq_false_of_ne_true hstart) (eq_false_of_ne_true hws) cfg status headers
    | case14 body more _ hws hstart hrun =>
      rw [Bool.not_eq_true] at hws hrun
      have hstart : tx.responseStarted = true := by
        simpa using hstart
      exact bodyCall_inv henc hopen hstart hrun hws (horder hstart hrun hws)
    | case16 status headers hguard =>
      rw [Bool.not_eq_true, Bool.or_eq_false_iff] at hguard
      exact begin_inv henc hguard.1 hguard.2 cfg _ headers
    | case17 body more =>
      obtain ⟨hstart, hrun, hws, hbody⟩ := horder
      exact bodyCall_inv henc hopen hstart hrun hws hbody
    | case19 status headers size hguard =>
      rw [Bool.not_eq_true, Bool.or_eq_false_iff] at hguard
      exact fileStart_inv henc hopen hguard.1 hguard.2 horder
    | case21 hguard =>
      simp only [Bool.or_eq_true, not_or, Bool.not_eq_true',
        Bool.not_eq_false, Bool.not_eq_true] at hguard
      obtain ⟨hfile, hquota⟩ := horder hguard.1 hguard.2
      exact fileFinish_inv henc hopen hfile hquota _
    | case25 _ hws => exact wsAccept_inv henc hopen (by simpa using hws)
    | case28 =>
      have hsent := sendError_inv (show statusForbidsBody 403 = false from rfl) (.inl rfl) h cfg
      exact txInv_of_shut hsent.closed ⟨sendError_closing cfg tx 403 _, rfl⟩
    | case29 => exact txInv_of_shut h.closed ⟨rfl, rfl⟩

/-! ## The end of a task -/

theorem finishResponse_unstarted (hstart : tx.responseStarted = false)
    (hrun : tx.responseComplete = false) :
    finishResponse cfg tx false = { tx with responseComplete := true, closing := true } := by
  rw [finishResponse, if_neg (by simp [hrun])]
  simp only [hstart, Bool.false_and, Bool.false_eq_true, if_false,
    Bool.not_false, Bool.true_or, if_true]
  rfl

/-- A started response that never wrote its head writes it, and closes. -/
theorem finishResponse_headless (hstart : tx.responseStarted = true)
    (hunwr : tx.headWritten = false) (hrun : tx.responseComplete = false) (keepAlive : Bool) :
    (finishResponse cfg tx keepAlive).Shut (decideFramingAndWriteHead cfg tx [] false).1.wire := by
  rw [finishResponse, if_neg (by simp [hrun])]
  simp only [hstart, hunwr, Bool.not_false, Bool.and_true, if_true, Bool.or_true, Bool.true_or]
  exact ⟨rfl, rfl⟩

theorem failure_inv (henc : Encoder tx)
    (hopen : tx.closing = false) (hstart : tx.responseStarted = false) (cfg : ServerConfig) :
    TxInv (failResponse cfg tx) ∧ (failResponse cfg tx).closing = true := by
  have hunwr := henc.unstarted hstart
  obtain ⟨-, -, hrun⟩ := henc.ready.unwritten hunwr
  have hclosed := writeError_closed (show statusForbidsBody 500 = false from rfl) (.inl rfl)
    (henc.atRest (flag_absurd hunwr)) hopen cfg
  obtain ⟨wire, herror⟩ := writeError_frame cfg tx 500 (.accepted tx.methodIsHead)
  have hstart' : Tx.responseStarted { tx with wire := wire } = false := hstart
  rw [herror] at hclosed
  rw [failResponse, herror, finishResponse_unstarted hstart' hrun]
  exact ⟨txInv_of_shut hclosed ⟨rfl, rfl⟩, rfl⟩

/-- **THE END OF A TASK** closes, or finds its response complete. -/
theorem applyAppOutcome_inv (henc : Encoder tx)
    (hopen : tx.closing = false) (cfg : ServerConfig) {outcome : Outcome} (hws : tx.wsMode = false)
    (hline : outcome = .returned → tx.responseStarted = true →
      tx.responseComplete = false → tx.headWritten = false →
      tx.draft.statusLine = true) :
    TxInv (applyAppOutcome cfg tx outcome) ∧ ((applyAppOutcome cfg tx outcome).closing = true
        ∨ (applyAppOutcome cfg tx outcome = tx
          ∧ tx.responseStarted = true ∧ tx.responseComplete = true)) := by
  fun_cases applyAppOutcome cfg tx outcome with
  | case1 | case2 | case4 => exact ⟨henc.inv.close, .inl rfl⟩
  | case3 hstart | case5 hstart =>
    obtain ⟨hinv, hclose⟩ := failure_inv henc hopen (by simpa using hstart) cfg
    exact ⟨hinv, .inl hclose⟩
  | case6 hstart hrun =>
    have hstart : tx.responseStarted = true := by simpa using hstart
    have hrun : tx.responseComplete = false := by
      simpa using hrun
    refine ⟨?_, .inl (finishResponse_closes hrun)⟩
    by_cases hw : tx.headWritten = true
    · exact (henc.inFlight hopen hw hrun).cut cfg
    · have hunwr : tx.headWritten = false := by simpa using hw
      obtain ⟨hflight, -⟩ := HeadReady.inFlight ⟨henc, hopen, hunwr, hstart, hws,
          hline rfl hstart hrun hunwr⟩ cfg [] false
          (by simp [coalesces])
      exact txInv_of_shut hflight.encoder.closed (finishResponse_headless hstart hunwr hrun false)
  | case7 hstart hcomp =>
    exact ⟨henc.inv, .inr ⟨rfl, by simpa using hstart, by simpa using hcomp⟩⟩

/-- A WebSocket session ends by closing. -/
theorem endWebsocket_inv (h : TxInv tx) (cfg : ServerConfig) (hopen : tx.closing = false)
    (hws : tx.wsMode = true) (hforbids : statusForbidsBody status = false) :
    TxInv (endWebsocket cfg tx status) ∧ (endWebsocket cfg tx status).closing = true := by
  rw [endWebsocket]
  split
  · rename_i hsent
    exact flag_absurd ((h.opened hopen).ready.unclosed hws) hsent
  split
  · exact ⟨txInv_of_shut h.closed ⟨rfl, rfl⟩, rfl⟩
  · exact ⟨sendError_inv hforbids (.inl rfl) h cfg, sendError_closing cfg tx status _⟩

/-- A complete response stays complete, whatever is called. -/
theorem appCall_settles {call : AppCall} (hstart : tx.responseStarted = true)
    (hcomp : tx.responseComplete = true) (horder : CallInOrder cfg tx call) :
    (appCall cfg tx call).1.closing = true ∨ ∃ accepted wire, (appCall cfg tx call).1
        = { tx with wsAccepted := accepted, wire := wire } := by
  fun_cases appCall cfg tx call with
  | case1 | case2 | case3 | case6 | case7 | case8 | case10 | case11 | case12 | case13 | case15
  | case18 | case20 | case22 | case23 | case24 | case26 | case27 =>
    exact .inr ⟨tx.wsAccepted, tx.wire, rfl⟩
  | case4 _ _ _ _ _ hnew | case5 _ _ _ _ _ hnew | case9 _ _ _ _ hnew => exact absurd hstart hnew
  | case14 _ _ _ _ _ hrun => exact absurd hcomp hrun
  | case16 _ _ hguard | case19 _ _ _ hguard => exact absurd (by rw [hstart, Bool.true_or]) hguard
  | case17 => exact flag_absurd horder.2.1 hcomp
  | case21 hguard => exact absurd (by rw [hcomp, Bool.or_true]) hguard
  | case25 =>
    obtain ⟨wire, hw⟩ := emit_frame tx .switched
    exact .inr ⟨true, wire, by rw [hw]⟩
  | case28 => exact .inl (sendError_closing cfg tx 403 _)
  | case29 => exact .inl rfl

end Http1Calls
