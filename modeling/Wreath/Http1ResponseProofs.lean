import Wreath.ChunkedCodingProofs

/-! # The HTTP/1 response encoder

The response half of one connection: what an application call writes, how the head
decides the framing, and how a response completes. Wire output is a list of heads and
data runs in the order the transport gets them; a write on a closing connection is
dropped. -/

namespace Http1Response

open ByteScan HttpHead ChunkedCoding

/-! ## Configuration and headers -/

/-- The limits and defaults a connection extracts from its configuration; every limit is
    validated to be positive. -/
structure ServerConfig where
  maxRequestLine : Nat
  maxHeaderCount : Nat
  maxHeaderBytes : Nat
  maxBodyBytes : Nat
  maxBodyChunks : Nat
  serverHeader : Option Bytes
  dateHeader : Option Bytes
  writelines     : Bool          -- the transport has `writelines`
  limits_pos : 0 < maxRequestLine ∧ 0 < maxHeaderCount
    ∧ 0 < maxHeaderBytes ∧ 0 < maxBodyBytes ∧ 0 < maxBodyChunks

variable (cfg : ServerConfig) (tx : Tx)

/-- The configured default headers: `server`, then `date`. -/
def ServerConfig.defaultResponseHeaders : List Field :=
  (cfg.serverHeader.map (fun v => (ascii "server", v))).toList
    ++ (cfg.dateHeader.map (fun v => (ascii "date", v))).toList

/-- `wreath_field_name_valid`. -/
def fieldNameValid (name : Bytes) : Bool := name != [] && name.all asciiToken

/-- `wreath_field_value_valid`. -/
def fieldValueValid (value : Bytes) : Bool := value.all (fun b => !isValueStop b)

/-- One element of the header sequence an application passes. -/
inductive HeaderItem where
  | pair (name value : Bytes)
  | notPair
  | notBytes
  deriving Repr, DecidableEq

/-- The `headers` argument of a response start. -/
inductive HeaderArg where
  | absent
  | items (headers : List HeaderItem)
  | notSequence
  deriving Repr, DecidableEq

/-- The whitespace `int()` strips. -/
def isPySpace (b : UInt8) : Bool := b == 32 || (9 ≤ b && b ≤ 13)

/-- Digits with single underscores between them: value and digit count. -/
def underscoredDigits : Bytes → Bool → Nat → Nat → Option (Nat × Nat)
  | [], afterDigit, value, count =>
    if afterDigit then some (value, count) else none
  | b :: rest, afterDigit, value, count =>
    if isDigit b then
      underscoredDigits rest true (value * 10 + (b.toNat - 48)) (count + 1)
    else if b = ch '_' ∧ afterDigit then
      underscoredDigits rest false value count
    else none

/-- Python's `int(value)` of a byte string, with its limit of 4300 digits. -/
def pyInt (value : Bytes) : Option Int :=
  let text := trim isPySpace value
  let negative := text.head? == some (ch '-')
  let digits := if negative || text.head? == some (ch '+') then text.tail else text
  match underscoredDigits digits false 0 0 with
  | none => none
  | some (n, count) =>
    if 4300 < count then none
    else some (if negative then - (n : Int) else n)

/-- `parse_content_length_header`. -/
def parseContentLengthHeader (value : Bytes) : Option Nat :=
  if value ≠ [] ∧ value.length ≤ 18 ∧ value.all isDigit then
    some (decimalValue value)
  else
    match pyInt value with
    | none => none
    | some n =>
      if 0 ≤ n ∧ n ≤ pySsizeTMax then some n.toNat else none

/-! ## The wire -/

/-- The request a response answers: one whose head was accepted, or one refused before;
    either may be a HEAD. -/
inductive Asked where
  | accepted (isHead : Bool)
  | refused (isHead : Bool)
  deriving Repr, DecidableEq

/-- A response head as it goes out: the copied fields, and the framing lines
    `decide_framing_and_write_head` appends to them. -/
structure WireHead where
  statusLine : Bool
  status : Nat
  fields : List Field
  contentLength : Option Nat
  chunked : Bool
  keepAlive : Bool
  asked : Asked
  deriving Repr, DecidableEq

/-- What the transport is given. -/
inductive Wire where
  | head (h : WireHead)
  | data (bytes : Bytes)
  | interim                      -- `100 Continue`
  | switched                     -- `101`: what follows is WebSocket frames
  deriving Repr, DecidableEq

/-- The head under construction. -/
structure HeadDraft where
  statusLine : Bool
  fields : List Field
  deriving Repr, DecidableEq

def HeadDraft.clear : HeadDraft := { statusLine := false, fields := [] }

/-- The response encoder state of a connection, with its wire so far. -/
structure Tx where
  http11 : Bool
  methodIsHead : Bool
  responseStarted : Bool
  responseComplete : Bool
  responseKeepAlive : Bool
  responseChunked : Bool
  responseSuppressBody : Bool
  headWritten : Bool
  framingError : Bool
  respStatus : Nat
  respHasLength : Bool
  respContentLength : Nat
  responseBodySent : Nat
  draft : HeadDraft
  fileActive           : Bool    -- between `_wreath_file_start` and `_finish`
  fileQuota            : Nat     -- octets `sendfile` may still write
  wsMode : Bool
  wsAccepted : Bool
  wsCloseSent : Bool
  closing : Bool
  accepting : Bool
  disconnected : Bool
  wantNext : Bool
  deadlineIsRequest : Bool
  wire : List Wire
  deriving Repr, DecidableEq

/-- A connection as `connection_made` leaves it. -/
def Tx.fresh : Tx :=
  { http11 := true, methodIsHead := false, responseStarted := false
    responseComplete := false, responseKeepAlive := true
    responseChunked := false, responseSuppressBody := false
    headWritten := false, framingError := false, respStatus := 0
    respHasLength := false, respContentLength := 0, responseBodySent := 0
    draft := .clear, fileActive := false, fileQuota := 0, wsMode := false
    wsAccepted := false, wsCloseSent := false, closing := false
    accepting := true, disconnected := false, wantNext := false
    deadlineIsRequest := false, wire := [] }

/-- `transport_write`: dropped once the connection is closing. -/
def Tx.emit (w : Wire) : Tx := if tx.closing then tx else { tx with wire := tx.wire ++ [w] }

/-- `protocol_close`; `ST_CLOSING` is the `closing` flag. -/
def Tx.protocolClose : Tx := { tx with closing := true }

/-- An entry point's effect and the exception it raises, if any. -/
abbrev Reply := Tx × Option String

/-! ## Starting a response -/

/-- The statuses whose responses never carry a body. -/
def statusForbidsBody (status : Nat) : Bool := status < 200 || status == 204 || status == 304

/-- The header loop of `begin_response_parts`: framing fields are read, never copied. -/
def appendHeaders : List HeaderItem → Tx → Bool → Bool → Except (Tx × String) (Tx × Bool × Bool)
  | [], tx, hasDate, hasServer => .ok (tx, hasDate, hasServer)
  | .notPair :: _, tx, _, _ => .error (tx, "response header must be a pair")
  | .notBytes :: _, tx, _, _ =>
    .error (tx, "response header must be bytes")
  | .pair name value :: rest, tx, hasDate, hasServer =>
    if !(fieldNameValid name && fieldValueValid value) then
      .error (tx, "invalid response header")
    else
      let hasDate := hasDate || equalCi name (ascii "date")
      let hasServer := hasServer || equalCi name (ascii "server")
      if equalCi name nameContentLength then
        match parseContentLengthHeader value with
        | none => .error (tx, "invalid content-length")
        | some n =>
          appendHeaders rest
            { tx with respHasLength := true, respContentLength := n }
            hasDate hasServer
      else if equalCi name nameTransferEncoding
          || equalCi name nameConnection then
        appendHeaders rest tx hasDate hasServer
      else
        appendHeaders rest
          { tx with draft :=
              { tx.draft with fields := tx.draft.fields ++ [(lower name, value)] } }
          hasDate hasServer

/-- The default headers a response does not override. -/
def remainingDefaults (hasDate hasServer : Bool) : List Field :=
  cfg.defaultResponseHeaders.filter (fun f =>
    !(hasDate && equalCi f.1 (ascii "date")) && !(hasServer && equalCi f.1 (ascii "server")))

/-- The defaults are appended and the head is ready to be framed. -/
def completeDraft (hasDate hasServer : Bool) : Tx :=
  { tx with
    draft := { tx.draft with fields := tx.draft.fields ++ remainingDefaults cfg hasDate hasServer }
    headWritten := false }

/-- `begin_response_parts`. The response counts as started before its headers are
    validated; a bad header clears the draft. -/
def beginResponseParts (status : Option Int) (headers : HeaderArg) : Reply :=
  let tx := { tx with draft := .clear }
  match status with
  | none => (tx, some "response start missing status")
  | some status =>
    if status < 100 ∨ 999 < status then
      (tx, some "response status must be between 100 and 999")
    else
      let tx := { tx with
        respStatus := status.toNat
        responseStarted := true
        responseSuppressBody := tx.responseSuppressBody || statusForbidsBody status.toNat
        draft := { statusLine := true, fields := [] } }
      match headers with
      | .notSequence => (tx, some "response headers must be a sequence")
      | .absent => (completeDraft cfg tx false false, none)
      | .items items =>
        match appendHeaders items tx false false with
        | .error (tx, reason) => ({ tx with draft := .clear }, some reason)
        | .ok (tx, hasDate, hasServer) =>
          (completeDraft cfg tx hasDate hasServer, none)

/-! ## Framing and body writes -/

/-- The framing decision: whether a length is declared, which one, whether the body is
    chunked, and whether the connection is kept. -/
def decideBodyFraming (firstBodySize : Nat) (streaming : Bool) : Tx :=
  if tx.responseSuppressBody then { tx with responseChunked := false }
  else if !streaming && !tx.respHasLength then
    { tx with respHasLength := true, respContentLength := firstBodySize
              responseChunked := false }
  else if tx.respHasLength then { tx with responseChunked := false }
  else if tx.http11 then { tx with responseChunked := true }
  else { tx with responseChunked := false, responseKeepAlive := false }

/-- Whether a first body rides in the write that carries the head. -/
def coalesces (firstBody : Bytes) (streaming : Bool) : Bool :=
  !streaming && !tx.responseSuppressBody && 0 < firstBody.length
    && (firstBody.length ≤ 16384 || cfg.writelines)

/-- The head the draft and the framing decision make. -/
def Tx.wireHead : WireHead :=
  { statusLine := tx.draft.statusLine
    status := tx.respStatus
    fields := tx.draft.fields
    contentLength := if tx.respHasLength then some tx.respContentLength else none
    chunked := !tx.respHasLength && tx.responseChunked && !tx.responseSuppressBody
    keepAlive := tx.responseKeepAlive
    asked := .accepted tx.methodIsHead }

/-- `decide_framing_and_write_head`; the flag says that the body went out with the head. -/
def decideFramingAndWriteHead (firstBody : Bytes) (streaming : Bool) : Tx × Bool :=
  let tx := decideBodyFraming tx firstBody.length streaming
  let coalesced := coalesces cfg tx firstBody streaming
  let tx := tx.emit (.head tx.wireHead)
  let tx := if coalesced then tx.emit (.data firstBody) else tx
  ({ tx with draft := .clear, headWritten := true }, coalesced)

/-- `finish_response`: close, or ask for the next request. -/
def finishResponse (keepAlive : Bool) : Tx :=
  if tx.responseComplete then tx
  else
    let headless := tx.responseStarted && !tx.headWritten
    let tx := if headless then (decideFramingAndWriteHead cfg tx [] false).1 else tx
    let tx := { tx with responseComplete := true }
    if !keepAlive || headless || tx.framingError || tx.closing
        || !tx.accepting || tx.disconnected then
      tx.protocolClose
    else { tx with deadlineIsRequest := false, wantNext := true }

/-- A hexadecimal digit, in lower case. -/
def hexDigit (d : Nat) : UInt8 := if d < 10 then (48 + d).toUInt8 else (87 + d).toUInt8

/-- The digits of `n` in front of `acc`; a digit is written before the test, so zero has
    one, and `n` bounds the turns. -/
def hexDigits : Nat → Nat → Bytes → Bytes
  | 0, _, acc => acc
  | fuel + 1, n, acc =>
    let acc := hexDigit (n % 16) :: acc
    if n / 16 = 0 then acc else hexDigits fuel (n / 16) acc

/-- `wreath_write_hex`. -/
def hexText (n : Nat) : Bytes := hexDigits (n + 1) n []

/-- One chunk on the wire. -/
def chunkText (body : Bytes) : Bytes := hexText body.length ++ crlf ++ body ++ crlf

/-- The chunk that ends a body: size zero and no trailers. -/
def lastChunkText : Bytes := ascii "0\r\n\r\n"

/-- The body part of `write_body_parts`, after the head. -/
def writeBodyData (body : Bytes) (suppress coalesced : Bool) : Reply :=
  if body = [] ∨ suppress then (tx, none)
  else if tx.respHasLength then
    if tx.respContentLength < tx.responseBodySent + body.length then
      (tx, some "response body exceeds content-length")
    else
      let tx := { tx with responseBodySent := tx.responseBodySent + body.length }
      (if coalesced then tx else tx.emit (.data body), none)
  else if tx.responseChunked then (tx.emit (.data (chunkText body)), none)
  else (if coalesced then tx else tx.emit (.data body), none)

/-- A short body leaves the framing ambiguous: force close. -/
def closeShort (suppress : Bool) : Tx :=
  if tx.respHasLength && !suppress && tx.responseBodySent != tx.respContentLength then
    { tx with responseKeepAlive := false }
  else tx

/-- The end of `write_body_parts` for a final body. -/
def endBody (suppress : Bool) : Tx :=
  let tx := closeShort tx suppress
  let tx :=
    if tx.responseChunked && !suppress then tx.emit (.data lastChunkText)
    else tx
  finishResponse cfg tx tx.responseKeepAlive

/-- `write_body_parts`. -/
def writeBodyParts (body : Bytes) (more : Bool) : Reply :=
  let suppress := tx.responseSuppressBody
  let (tx, coalesced) :=
    if tx.headWritten then (tx, false)
    else decideFramingAndWriteHead cfg tx body more
  match writeBodyData tx body suppress coalesced with
  | (tx, some reason) => (tx, some reason)
  | (tx, none) => (if more then tx else endBody cfg tx suppress, none)

/-! ## Server-generated responses -/

/-- `reason_phrase`. -/
def reasonPhrase : Nat → String
  | 200 => "OK"
  | 204 => "No Content"
  | 304 => "Not Modified"
  | 400 => "Bad Request"
  | 403 => "Forbidden"
  | 408 => "Request Timeout"
  | 413 => "Payload Too Large"
  | 414 => "URI Too Long"
  | 417 => "Expectation Failed"
  | 426 => "Upgrade Required"
  | 431 => "Request Header Fields Too Large"
  | 500 => "Internal Server Error"
  | 505 => "HTTP Version Not Supported"
  | _ => "Unknown"

variable (status : Nat)

/-- The body of an error response. -/
def errorBody : Bytes := ascii (reasonPhrase status) ++ [lf]

/-- The head of an error response. -/
def errorHead (asked : Asked) : WireHead :=
  { statusLine := true
    status := status
    fields := (ascii "content-type", ascii "text/plain; charset=utf-8")
      :: cfg.defaultResponseHeaders
    contentLength := some (errorBody status).length
    chunked := false
    keepAlive := false
    asked := asked }

/-- `write_error`: the body is left out when the last accepted request was a HEAD. -/
def writeError (asked : Asked) : Tx :=
  let tx := tx.emit (.head (errorHead cfg status asked))
  if tx.methodIsHead then tx else tx.emit (.data (errorBody status))

/-- `send_error`: an error response and close; a started response is just closed. -/
def sendError (asked : Asked) : Tx :=
  if tx.responseStarted then tx.protocolClose
  else (writeError cfg tx status asked).protocolClose

/-- `body_error`. -/
def bodyError : Tx :=
  sendError cfg { tx with framingError := true } status (.accepted tx.methodIsHead)

/-- What a response has to know of its request. -/
def Tx.answering (http11 isHead : Bool) : Tx := { tx with http11 := http11, methodIsHead := isHead }

/-- `reset_response_state`. -/
def resetResponseState (keepAlive : Bool) : Tx :=
  { tx with
    responseStarted := false, responseComplete := false
    responseBodySent := 0, respHasLength := false, respContentLength := 0
    responseChunked := false, responseSuppressBody := tx.methodIsHead
    headWritten := false, respStatus := 200, draft := .clear
    framingError := false, responseKeepAlive := keepAlive }

/-- `enforce_deadline`: close an idle connection, abort a started response, answer 408 otherwise. -/
def enforceDeadline : Tx :=
  if !tx.deadlineIsRequest then tx.protocolClose
  else if tx.responseStarted then tx.protocolClose
  else sendError cfg tx 408 (.accepted tx.methodIsHead)

/-! ## Application calls -/

/-- What an application can call. `body` and `start` are ASGI messages, `response` the
    one-shot form, the others the native entry points. -/
inductive AppCall where
  | response (status : Option Int) (headers : HeaderArg) (body : Bytes)
  | start (status : Option Int) (headers : HeaderArg)
  | body (body : Bytes) (more : Bool)
  | streamStart (status : Int) (headers : HeaderArg)
  | streamBody (body : Bytes) (more : Bool)
  | fileStart (status : Int) (headers : HeaderArg) (size : Nat)
  | fileFinish
  | wsAccept
  | wsClose
  deriving Repr, DecidableEq

/-- `_wreath_file_start`, up to handing the descriptor to `sendfile`. -/
def fileStart (status : Int) (headers : HeaderArg) (size : Nat) : Reply :=
  match beginResponseParts cfg tx (some status) headers with
  | (tx, some reason) => (tx, some reason)
  | (tx, none) =>
    if tx.respHasLength = false ∨ tx.respContentLength ≠ size then
      (tx, some "wreath.file content-length mismatch")
    else
      let tx := (decideFramingAndWriteHead cfg tx [] true).1
      ({ tx with fileActive := true, fileQuota := size }, none)

/-- One call, with the guards of its entry point. -/
def appCall : AppCall → Reply
  | .response status headers body =>
    if tx.disconnected && tx.responseStarted then
      (tx, some "peer disconnected")
    else if tx.wsMode then
      (tx, some "HTTP response used for WebSocket request")
    else if tx.responseStarted then (tx, some "response already started")
    else
      match beginResponseParts cfg tx status headers with
      | (tx, some reason) => (tx, some reason)
      | (tx, none) => writeBodyParts cfg tx body false
  | .start status headers =>
    if tx.disconnected && tx.responseStarted then
      (tx, some "peer disconnected")
    else if tx.wsMode then (tx, some "unexpected ASGI message")
    else if tx.responseStarted then (tx, some "response already started")
    else beginResponseParts cfg tx status headers
  | .body body more =>
    if tx.disconnected && tx.responseStarted then
      (tx, some "peer disconnected")
    else if tx.wsMode then (tx, some "unexpected ASGI message")
    else if !tx.responseStarted then
      (tx, some "body before response start")
    else if tx.responseComplete then
      (tx, some "body after response completed")
    else writeBodyParts cfg tx body more
  | .streamStart status headers =>
    if tx.responseStarted || tx.wsMode then
      (tx, some "response already started")
    else beginResponseParts cfg tx (some status) headers
  | .streamBody body more => writeBodyParts cfg tx body more
  | .fileStart status headers size =>
    if tx.responseStarted || tx.wsMode then
      (tx, some "response already started")
    else fileStart cfg tx status headers size
  | .fileFinish =>
    if !tx.responseStarted || tx.responseComplete then
      (tx, some "wreath.file response is not active")
    else
      (finishResponse cfg
        { tx with responseBodySent := tx.respContentLength
                  fileActive := false, fileQuota := 0 }
        tx.responseKeepAlive, none)

  | .wsAccept =>
    if tx.disconnected then (tx, some "peer disconnected")
    else if !tx.wsMode then (tx, some "unexpected ASGI message")
    else if tx.wsAccepted then (tx, some "websocket already accepted")
    else ({ tx.emit .switched with wsAccepted := true }, none)
  | .wsClose =>
    if tx.disconnected then (tx, some "peer disconnected")
    else if !tx.wsMode then (tx, some "unexpected ASGI message")
    else if !tx.wsAccepted then
      -- a rejected handshake is a plain error response
      ({ sendError cfg tx 403 (.accepted tx.methodIsHead) with wsCloseSent := true }, none)
    else ({ tx with wsCloseSent := true }.protocolClose, none)

/-- Octets `loop.sendfile` hands to the transport. -/
def sendfile (data : Bytes) : Tx :=
  if tx.fileActive ∧ data.length ≤ tx.fileQuota then
    { tx.emit (.data data) with fileQuota := tx.fileQuota - data.length }
  else tx

/-- How an application task ends. -/
inductive Outcome where
  | returned
  | raised
  | disconnected
  | cancelled
  deriving Repr, DecidableEq

/-- `apply_app_outcome` for a WebSocket session that was not cancelled: an open session is
    closed, an unanswered handshake refused. -/
def endWebsocket (status : Nat) : Tx :=
  if tx.wsCloseSent then tx
  else if tx.wsAccepted then { tx with wsCloseSent := true }.protocolClose
  else sendError cfg tx status (.accepted tx.methodIsHead)

/-- The answer to a task that ends without one. -/
def failResponse : Tx := finishResponse cfg (writeError cfg tx 500 (.accepted tx.methodIsHead)) false

/-- The response half of `apply_app_outcome` for an HTTP request. -/
def applyAppOutcome : Outcome → Tx
  | .cancelled => tx.protocolClose
  | .disconnected => tx.protocolClose
  | .raised =>
    if !tx.responseStarted then failResponse cfg tx else tx.protocolClose
  | .returned =>
    if !tx.responseStarted then failResponse cfg tx
    else if !tx.responseComplete then finishResponse cfg tx false
    else tx

/-! ## What the entry points touch -/

theorem emit_frame (w : Wire) : ∃ wire, tx.emit w = { tx with wire := wire } := by
  unfold Tx.emit
  split
  · exact ⟨tx.wire, rfl⟩
  · exact ⟨_, rfl⟩

theorem writeError_frame (status : Nat) (asked : Asked) :
    ∃ wire, writeError cfg tx status asked = { tx with wire := wire } := by
  obtain ⟨wire, hhead⟩ := emit_frame tx (.head (errorHead cfg status asked))
  unfold writeError
  simp only [hhead]
  split
  · exact ⟨wire, rfl⟩
  · obtain ⟨wire', hbody⟩ := emit_frame { tx with wire := wire } (.data (errorBody status))
    exact ⟨wire', hbody⟩

/-- The state the header loop stops in, whether or not it fails. -/
def loopState : Except (Tx × String) (Tx × Bool × Bool) → Tx
  | .error (tx, _) => tx
  | .ok (tx, _, _) => tx

/-- The header loop touches the declared length and the draft's fields. -/
theorem appendHeaders_frame (items : List HeaderItem) (tx : Tx) (hasDate hasServer : Bool) :
    ∃ hasLength length draft, loopState (appendHeaders items tx hasDate hasServer) = { tx with
            respHasLength := hasLength
            respContentLength := length
            draft := draft } := by
  fun_induction appendHeaders items tx hasDate hasServer with
  | case1 | case2 | case3 | case4 | case5 => exact ⟨_, _, _, rfl⟩
  | case7 _ _ _ _ _ _ _ _ _ _ _ ih => exact ih
  | case6 | case8 =>
    rename_i ih
    obtain ⟨l, n, d, h⟩ := ih
    exact ⟨l, n, d, h⟩

/-- Starting a response touches the response's own fields only. -/
theorem beginResponseParts_frame (status : Option Int) (headers : HeaderArg) :
    ∃ draft respStatus started suppress hasLength length written,
      (beginResponseParts cfg tx status headers).1 = { tx with
            draft := draft
            respStatus := respStatus
            responseStarted := started
            responseSuppressBody := suppress
            respHasLength := hasLength
            respContentLength := length
            headWritten := written } := by
  unfold beginResponseParts
  simp only
  split
  · exact ⟨_, _, _, _, _, _, _, rfl⟩
  rename_i code
  split
  · exact ⟨_, _, _, _, _, _, _, rfl⟩
  split
  · exact ⟨_, _, _, _, _, _, _, rfl⟩
  · exact ⟨_, _, _, _, _, _, _, rfl⟩
  · rename_i items
    obtain ⟨l, n, d, h⟩ := appendHeaders_frame items { tx with
        respStatus := code.toNat
        responseStarted := true
        responseSuppressBody := tx.responseSuppressBody || statusForbidsBody code.toNat
        draft := { statusLine := true, fields := [] } } false false
    split
    · rename_i tx' reason heq
      rw [heq] at h
      subst h
      exact ⟨_, _, _, _, _, _, _, rfl⟩
    · rename_i tx' hasDate hasServer heq
      rw [heq] at h
      subst h
      exact ⟨_, _, _, _, _, _, _, rfl⟩

/-! ## Closing is for good

No entry point reopens a connection, and once it closes nothing more reaches the wire. -/

/-- Closing, with this on the wire. -/
def Tx.Shut (wire : List Wire) : Prop := tx.closing = true ∧ tx.wire = wire

variable {wire : List Wire} {tx : Tx}

section

variable (h : tx.Shut wire)
include h

theorem emit_shut (w : Wire) : tx.emit w = tx := by
  rw [Tx.emit, if_pos h.1]

variable (cfg : ServerConfig)

theorem beginResponseParts_shut (status : Option Int) (headers : HeaderArg) :
    (beginResponseParts cfg tx status headers).1.Shut wire := by
  obtain ⟨_, _, _, _, _, _, _, hbegin⟩ := beginResponseParts_frame cfg tx status headers
  rw [hbegin]
  exact h

theorem decideBodyFraming_shut (size : Nat) (streaming : Bool) :
    (decideBodyFraming tx size streaming).Shut wire := by
  unfold decideBodyFraming
  repeat' split
  all_goals exact h

theorem writeHead_shut (body : Bytes) (streaming : Bool) :
    (decideFramingAndWriteHead cfg tx body streaming).1.Shut wire := by
  have hframed := decideBodyFraming_shut h body.length streaming
  unfold decideFramingAndWriteHead
  simp only [emit_shut hframed, ite_self]
  exact hframed

theorem finishResponse_shut (keepAlive : Bool) : (finishResponse cfg tx keepAlive).Shut wire := by
  unfold finishResponse
  split
  · exact h
  have hhead : (if tx.responseStarted && !tx.headWritten then
      (decideFramingAndWriteHead cfg tx [] false).1 else tx).Shut wire := by
    split
    · exact writeHead_shut h cfg _ _
    · exact h
  simp only [hhead.1, Bool.or_true, Bool.true_or, if_true]
  exact ⟨rfl, hhead.2⟩

theorem writeBodyData_shut (body : Bytes) (suppress coalesced : Bool) :
    (writeBodyData tx body suppress coalesced).1.Shut wire := by
  have hsent : Tx.Shut { tx with responseBodySent := tx.responseBodySent + body.length } wire := h
  unfold writeBodyData
  simp only [emit_shut h, emit_shut hsent, ite_self]
  repeat' split
  all_goals exact h

theorem endBody_shut (suppress : Bool) : (endBody cfg tx suppress).Shut wire := by
  refine finishResponse_shut ?_ cfg _
  have hshort : (closeShort tx suppress).Shut wire := by
    unfold closeShort
    split <;> exact h
  simp only [emit_shut hshort, ite_self]
  exact hshort

theorem writeBodyParts_shut (body : Bytes) (more : Bool) :
    (writeBodyParts cfg tx body more).1.Shut wire := by
  unfold writeBodyParts
  simp only
  have hhead : (if tx.headWritten then (tx, false)
      else decideFramingAndWriteHead cfg tx body more).1.Shut wire := by
    split
    · exact h
    · exact writeHead_shut h cfg _ _
  generalize (if tx.headWritten then (tx, false)
      else decideFramingAndWriteHead cfg tx body more) = start at hhead ⊢
  have hdata := writeBodyData_shut hhead body tx.responseSuppressBody start.2
  split
  · rename_i heq
    rw [heq] at hdata
    exact hdata
  · rename_i heq
    rw [heq] at hdata
    split
    · exact hdata
    · exact endBody_shut hdata cfg _

theorem writeError_shut (status : Nat) (asked : Asked) : writeError cfg tx status asked = tx := by
  unfold writeError
  simp only [emit_shut h, ite_self]

end

theorem sendError_closing (tx : Tx) (status : Nat)
    (asked : Asked) : (sendError cfg tx status asked).closing = true := by
  unfold sendError
  split <;> rfl

section

variable (h : tx.Shut wire)
include h

variable (cfg : ServerConfig)

theorem sendError_shut (status : Nat) (asked : Asked) :
    (sendError cfg tx status asked).Shut wire := by
  unfold sendError
  rw [writeError_shut h, ite_self]
  exact ⟨rfl, h.2⟩

theorem fileStart_shut (status : Int) (headers : HeaderArg) (size : Nat) :
    (fileStart cfg tx status headers size).1.Shut wire := by
  have hbegin := beginResponseParts_shut h cfg (some status) headers
  unfold fileStart
  split
  · rename_i heq
    rw [heq] at hbegin
    exact hbegin
  · rename_i heq
    rw [heq] at hbegin
    split
    · exact hbegin
    · exact writeHead_shut hbegin cfg _ _

/-- **AN APPLICATION CALL** on a closing connection writes nothing. -/
theorem appCall_shut (call : AppCall) : (appCall cfg tx call).1.Shut wire := by
  fun_cases appCall cfg tx call with
  | case1 | case2 | case3 | case6 | case7 | case8 | case10 | case11 | case12 | case13 | case15
  | case18 | case20 | case22 | case23 | case24 | case26 | case27 => exact h
  | case4 status headers body _ _ _ tx' reason heq =>
    have hbegin := beginResponseParts_shut h cfg status headers
    rw [heq] at hbegin
    exact hbegin
  | case5 status headers body _ _ _ tx' heq =>
    have hbegin := beginResponseParts_shut h cfg status headers
    rw [heq] at hbegin
    exact writeBodyParts_shut hbegin cfg _ _
  | case9 | case16 => exact beginResponseParts_shut h cfg _ _
  | case14 | case17 => exact writeBodyParts_shut h cfg _ _
  | case19 => exact fileStart_shut h cfg _ _ _
  | case21 =>
    refine finishResponse_shut ?_ cfg _
    exact h
  | case25 =>
    rw [emit_shut h]
    exact h
  | case28 => exact sendError_shut h cfg _ _
  | case29 => exact ⟨rfl, h.2⟩

theorem applyAppOutcome_shut (outcome : Outcome) : (applyAppOutcome cfg tx outcome).Shut wire := by
  cases outcome with
  | cancelled | disconnected => exact ⟨rfl, h.2⟩
  | raised =>
    simp only [applyAppOutcome, failResponse, writeError_shut h]
    split
    · exact finishResponse_shut h cfg _
    · exact ⟨rfl, h.2⟩
  | returned =>
    simp only [applyAppOutcome, failResponse, writeError_shut h]
    repeat' split
    · exact finishResponse_shut h cfg _
    · exact finishResponse_shut h cfg _
    · exact h

theorem endWebsocket_shut (status : Nat) : (endWebsocket cfg tx status).Shut wire := by
  unfold endWebsocket
  repeat' split
  · exact h
  · exact ⟨rfl, h.2⟩
  · exact sendError_shut h cfg _ _

theorem sendfile_shut (data : Bytes) : (sendfile tx data).Shut wire := by
  unfold sendfile
  rw [emit_shut h]
  split <;> exact h

end

/-! ## A reply that does not keep the connection closes it -/

/-- The framing decision never turns keep-alive on. -/
theorem decideBodyFraming_keepAlive {size : Nat}
    {streaming : Bool} (h : tx.responseKeepAlive = false) :
    (decideBodyFraming tx size streaming).responseKeepAlive = false := by
  unfold decideBodyFraming
  repeat' split
  all_goals first | exact h | rfl

theorem decideBodyFraming_complete (tx : Tx) (size : Nat) (streaming : Bool) :
    (decideBodyFraming tx size streaming).responseComplete = tx.responseComplete := by
  unfold decideBodyFraming
  repeat' split
  all_goals rfl

/-- Neither complete nor kept: what a policy reply stays until it ends. -/
def Tx.Closes (tx : Tx) : Prop := tx.responseKeepAlive = false ∧ tx.responseComplete = false

theorem emit_closes (h : tx.Closes) (w : Wire) : (tx.emit w).Closes := by
  obtain ⟨wire, hw⟩ := emit_frame tx w
  rw [hw]
  exact h

variable {cfg : ServerConfig}

theorem writeHead_closes {body : Bytes} {streaming : Bool} (h : tx.Closes) :
    (decideFramingAndWriteHead cfg tx body streaming).1.Closes := by
  have hframed : (decideBodyFraming tx body.length streaming).Closes :=
    ⟨decideBodyFraming_keepAlive h.1, (decideBodyFraming_complete _ _ _).trans h.2⟩
  unfold decideFramingAndWriteHead
  simp only
  have hhead := emit_closes hframed (.head (decideBodyFraming tx body.length streaming).wireHead)
  split
  · exact emit_closes hhead (.data body)
  · exact hhead

theorem writeBodyData_closes (h : tx.Closes) (body : Bytes) (suppress coalesced : Bool) :
    (writeBodyData tx body suppress coalesced).1.Closes := by
  have hput : ∀ tx : Tx, tx.Closes → (if coalesced then tx else tx.emit (.data body)).Closes := by
    intro tx h
    split
    · exact h
    · exact emit_closes h _
  fun_cases writeBodyData tx body suppress coalesced with
  | case1 | case2 => exact h
  | case3 | case5 => exact hput _ h
  | case4 => exact emit_closes h _

theorem finishResponse_closes (h : tx.responseComplete = false) :
    (finishResponse cfg tx false).closing = true := by
  unfold finishResponse
  rw [if_neg (by rw [h]; exact Bool.false_ne_true)]
  rfl

theorem endBody_closes {suppress : Bool}
    (h : tx.Closes) : (endBody cfg tx suppress).closing = true := by
  unfold endBody
  simp only
  have hshort : (closeShort tx suppress).Closes := by
    unfold closeShort
    split
    · exact ⟨rfl, h.2⟩
    · exact h
  generalize closeShort tx suppress = short at hshort ⊢
  generalize hlast : (if short.responseChunked && !suppress then
    short.emit (.data lastChunkText) else short) = last
  have hlast : last.Closes := by
    rw [← hlast]
    split
    · exact emit_closes hshort _
    · exact hshort
  rw [hlast.1]
  exact finishResponse_closes hlast.2

/-- **A FINAL BODY CLOSES**: unless it is refused, the last body of a response that does not
    keep the connection closes it. -/
theorem writeBodyParts_closes (cfg : ServerConfig) (body : Bytes) (h : tx.Closes)
    (hok : (writeBodyParts cfg tx body false).2 = none) :
    (writeBodyParts cfg tx body false).1.closing = true := by
  unfold writeBodyParts at hok ⊢
  simp only at hok ⊢
  have hhead : (if tx.headWritten then (tx, false)
      else decideFramingAndWriteHead cfg tx body false).1.Closes := by
    split
    · exact h
    · exact writeHead_closes h
  generalize (if tx.headWritten then (tx, false)
      else decideFramingAndWriteHead cfg tx body false) = start
    at hhead hok ⊢
  have hdata := writeBodyData_closes hhead body tx.responseSuppressBody start.2
  split
  · rename_i heq
    simp only [heq] at hok
    cases hok
  · rename_i heq
    rw [heq] at hdata
    exact endBody_closes hdata

end Http1Response
