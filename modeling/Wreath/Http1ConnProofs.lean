import Wreath.Http1InputProofs
import Wreath.Http1ResponseProofs
import Wreath.StepSystemProofs

/-! # One HTTP/1 connection — the parser, the tasks, the callbacks

The request half of a connection (`Rx`) with its response half (`Tx`), and the source's
drivers, one per parser state. An event is one thing the event loop can do: a read, a turn of
the driver loop, a call of the application, the end of its task, a timer. What holds along
every event list holds however the application's calls fall between the reads. -/

namespace Http1Conn

open ByteScan HttpHead ChunkedCoding Http1Input Http1Response Option

/-! ## State -/

/-- `ST_*`, without `ST_CLOSING` (the `closing` flag); a connection that was upgraded stays
    in `websocket`. -/
inductive ParserState where
  | readingHead
  | readingFixedBody
  | readingChunkSize
  | readingChunkData
  | readingChunkTrailers
  | requestRunning
  | websocket
  deriving Repr, DecidableEq

/-- What the server made of one request: where its head starts in the client's stream, the
    parsed head, and the body handed on so far. -/
structure RequestLog where
  start : Nat
  head : RequestHead
  body : Bytes
  received : Bool
  deriving Repr, DecidableEq

/-- The request half. `consumed`, `requests` and `verdict` record what happened: the octets
    eaten, the requests parsed, the status of the refusal that ended the connection. -/
structure Rx (β : Type) where
  input : β
  headTerminatorScan : Nat
  requestLineScan : Nat
  chunkLineScan : Nat
  trailerTerminatorScan : Nat
  state : ParserState
  remaining : Nat
  chunkRemaining : Nat
  bodyReceived : Nat
  bodyChunks : Nat
  task : Bool
  consumed : Bytes
  requests : List RequestLog
  verdict : Option Nat
  deriving Repr, DecidableEq

structure Conn (β : Type) where
  rx : Rx β
  tx : Tx
  deriving Repr, DecidableEq

/-- A fresh connection over an input buffer. -/
def Conn.fresh {β : Type} (input : β) : Conn β :=
  { rx :=
      { input := input, headTerminatorScan := 0, requestLineScan := 0
        chunkLineScan := 0, trailerTerminatorScan := 0
        state := .readingHead, remaining := 0, chunkRemaining := 0
        bodyReceived := 0, bodyChunks := 0, task := false, consumed := []
        requests := [], verdict := none }
    tx := .fresh }

/-- A native ingress policy's refusal. -/
structure PolicyReply where
  status : Int
  headers : List HeaderItem
  body : Bytes
  deriving Repr, DecidableEq

/-- The policy decisions, per request of the connection. -/
structure Policy where
  ingress : Nat → RequestHead → Option PolicyReply
  websocketOrigin : Nat → RequestHead → Option PolicyReply

/-- No policy refuses anything. -/
def Policy.open : Policy := { ingress := fun _ _ => none, websocketOrigin := fun _ _ => none }

section Drivers

variable {β : Type} [ReadBuffer β]

/-- The octets between cursor and end of the buffer. -/
def Rx.unread (rx : Rx β) : Bytes := ReadBuffer.unread rx.input

variable (rx : Rx β) (cfg : ServerConfig) (policy : Policy) (c : Conn β)

/-- `do_consume`: every scan offset is relative to the cursor, so consuming resets them all. -/
def Rx.doConsume (count : Nat) : Rx β :=
  { rx with
    input := ReadBuffer.consume rx.input count
    headTerminatorScan := 0, requestLineScan := 0
    chunkLineScan := 0, trailerTerminatorScan := 0
    consumed := rx.consumed ++ rx.unread.take count }

/-- Hand a body message to the last request of a list. -/
def deliver (chunk : Bytes) (more : Bool) :
    List RequestLog → List RequestLog
  | [] => []
  | [r] =>
    [{ r with body := r.body ++ chunk, received := r.received || !more }]
  | r :: rest => r :: deliver chunk more rest

/-- `enqueue_body`, as the application sees it. -/
def Rx.enqueueBody (chunk : Bytes) (more : Bool) : Rx β :=
  { rx with requests := deliver chunk more rx.requests }

/-- The terminator of a head and of a trailer section. -/
def blankLine : Bytes := [cr, lf, cr, lf]

/-- A driver's verdict on what is buffered. -/
def Conn.refuse (status : Nat) (asked : Asked) : Conn β :=
  { rx := { c.rx with verdict := some status }
    tx := sendError cfg c.tx status asked }

def Conn.refuseBody (status : Nat) : Conn β :=
  { rx := { c.rx with verdict := some status }
    tx := bodyError cfg c.tx status }

/-! ## Request paths -/

def isContinuation (b : UInt8) : Bool := 128 ≤ b && b ≤ 191

/-- Strict UTF-8. -/
def utf8Valid : Bytes → Bool
  | [] => true
  | b :: rest =>
    if b < 128 then utf8Valid rest
    else if 194 ≤ b && b ≤ 223 then
      match rest with
      | c :: rest => isContinuation c && utf8Valid rest
      | _ => false
    else if 224 ≤ b && b ≤ 239 then
      match rest with
      | c :: d :: rest =>
        isContinuation c && isContinuation d
          && !(b == 224 && c < 160) && !(b == 237 && 159 < c)
          && utf8Valid rest
      | _ => false
    else if 240 ≤ b && b ≤ 244 then
      match rest with
      | c :: d :: e :: rest =>
        isContinuation c && isContinuation d && isContinuation e
          && !(b == 240 && c < 144) && !(b == 244 && 143 < c)
          && utf8Valid rest
      | _ => false
    else false

/-- Percent-decoding; `none` for an encoded separator, which proxies route differently. -/
def percentDecode : Bytes → Option Bytes
  | [] => some []
  | [c] => some [c]
  | [c, d] => some [c, d]
  | c :: hi :: lo :: rest =>
    if c == ch '%' && httpHexDigit hi && httpHexDigit lo then
      let decoded := hexValue hi * 16 + hexValue lo
      if decoded == 47 || decoded == 92 then none
      else (percentDecode rest).map (decoded.toUInt8 :: ·)
    else (percentDecode (hi :: lo :: rest)).map (c :: ·)

/-- `wreath_decode_request_path`; `none` is `bad`. -/
def decodeRequestPath (rawPath : Bytes) : Option Bytes :=
  if ch '%' ∈ rawPath then
    match percentDecode rawPath with
    | none => none
    | some path => if utf8Valid path then some path else none
  else if utf8Valid rawPath then some rawPath else none

/-! ## WebSocket handshakes -/

/-- `wreath_ws_key_valid`: the base64 of sixteen octets. -/
def wsKeyValid (key : Bytes) : Bool :=
  key.length == 24 && key.drop 22 == [61, 61]
    && (key.take 22).all (fun b => isAlpha b || isDigit b || b == 43 || b == 47)
    && [65, 81, 103, 119].contains (key.getD 21 0)

variable (head : RequestHead)

/-- The status that refuses a handshake, if any. -/
def websocketRefusal : Option Nat :=
  let keys := (head.headers.filter (fun f => f.1 == ascii "sec-websocket-key")).map Prod.snd
  let versions := (head.headers.filter (fun f => f.1 == ascii "sec-websocket-version")).map Prod.snd
  if head.method ≠ ascii "GET" ∨ head.minorVersion ≠ 1 ∨ keys.length ≠ 1
      ∨ 1 < versions.length
      ∨ wsKeyValid (trim isOws (keys.headD [])) = false then some 400
  else
    match versions with
    | [] => some 426
    | version :: _ =>
      if trim isOws version = ascii "13" then none else some 426

/-! ## Starting a request -/

/-- The method is HEAD, as far as the buffered octets tell. -/
def pendingIsHead (unread : Bytes) : Bool := unread.takeWhile asciiToken == ascii "HEAD"

/-- `send_policy_reply`: a refusal has no task to drain the body, so it always closes. An
    exception there tears the connection down. -/
def sendPolicyReply (keepAlive : Bool) (reply : PolicyReply) : Conn β :=
  let tx := { resetResponseState c.tx keepAlive with responseKeepAlive := false }
  let rx := { c.rx with state := .requestRunning }
  match beginResponseParts cfg tx (some reply.status)
      (.items reply.headers) with
  | (tx, some _) => { rx := rx, tx := tx.protocolClose }
  | (tx, none) =>
    match writeBodyParts cfg tx reply.body false with
    | (tx, some _) => { rx := rx, tx := tx.protocolClose }
    | (tx, none) => { rx := rx, tx := tx }

/-- The status that refuses an accepted head before any policy runs. -/
def headRefusal : Option Nat :=
  if decodeRequestPath (head.target.takeWhile (· != ch '?')) = none then
    some 400
  else if head.info.errStatus = 0 ∧ head.info.kind = .fixed
      ∧ cfg.maxBodyBytes < head.info.length then some 413
  else if head.info.errStatus ≠ 0 then some head.info.errStatus
  else none

/-- The body state a request starts in. -/
def bodyState (info : RequestMeta) : ParserState :=
  match info.kind with
  | .none => .requestRunning
  | .fixed =>
    if 0 < info.length then .readingFixedBody else .requestRunning
  | .chunked => .readingChunkSize

/-- The committed part of `begin_request`: reset the response state and set the body decoder up. -/
def startRequest : Conn β :=
  let hasBody := head.info.kind == .chunked || 0 < head.info.length
  let tx := if head.info.sendContinue && hasBody then c.tx.emit .interim else c.tx
  { rx := { c.rx with
      state := bodyState head.info
      remaining := if head.info.kind = .fixed then head.info.length else 0
      chunkRemaining := 0, bodyReceived := 0, bodyChunks := 0
      task := true }
    tx := { resetResponseState tx head.info.keepAlive with disconnected := false } }

/-- `begin_request`, up to the drain and the start of the application, which are further
    events; the flag tells the driver loop to go on. -/
def beginRequest : Conn β × Bool :=
  let index := c.rx.requests.length
  let isHead := head.method == ascii "HEAD"
  let c := { c with tx := c.tx.answering (head.minorVersion == 1) isHead }
  match headRefusal cfg head with
  | some status => (c.refuse cfg status (.accepted isHead), false)
  | none =>
    match policy.ingress index head with
    | some reply => (sendPolicyReply cfg c head.info.keepAlive reply, false)
    | none =>
      if head.info.upgradeRequest then
        match policy.websocketOrigin index head with
        | some reply =>
          (sendPolicyReply cfg c head.info.keepAlive reply, false)
        | none =>
          if head.info.kind = .chunked ∨ 0 < head.info.length
              ∨ head.info.sendContinue then
            (c.refuse cfg 400 (.accepted isHead), false)
          else
            match websocketRefusal head with
            | some status => (c.refuse cfg status (.accepted isHead), false)
            | none =>
              ({ rx := { c.rx with state := .websocket, task := true }
                 tx := { c.tx with
                   wsMode := true, wsAccepted := false
                   wsCloseSent := false, disconnected := false } },
                true)
      else (startRequest c head, true)

/-- A parsed head is logged and consumed. -/
def Rx.acceptHead : Rx β :=
  { rx.doConsume head.consumed with
    requests := rx.requests ++
      [{ start := rx.consumed.length, head := head, body := []
         received := false }] }

/-! ## The drivers -/

/-- `drive_head`. -/
def driveHead : Conn β × Bool :=
  let p := c.rx.unread
  let isHead := pendingIsHead p
  let headSearch := findSubFrom p blankLine c.rx.headTerminatorScan
  let lineSearch := findSubFrom p crlf c.rx.requestLineScan
  let searched := { c.rx with headTerminatorScan := headSearch.2 }
  let c₁ := { c with rx := searched }
  let c₂ := { c with rx := { searched with requestLineScan := lineSearch.2 } }
  match headSearch.1 with
  | none =>
    match lineSearch.1 with
    | none =>
      if cfg.maxRequestLine < p.length then
        (c₂.refuse cfg 414 (.refused isHead), false)
      else (c₂, false)
    | some lineEnd =>
      if cfg.maxRequestLine < lineEnd then
        (c₂.refuse cfg 414 (.refused isHead), false)
      else if cfg.maxHeaderBytes < p.length then
        (c₂.refuse cfg 431 (.refused isHead), false)
      else (c₂, false)
  | some headEnd =>
    if cfg.maxHeaderBytes < headEnd + 4 then
      (c₁.refuse cfg 431 (.refused isHead), false)
    else if lineSearch.1.any (fun lineEnd => cfg.maxRequestLine < lineEnd)
    then (c₂.refuse cfg 414 (.refused isHead), false)
    else
      match httpParseRequestParts p (some headEnd) cfg.maxHeaderCount with
      | .error .tooManyHeaders => (c₂.refuse cfg 431 (.refused isHead), false)
      | .error (.malformed _) => (c₂.refuse cfg 400 (.refused isHead), false)
      | .ok none => (c₂, false)
      | .ok (some head) =>
        if head.minorVersion = 1 ∧ head.info.hostCount ≠ 1 then
          (c₂.refuse cfg 400 (.refused isHead), false)
        else
          beginRequest cfg policy
            { rx := c₂.rx.acceptHead head
              tx := { c₂.tx with deadlineIsRequest := true } } head

/-- `drive_fixed_body`. -/
def driveFixedBody : Conn β × Bool :=
  let p := c.rx.unread
  if p = [] then (c, false)
  else
    let take := min c.rx.remaining p.length
    let rx := c.rx.doConsume take
    let rx := { rx with remaining := rx.remaining - take }
    let more := 0 < rx.remaining
    let rx := rx.enqueueBody (p.take take) more
    if more then ({ c with rx := rx }, true)
    else ({ c with rx := { rx with state := .requestRunning } }, false)

/-- The digits of `parse_hex` under its overflow test. -/
def hexUpTo (limit : Nat) : Bytes → Nat → Option Nat
  | [], value => some value
  | b :: rest, value =>
    if httpHexDigit b ∧ value ≤ (limit - hexValue b) / 16 then
      hexUpTo limit rest (value * 16 + hexValue b)
    else none

def parseHex (text : Bytes) : Option Nat := if text = [] then none else hexUpTo pySsizeTMax text 0

/-- What follows a quoted string whose opening quote was read. -/
def quotedTail : Bytes → Option Bytes
  | [] => none
  | c :: rest =>
    if c == ch '"' then some rest
    else if c == ch '\\' then
      match rest with
      | [] => none
      | d :: rest' => if isValueStop d then none else quotedTail rest'
    else if isValueStop c then none
    else quotedTail rest

/-- What follows an extension value: a quoted string or a token. -/
def extensionValueTail (value : Bytes) : Option Bytes :=
  if value.head? == some (ch '"') then quotedTail value.tail
  else if value.takeWhile asciiToken = [] then none
  else some (value.dropWhile asciiToken)

/-- The loop of `chunk_extensions_valid`; every turn eats a semicolon, so the length of the
    text bounds the turns. -/
def chunkExtensionsLoop : Nat → Bytes → Bool
  | _, [] => true
  | 0, _ :: _ => false
  | fuel + 1, c :: rest =>
    let name := rest.dropWhile isOws
    let afterName := (name.dropWhile asciiToken).dropWhile isOws
    if c != ch ';' then false
    else if name.takeWhile asciiToken = [] then false
    else if afterName.head? == some (ch '=') then
      match extensionValueTail (afterName.tail.dropWhile isOws) with
      | none => false
      | some tail => chunkExtensionsLoop fuel (tail.dropWhile isOws)
    else chunkExtensionsLoop fuel afterName

def chunkExtensionsValid (extensions : Bytes) : Bool :=
  chunkExtensionsLoop extensions.length extensions

/-- The size a chunk line announces; `none` is a malformed line. -/
def chunkLineSize (line : Bytes) : Option Nat :=
  let extensions := line.dropWhile (· != ch ';')
  match parseHex (sizeField line) with
  | none => none
  | some size => if chunkExtensionsValid extensions then some size else none

/-- `drive_chunk_size`. -/
def driveChunkSize : Conn β × Bool :=
  let p := c.rx.unread
  let search := findSubFrom p crlf c.rx.chunkLineScan
  let c := { c with rx := { c.rx with chunkLineScan := search.2 } }
  match search.1 with
  | none =>
    if cfg.maxRequestLine < p.length then (c.refuseBody cfg 400, false)
    else (c, false)
  | some lineEnd =>
    match chunkLineSize (p.take lineEnd) with
    | none => (c.refuseBody cfg 400, false)
    | some size =>
      let rx := c.rx.doConsume (lineEnd + 2)
      if size = 0 then
        ({ c with rx := { rx with state := .readingChunkTrailers } }, true)
      else if cfg.maxBodyChunks ≤ rx.bodyChunks then
        (({ c with rx := rx } : Conn β).refuseBody cfg 413, false)
      else
        let rx := { rx with bodyChunks := rx.bodyChunks + 1 }
        if cfg.maxBodyBytes < size
            ∨ cfg.maxBodyBytes - size < rx.bodyReceived then
          (({ c with rx := rx } : Conn β).refuseBody cfg 413, false)
        else
          ({ c with rx := { rx with
              bodyReceived := rx.bodyReceived + size
              chunkRemaining := size
              state := .readingChunkData } }, true)

/-- `drive_chunk_data` hands on `take` octets of the current chunk. -/
def Rx.takeChunk (take : Nat) : Rx β :=
  let data := rx.unread.take take
  let rx := rx.doConsume take
  let rx := { rx with chunkRemaining := rx.chunkRemaining - take }
  if take = 0 then rx else rx.enqueueBody data true

/-- `drive_chunk_data`. -/
def driveChunkData : Conn β × Bool :=
  let p := c.rx.unread
  if p = [] then (c, false)
  else
    let rx := c.rx.takeChunk (min c.rx.chunkRemaining p.length)
    let c := { c with rx := rx }
    if rx.chunkRemaining ≠ 0 then (c, true)
    else
      let q := rx.unread
      if q.length < 2 then (c, false)
      else if q.take 2 ≠ crlf then (c.refuseBody cfg 400, false)
      else
        ({ c with rx := { rx.doConsume 2 with state := .readingChunkSize } }, true)

/-- One line of a trailer block. -/
def trailerLineValid (line : Bytes) : Bool :=
  let name := line.takeWhile (· != ch ':')
  let value := (line.dropWhile (· != ch ':')).tail.dropWhile isOws
  line.contains (ch ':') && fieldNameValid name && fieldValueValid value
    && !(equalCi name nameHost || equalCi name nameContentLength
      || equalCi name nameTransferEncoding)

/-- The line loop of `validate_trailer_block`. -/
def trailerLinesValid (maxCount : Nat) : List Bytes → Nat → Bool
  | [], _ => true
  | [last], _ => last == []
  | line :: rest, count =>
    decide (count + 1 ≤ maxCount) && trailerLineValid line
      && trailerLinesValid maxCount rest (count + 1)

def validateTrailerBlock (block : Bytes) (maxCount : Nat) : Bool :=
  trailerLinesValid maxCount (splitCrlf block) 0

/-- The end of a chunked body: an empty final message. -/
def finishTrailers (count : Nat) : Rx β :=
  { (rx.doConsume count).enqueueBody [] false with state := .requestRunning }

/-- `drive_chunk_trailers`. -/
def driveChunkTrailers : Conn β × Bool :=
  let p := c.rx.unread
  if p.take 2 = crlf then ({ c with rx := finishTrailers c.rx 2 }, false)
  else
    let search := findSubFrom p blankLine c.rx.trailerTerminatorScan
    let c := { c with rx := { c.rx with trailerTerminatorScan := search.2 } }
    match search.1 with
    | none =>
      if cfg.maxHeaderBytes < p.length then (c.refuseBody cfg 431, false)
      else (c, false)
    | some blockEnd =>
      if validateTrailerBlock (p.take (blockEnd + 2)) cfg.maxHeaderCount
      then ({ c with rx := finishTrailers c.rx (blockEnd + 4) }, false)
      else (c.refuseBody cfg 400, false)

/-- One turn of the loop of `run_drive`. -/
def driveOnce : Conn β × Bool :=
  if c.tx.closing then (c, false)
  else
    match c.rx.state with
    | .readingHead => driveHead cfg policy c
    | .readingFixedBody => driveFixedBody c
    | .readingChunkSize => driveChunkSize cfg c
    | .readingChunkData => driveChunkData cfg c
    | .readingChunkTrailers => driveChunkTrailers cfg c
    | .requestRunning => (c, false)
    | .websocket => (c, false)

/-! ## Tasks and callbacks -/

/-- `reset_request` and the return to the head state: the turn-over of a kept connection. -/
def Rx.resetRequest : Rx β :=
  { rx with remaining := 0, chunkRemaining := 0, bodyReceived := 0
            bodyChunks := 0, state := .readingHead }

/-- `apply_app_outcome`. -/
def applyOutcome (outcome : Outcome) : Conn β :=
  let rx := { c.rx with task := false }
  match c.tx.wsMode, outcome with
  | true, .raised => { rx := rx, tx := endWebsocket cfg c.tx 500 }
  | true, .returned => { rx := rx, tx := endWebsocket cfg c.tx 403 }
  | _, _ =>
    let tx := applyAppOutcome cfg c.tx outcome
    if tx.wantNext && !tx.closing then
      { rx := rx.resetRequest, tx := { tx with wantNext := false } }
    else { rx := rx, tx := tx }

/-- What the event loop can do to a connection. -/
inductive Event where
  | read (op : ReadOp)
  | drive
  | app (call : AppCall)
  | done (outcome : Outcome)
  | sendfile (data : Bytes)
  | deadline
  | eof
  | connectionLost
  | stopAccepting
  | shutdown
  deriving Repr, DecidableEq

/-- One event; `none` is an event that cannot happen: a read the transport may not make, or
    an application that was never started. -/
def step : Event → Option (Conn β)
  | .read op =>
    if c.tx.closing then some c
    else
      match ReadBuffer.ingest c.rx.input op with
      | none => none
      | some input => some { c with rx := { c.rx with input := input } }
  | .drive => some (driveOnce cfg policy c).1
  | .app call =>
    if c.rx.requests = [] then none
    else some { c with tx := (appCall cfg c.tx call).1 }
  | .done outcome =>
    if c.rx.task then some (applyOutcome cfg c outcome) else none
  | .sendfile data => some { c with tx := sendfile c.tx data }
  | .deadline =>
    if c.tx.closing then some c
    else some { c with tx := enforceDeadline cfg c.tx }
  | .eof => some { c with tx := { c.tx with disconnected := true } }
  | .connectionLost =>
    some { c with tx := { c.tx with disconnected := true, closing := true } }
  | .stopAccepting =>
    let tx := { c.tx with accepting := false }
    if c.rx.state = .readingHead ∧ c.rx.task = false then
      some { c with tx := tx.protocolClose }
    else some { c with tx := tx }
  | .shutdown => some { c with tx := c.tx.protocolClose }

/-! ## What the parser operations leave alone -/

@[simp] theorem Rx.doConsume_unread (n : Nat) : (rx.doConsume n).unread = rx.unread.drop n :=
  ReadBuffer.unread_consume _ _

/-- Where each request starts, and its head. -/
def Rx.marks : List (Nat × RequestHead) := rx.requests.map (fun r => (r.start, r.head))

theorem deliver_marks (chunk : Bytes) (more : Bool) : ∀ requests : List RequestLog,
      (deliver chunk more requests).map (fun r => (r.start, r.head))
        = requests.map (fun r => (r.start, r.head))
  | [] => rfl
  | [_] => rfl
  | r :: r' :: rest => by
      show (r.start, r.head) :: (deliver chunk more (r' :: rest)).map _ = _
      rw [deliver_marks chunk more (r' :: rest)]
      rfl

theorem deliver_eq_nil {chunk : Bytes} {more : Bool} {requests : List RequestLog} :
    deliver chunk more requests = [] ↔ requests = [] := by
  match requests with
  | [] => exact Iff.rfl
  | [r] => exact ⟨nofun, nofun⟩
  | r :: r' :: rest => exact ⟨nofun, nofun⟩

omit [ReadBuffer β] in
@[simp] theorem Rx.enqueueBody_marks (chunk : Bytes)
    (more : Bool) : (rx.enqueueBody chunk more).marks = rx.marks :=
  deliver_marks chunk more rx.requests

/-- The saved scan offsets. -/
def Rx.scans :=
  (rx.headTerminatorScan, rx.requestLineScan, rx.chunkLineScan, rx.trailerTerminatorScan)

/-- Every saved scan offset is settled. -/
structure Rx.Scans (rx : Rx β) : Prop where
  head : Settled blankLine rx.unread rx.headTerminatorScan
  line : Settled crlf rx.unread rx.requestLineScan
  chunk : Settled crlf rx.unread rx.chunkLineScan
  trailer : Settled blankLine rx.unread rx.trailerTerminatorScan

/-- Consuming resets every offset. -/
theorem Rx.Scans.reset {rx : Rx β} (h : rx.scans = (0, 0, 0, 0)) : rx.Scans := by
  simp only [Rx.scans, Prod.mk.injEq] at h
  obtain ⟨h₁, h₂, h₃, h₄⟩ := h
  constructor
  · rw [h₁]; exact settled_zero _ _
  · rw [h₂]; exact settled_zero _ _
  · rw [h₃]; exact settled_zero _ _
  · rw [h₄]; exact settled_zero _ _

theorem Rx.Scans.congr {rx rx' : Rx β} (h : rx.Scans)
    (hsame : (rx'.input, rx'.scans) = (rx.input, rx.scans)) : rx'.Scans := by
  simp only [Rx.scans, Prod.mk.injEq] at hsame
  obtain ⟨hinput, hhead, hline, hchunk, htrailer⟩ := hsame
  have hunread : rx'.unread = rx.unread := by rw [Rx.unread, hinput, Rx.unread]
  constructor
  · rw [hunread, hhead]; exact h.head
  · rw [hunread, hline]; exact h.line
  · rw [hunread, hchunk]; exact h.chunk
  · rw [hunread, htrailer]; exact h.trailer

theorem blankLine_ne : blankLine ≠ [] := by decide

theorem crlf_ne : crlf ≠ [] := by decide

omit [ReadBuffer β] in
@[simp] theorem Conn.refuse_closing (status : Nat) (asked : Asked) :
    (c.refuse cfg status asked).tx.closing = true :=
  sendError_closing _ _ _ _

omit [ReadBuffer β] in
@[simp] theorem Conn.refuseBody_closing
    (status : Nat) : (c.refuseBody cfg status).tx.closing = true :=
  sendError_closing _ _ _ _

omit [ReadBuffer β] in
/-- **POLICY REPLIES CLOSE**: no octet behind a refused head is read. -/
theorem sendPolicyReply_closing (keepAlive : Bool) (reply : PolicyReply) :
    (sendPolicyReply cfg c keepAlive reply).tx.closing = true := by
  unfold sendPolicyReply
  simp only
  obtain ⟨_, _, _, _, _, _, _, hbegin⟩ := beginResponseParts_frame cfg
    { resetResponseState c.tx keepAlive with responseKeepAlive := false }
    (some reply.status) (.items reply.headers)
  split
  · rfl
  rename_i tx heq
  rw [heq] at hbegin
  have hcls : tx.Closes := by
    rw [show tx = _ from hbegin]
    exact ⟨rfl, rfl⟩
  split
  · rfl
  · rename_i tx' hbody
    have := writeBodyParts_closes cfg reply.body hcls
    rw [hbody] at this
    exact this rfl

/-! ## No octet is lost or read twice -/

/-- The client's octets so far: those consumed, then those unread. -/
def Rx.octets : Bytes := rx.consumed ++ rx.unread

@[simp] theorem Rx.doConsume_octets (n : Nat) : (rx.doConsume n).octets = rx.octets := by
  show (rx.consumed ++ rx.unread.take n) ++ (rx.doConsume n).unread = _
  rw [Rx.doConsume_unread, List.append_assoc, List.take_append_drop]
  rfl

theorem sendPolicyReply_octets (keepAlive : Bool) (reply : PolicyReply) :
    (sendPolicyReply cfg c keepAlive reply).rx.octets = c.rx.octets := by
  unfold sendPolicyReply
  simp only
  repeat' split
  all_goals rfl

theorem beginRequest_octets (head : RequestHead) :
    (beginRequest cfg policy c head).1.rx.octets = c.rx.octets := by
  fun_cases beginRequest cfg policy c head with
  | case2 | case3 => rw [sendPolicyReply_octets]
  | _ => rfl

theorem driveHead_octets : (driveHead cfg policy c).1.rx.octets = c.rx.octets := by
  fun_cases driveHead cfg policy c with
  | case12 =>
    rw [beginRequest_octets]
    exact Rx.doConsume_octets _ _
  | _ => rfl

theorem driveFixedBody_octets : (driveFixedBody c).1.rx.octets = c.rx.octets := by
  fun_cases driveFixedBody c with
  | case1 => rfl
  | case2 | case3 => exact Rx.doConsume_octets c.rx _

theorem driveChunkSize_octets : (driveChunkSize cfg c).1.rx.octets = c.rx.octets := by
  fun_cases driveChunkSize cfg c with
  | case1 | case2 | case3 => rfl
  | _ => exact Rx.doConsume_octets c.rx _

theorem driveChunkData_octets : (driveChunkData cfg c).1.rx.octets = c.rx.octets := by
  unfold driveChunkData
  simp only
  split
  · rfl
  generalize hrx : c.rx.takeChunk (min c.rx.chunkRemaining c.rx.unread.length) = rx
  have htaken : rx.octets = c.rx.octets := by
    rw [← hrx]
    unfold Rx.takeChunk
    split
    · exact Rx.doConsume_octets c.rx _
    · exact Rx.doConsume_octets c.rx _
  split
  · exact htaken
  split
  · exact htaken
  split
  · exact htaken
  · exact (Rx.doConsume_octets rx 2).trans htaken

theorem driveChunkTrailers_octets : (driveChunkTrailers cfg c).1.rx.octets = c.rx.octets := by
  fun_cases driveChunkTrailers cfg c with
  | case1 | case4 => exact Rx.doConsume_octets c.rx _
  | _ => rfl

/-- A turn of the driver loop moves octets from unread to consumed. -/
theorem driveOnce_octets : (driveOnce cfg policy c).1.rx.octets = c.rx.octets := by
  unfold driveOnce
  split
  · rfl
  split
  · exact driveHead_octets cfg policy c
  · exact driveFixedBody_octets c
  · exact driveChunkSize_octets cfg c
  · exact driveChunkData_octets cfg c
  · exact driveChunkTrailers_octets cfg c
  · rfl
  · rfl

theorem applyOutcome_octets (outcome : Outcome) :
    (applyOutcome cfg c outcome).rx.octets = c.rx.octets := by
  unfold applyOutcome
  simp only
  split
  · rfl
  · rfl
  · split <;> rfl

variable {cfg : ServerConfig} {c : Conn β}

omit [ReadBuffer β] in
theorem applyOutcome_shut {wire : List Wire} (outcome : Outcome) (h : c.tx.Shut wire) :
    (applyOutcome cfg c outcome).tx.Shut wire := by
  unfold applyOutcome
  simp only
  split
  · exact endWebsocket_shut h cfg 500
  · exact endWebsocket_shut h cfg 403
  · split
    · exact applyAppOutcome_shut h cfg _
    · exact applyAppOutcome_shut h cfg _

variable {e : Event} {policy : Policy} {c' : Conn β}

/-- **CLOSING IS FOR GOOD**: whatever happens next, the connection stays closing and nothing
    more is written. -/
theorem step_shut {wire : List Wire} (hshut : c.tx.Shut wire)
    (h : step cfg policy c e = some c') : c'.tx.Shut wire := by
  revert h
  fun_cases step cfg policy c e with
  | case2 | case5 | case8 => rintro ⟨⟩
  | case3 _ hopen | case11 hopen => exact absurd hshut.1 hopen
  | case4 =>
    rw [driveOnce, if_pos hshut.1]
    exact fun h => some.inj h ▸ hshut
  | case6 call => exact fun h => some.inj h ▸ appCall_shut hshut cfg call
  | case7 outcome => exact fun h => some.inj h ▸ applyOutcome_shut outcome hshut
  | case9 data => exact fun h => some.inj h ▸ sendfile_shut hshut data
  | case13 | case14 | case16 => exact fun h => some.inj h ▸ ⟨rfl, hshut.2⟩
  | _ => exact fun h => some.inj h ▸ hshut

theorem step_closing (hclose : c.tx.closing = true)
    (h : step cfg policy c e = some c') : c'.tx.closing = true :=
  (step_shut ⟨hclose, rfl⟩ h).1

/-- The octets an event brings in. -/
def Event.octets : Event → Bytes
  | .read op => op.payload
  | _ => []

/-- What a client sent in a run. -/
def received (events : List Event) : Bytes := events.flatMap Event.octets

/-- An event on an open connection adds exactly its own octets; on a closing one nothing is
    read any more. -/
theorem step_octets (hsound : ReadBuffer.Sound c.rx.input) (h : step cfg policy c e = some c') :
    c'.rx.octets = c.rx.octets ++ (if c.tx.closing then [] else e.octets) := by
  have hquiet : e.octets = [] → c'.rx.octets = c.rx.octets → c'.rx.octets
        = c.rx.octets ++ (if c.tx.closing then [] else e.octets) := by
    intro he hc
    rw [he, ite_self, List.append_nil, hc]
  revert h
  fun_cases step cfg policy c e with
  | case1 op hclose =>
    intro h
    rw [if_pos hclose, List.append_nil, some.inj h]
  | case2 | case5 | case8 => rintro ⟨⟩
  | case3 op hopen input hin =>
    rintro ⟨⟩
    obtain ⟨-, hunread⟩ := ReadBuffer.ingest_unread _ _ _ hsound hin
    rw [if_neg hopen]
    show c.rx.consumed ++ ReadBuffer.unread input = _
    rw [hunread, ← List.append_assoc]
    rfl
  | case4 => exact fun h => hquiet rfl (some.inj h ▸ driveOnce_octets cfg policy c)
  | case7 outcome => exact fun h => hquiet rfl (some.inj h ▸ applyOutcome_octets cfg c outcome)
  | _ => exact fun h => hquiet rfl (some.inj h ▸ rfl)

end Drivers

/-- Small limits, no default headers. -/
def plainConfig : ServerConfig :=
  { maxRequestLine := 8192, maxHeaderCount := 100, maxHeaderBytes := 65536
    maxBodyBytes := 1048576, maxBodyChunks := 1024
    serverHeader := none, dateHeader := none, writelines := true
    limits_pos := by decide }

end Http1Conn
