import Wreath.HttpHeadProofs
import Wreath.ResumableProofs

/-! # Reading a response — the client's HTTP/1 stream

`httpParseResponseParts` reads a response head and decides its framing. `takeTurn` is
one round of `cs_take_response` over the bytes a stream has received: it takes some of
them for the response, or waits, or refuses.

Every byte has the number of requests that had been written when it was received, and a
response has the bytes that were taken for it. -/

namespace ClientResponse

open ByteScan HttpHead

/-! ## The head -/

/-- `http_is_ows`: the whitespace of `bytes.strip()`. -/
def httpIsOws (b : UInt8) : Bool := b == 32 || (9 ≤ b && b ≤ 13)

/-- The elements of a list field. -/
def elements (value : Bytes) : List Bytes := (value.splitOn (ch ',')).map (trim httpIsOws)

structure HeadFields where
  headers : List Field
  firstLength : Option Bytes
  conflict : Bool
  transferCount : Nat
  chunkedCount : Nat
  lastIsChunked : Bool
  sawClose : Bool
  sawKeepAlive : Bool

def HeadFields.empty : HeadFields := ⟨[], none, false, 0, 0, false, false, false⟩

/-- One coding of a Transfer-Encoding field. -/
def scanCoding (scan : HeadFields) (coding : Bytes) : HeadFields :=
  let chunked := equalCi coding tokenChunked
  { scan with
    lastIsChunked := chunked
    chunkedCount := scan.chunkedCount + chunked.toNat
    transferCount := scan.transferCount + 1 }

def scanResponseField (scan : HeadFields) (name value : Bytes) : HeadFields :=
  let scan := { scan with headers := scan.headers ++ [(name, value)] }
  if name = nameContentLength then
    match scan.firstLength with
    | none => { scan with firstLength := some value }
    | some first => { scan with conflict := scan.conflict || value != first }
  else if name = nameTransferEncoding then
    (elements value).foldl scanCoding scan
  else if name = nameConnection then
    { scan with
      sawClose := scan.sawClose || (elements value).any (equalCi · (ascii "close"))
      sawKeepAlive := scan.sawKeepAlive || (elements value).any (equalCi · (ascii "keep-alive")) }
  else scan

/-- The header loop; every round takes a line. -/
def scanResponseHeaders : Nat → Bytes → HeadFields → Except String HeadFields
  | _, [], scan => .ok scan
  | 0, _ :: _, scan => .ok scan
  | fuel + 1, b :: block, scan =>
    match httpHeaderLine (b :: block) with
    | .error reason => .error reason
    | .ok (name, value, rest) =>
      scanResponseHeaders fuel rest (scanResponseField scan (lower name) value)

inductive Framing where
  | none
  | chunked
  | length (n : Nat)
  | close
  deriving Repr, DecidableEq

structure ResponseHead where
  minor : Nat
  status : Nat
  reason : Bytes
  headers : List Field
  framing : Framing
  reusable : Bool
  consumed : Nat

/-- Minor version, status, reason and what follows the status line. -/
def statusLine (block : Bytes) : Except String (Nat × Nat × Bytes × Bytes) :=
  let byte := fun i => block.getD i 0
  let digit := fun i => (byte i).toNat - 48
  if block.length < 14 ∨ ¬ascii "HTTP/1." <+: block ∨
      ¬(byte 7 = ch '0' ∨ byte 7 = ch '1') ∨ byte 8 ≠ ch ' ' ∨
      !isDigit (byte 9) ∨ !isDigit (byte 10) ∨ !isDigit (byte 11) ∨
      ¬(byte 12 = ch ' ' ∨ byte 12 = cr) then
    .error "malformed response status line"
  else
    let status := digit 9 * 100 + digit 10 * 10 + digit 11
    if status < 100 then .error "malformed response status"
    else
      let start := if byte 12 = ch ' ' then 13 else 12
      let reason := (block.drop start).takeWhile (· != cr)
      let rest := (block.drop start).dropWhile (· != cr)
      if reason.any isValueStop then .error "invalid response reason"
      else if crlf <+: rest then .ok (digit 7, status, reason, rest.drop 2)
      else .error "malformed response status line"

def contentLengthLoop : Bytes → Nat → Except String Nat
  | [], length => .ok length
  | d :: rest, length =>
    if !isDigit d then .error "invalid response content-length"
    else if (pySsizeTMax - (d.toNat - 48)) / 10 < length then
      .error "Python int too large to convert to C ssize_t"
    else contentLengthLoop rest (length * 10 + (d.toNat - 48))

/-- The value of a Content-Length. -/
def contentLength (text : Bytes) : Except String Nat :=
  if text = [] then .error "invalid response content-length"
  else contentLengthLoop text 0

def framingOf (method : String) (status : Nat) (scan : HeadFields) : Except String Framing :=
  if status = 204 ∨ status = 304 ∨ method = "HEAD" then .ok .none
  else if scan.transferCount ≠ 0 then
    if scan.firstLength.isSome then
      .error "response has conflicting transfer-encoding and content-length"
    else if scan.lastIsChunked ∧ scan.chunkedCount = 1 then .ok .chunked
    else .error "unsupported response transfer-encoding"
  else
    match scan.firstLength with
    | none => .ok .close
    | some text =>
      if scan.conflict then
        .error "response has conflicting content-length values"
      else (contentLength text).map .length

/-- The head and the fields it has, or nothing when it is not complete. -/
def parseHead (data : Bytes) : Except String (Option (Nat × Nat × Bytes × HeadFields × Nat)) :=
  match findSub (crlf ++ crlf) data with
  | none => .ok none
  | some i => do
      let (minor, status, reason, rest) ← statusLine (data.take (i + 2))
      let scan ← scanResponseHeaders rest.length rest .empty
      .ok (some (minor, status, reason, scan, i + 4))

/-- `wreath_http_parse_response_parts` with a method. -/
def httpParseResponseParts (data : Bytes) (method : String) :
    Except String (Option ResponseHead) := do
  match ← parseHead data with
  | none => .ok none
  | some (minor, status, reason, scan, consumed) =>
    let framing ← framingOf method status scan
    .ok (some
      { minor := minor, status := status, reason := reason
        headers := scan.headers, framing := framing
        reusable := framing ≠ .close && !scan.sawClose && (minor ≠ 0 || scan.sawKeepAlive)
        consumed := consumed })

/-! ## The response -/

/-- A byte, and how many requests had been written when it was received. -/
structure Octet where
  byte : UInt8
  after : Nat
  deriving Repr, DecidableEq

variable (eof : Bool) (r : Reading) (buffer : List Octet)

def bytes : Bytes := buffer.map Octet.byte

/-- `ClientResponse`, with the bytes it was built from. -/
structure Response where
  status : Nat
  headers : List Field
  body : Bytes
  minor : Nat
  reason : Bytes
  used : List Octet
  deriving Repr, DecidableEq

inductive Refusal where
  | protocol (message : String)
  | tooLarge
  | timeout
  | transport
  | cancelled
  deriving Repr, DecidableEq

inductive Phase where
  | head
  | length
  | close
  | chunkSize
  | chunkData
  | trailers
  deriving Repr, DecidableEq

/-- The response state of the stream. -/
structure Reading where
  method : String
  maxHeader : Nat
  maxBody : Nat
  phase : Phase
  length : Nat
  trailers : Nat
  minor : Nat
  status : Nat
  headers : List Field
  reason : Bytes
  reusable : Bool
  body : Bytes
  informational : Nat
  used : List Octet
  deriving Repr, DecidableEq

/-- `cs_start_response`. -/
def Reading.start (method : String) (maxHeader maxBody : Nat) : Reading :=
  ⟨method, maxHeader, maxBody, .head, 0, 0, 0, 0, [], [], false, [], 0, []⟩

/-- `cs_response_consume`: the bytes are taken for the response. -/
def Reading.take (r : Reading) (buffer : List Octet) (n : Nat) : Reading :=
  { r with used := r.used ++ buffer.take n }

/-- `cs_finish_response`. -/
def Reading.finish (body : Bytes) : Response :=
  ⟨r.status, r.headers, body, r.minor, r.reason, r.used⟩

def maxInformationalResponses : Nat := 16

open Resumable (Turn)

abbrev Round := Turn Reading Response Refusal

/-- More bytes are needed, and may come. -/
def await (message : String) : Round := if eof then .fail (.protocol message) else .pause 0 [] r

def unsolicited : Round := .fail (.protocol "unsolicited bytes follow the framed response body")

/-- The response is complete with the next `n` bytes, and nothing follows. -/
def complete (n : Nat) (body : Bytes) : Round :=
  if n < buffer.length then unsolicited
  else
    let r' := r.take buffer n
    .pause n [r'.finish body] r'

/-- The head of a final response. -/
def takeFinal (head : ResponseHead) : Round :=
  let r' := { r with
    minor := head.minor, status := head.status, headers := head.headers
    reason := head.reason, reusable := head.reusable }
  match head.framing with
  | .none => complete r' buffer head.consumed []
  | .length n =>
    if r.maxBody < n then .fail .tooLarge
    else
      .go head.consumed [] { r'.take buffer head.consumed with phase := .length, length := n }
  | .chunked =>
    .go head.consumed [] { r'.take buffer head.consumed with phase := .chunkSize, body := [] }
  | .close =>
    .go head.consumed [] { r'.take buffer head.consumed with phase := .close }

def takeHead : Round :=
  match findSub (crlf ++ crlf) (bytes buffer) with
  | none =>
    if r.maxHeader < buffer.length then
      .fail (.protocol "response headers exceed configured limit")
    else await eof r "upstream closed before response headers completed"
  | some i =>
    if r.maxHeader < i + 4 then
      .fail (.protocol "response headers exceed configured limit")
    else
      match httpParseResponseParts ((bytes buffer).take (i + 4)) r.method with
      | .error message => .fail (.protocol message)
      | .ok none => .fail (.protocol "complete response head was not parsed")
      | .ok (some head) =>
        if head.status = 101 then
          .fail (.protocol "protocol switching is not supported")
        else if head.status < 200 then
          if maxInformationalResponses < r.informational + 1 then
            .fail (.protocol "too many informational responses")
          else
            .go head.consumed []
              { r.take buffer head.consumed with informational := r.informational + 1 }
        else takeFinal r buffer head

def takeLength : Round :=
  if buffer.length < r.length then
    await eof r "upstream closed before response body completed"
  else complete r buffer r.length ((bytes buffer).take r.length)

def takeClose : Round :=
  if r.maxBody < buffer.length then .fail .tooLarge
  else if eof then complete r buffer buffer.length (bytes buffer)
  else .pause 0 [] r

def chunkSizeLoop : Bytes → Nat → Except Refusal Nat
  | [], size => .ok size
  | c :: rest, size =>
    if c = ch ';' then .ok size
    else if !httpHexDigit c then
      .error (.protocol "invalid response chunk size")
    else if pySsizeTMax / 16 < size then .error .tooLarge
    else chunkSizeLoop rest (size * 16 + hexValue c)

/-- The size of a chunk: hexadecimal digits, up to a `;` if there is one. -/
def chunkSize (line : Bytes) : Except Refusal Nat :=
  if line.head?.all (· == ch ';') then
    .error (.protocol "invalid response chunk size")
  else chunkSizeLoop line 0

def takeChunkSize : Round :=
  match findSub crlf (bytes buffer) with
  | none =>
    if 1024 < buffer.length then
      .fail (.protocol "response chunk line exceeds limit")
    else await eof r "upstream closed during response chunk"
  | some i =>
    if 1022 < i then .fail (.protocol "response chunk line exceeds limit")
    else
      match chunkSize ((bytes buffer).take i) with
      | .error e => .fail e
      | .ok 0 =>
        .go (i + 2) [] { r.take buffer (i + 2) with phase := .trailers }
      | .ok size =>
        if r.maxBody < r.body.length + size then .fail .tooLarge
        else
          .go (i + 2) [] { r.take buffer (i + 2) with phase := .chunkData, length := size }

def takeChunkData : Round :=
  if buffer.length < r.length + 2 then
    await eof r "upstream closed during response chunk"
  else if crlf <+: (bytes buffer).drop r.length then
    .go (r.length + 2) []
      { r.take buffer (r.length + 2) with
        phase := .chunkSize, body := r.body ++ (bytes buffer).take r.length }
  else .fail (.protocol "malformed response chunk terminator")

/-- A trailer line, which the head parser looks at. -/
def trailerLine (line : Bytes) : Option Refusal :=
  let name := line.takeWhile (· != ch ':')
  if name ≠ line ∧ (equalCi name nameContentLength ∨ equalCi name nameTransferEncoding) then
    some (.protocol "response trailer contains a framing field")
  else
    match parseHead (ascii "HTTP/1.1 200 OK\r\n" ++ line ++ crlf ++ crlf) with
    | .error message => some (.protocol message)
    | .ok none => some (.protocol "malformed response trailer")
    | .ok (some _) => none

def takeTrailers : Round :=
  match findSub crlf (bytes buffer) with
  | none =>
    if r.maxHeader < r.trailers + buffer.length then
      .fail (.protocol "response trailers exceed configured limit")
    else await eof r "upstream closed during response trailers"
  | some i =>
    if r.maxHeader < r.trailers + (i + 2) then
      .fail (.protocol "response trailers exceed configured limit")
    else if i = 0 then complete r buffer 2 r.body
    else
      match trailerLine ((bytes buffer).take i) with
      | some e => .fail e
      | none =>
        .go (i + 2) [] { r.take buffer (i + 2) with trailers := r.trailers + (i + 2) }

/-- One round of `cs_take_response`. -/
def takeTurn : Round :=
  match r.phase with
  | .head => takeHead eof r buffer
  | .length => takeLength eof r buffer
  | .close => takeClose eof r buffer
  | .chunkSize => takeChunkSize eof r buffer
  | .chunkData => takeChunkData eof r buffer
  | .trailers => takeTrailers eof r buffer

/-- `cs_take_response`. -/
def takeResponse : Except Refusal (List Response × Reading × List Octet) :=
  Resumable.loop (takeTurn eof) (buffer.length + 1) r buffer

/-! ## Where the bytes go -/

variable {eof : Bool} {r r' : Reading} {buffer rest : List Octet} {n : Nat} {es : List Response}

/-- A round takes bytes off the front; with a response it has taken all of them. -/
def Accounts (r : Reading) (buffer : List Octet) : Round → Prop
  | .go n es r' => es = [] ∧ r'.used ++ buffer.drop n = r.used ++ buffer
  | .pause n es r' =>
    r'.used ++ buffer.drop n = r.used ++ buffer ∧ ∀ a ∈ es, a.used = r'.used ∧ buffer.drop n = []
  | .fail _ => True

theorem Accounts.takes (h : r'.used = (r.take buffer n).used) :
    Accounts r buffer (.go n [] r') := by
  refine ⟨rfl, ?_⟩
  rw [h, Reading.take, List.append_assoc, List.take_append_drop]

theorem await_accounts {message : String} : Accounts r buffer (await eof r message) := by
  rw [await]
  split
  · trivial
  · exact ⟨rfl, nofun⟩

theorem complete_accounts {body : Bytes} (h : r'.used = r.used) :
    Accounts r buffer (complete r' buffer n body) := by
  rw [complete]
  split
  · trivial
  · rename_i hall
    have hnone := List.drop_eq_nil_of_le (Nat.le_of_not_lt hall)
    refine ⟨?_, fun a ha => ?_⟩
    · rw [Reading.take, h, List.append_assoc, List.take_append_drop]
    · rw [List.mem_singleton.mp ha]
      exact ⟨rfl, hnone⟩

theorem takeFinal_accounts {head : ResponseHead} : Accounts r buffer (takeFinal r buffer head) := by
  rw [takeFinal]
  split
  · exact complete_accounts rfl
  · split
    · trivial
    · exact .takes rfl
  · exact .takes rfl
  · exact .takes rfl

theorem takeHead_accounts : Accounts r buffer (takeHead eof r buffer) := by
  fun_cases takeHead eof r buffer with
  | case2 => exact await_accounts
  | case8 => exact .takes rfl
  | case9 => exact takeFinal_accounts
  | _ => trivial

theorem takeChunkSize_accounts : Accounts r buffer (takeChunkSize eof r buffer) := by
  fun_cases takeChunkSize eof r buffer with
  | case2 => exact await_accounts
  | case5 | case7 => exact .takes rfl
  | _ => trivial

theorem takeTrailers_accounts : Accounts r buffer (takeTrailers eof r buffer) := by
  fun_cases takeTrailers eof r buffer with
  | case2 => exact await_accounts
  | case4 => exact complete_accounts rfl
  | case6 => exact .takes rfl
  | _ => trivial

theorem takeTurn_accounts : Accounts r buffer (takeTurn eof r buffer) := by
  rw [takeTurn]
  split
  · exact takeHead_accounts
  · rw [takeLength]
    split
    · exact await_accounts
    · exact complete_accounts rfl
  · rw [takeClose]
    split
    · trivial
    split
    · exact complete_accounts rfl
    · exact ⟨rfl, nofun⟩
  · exact takeChunkSize_accounts
  · rw [takeChunkData]
    split
    · exact await_accounts
    split
    · exact .takes rfl
    · trivial
  · exact takeTrailers_accounts

/-- **NOTHING IS LEFT OVER**: what was taken and what is left are what there was, and with a
    response nothing is left. -/
theorem takeResponse_accounts (h : takeResponse eof r buffer = .ok (es, r', rest)) :
    r'.used ++ rest = r.used ++ buffer ∧ ∀ a ∈ es, a.used = r'.used ∧ rest = [] := by
  refine Resumable.loop_ends (P := fun r₁ b₁ => r₁.used ++ b₁ = r.used ++ buffer)
    (Q := fun es r₁ b₁ => r₁.used ++ b₁ = r.used ++ buffer ∧
      ∀ a ∈ es, a.used = r₁.used ∧ b₁ = []) ?_ ?_ ?_ rfl h
  · intro r₁ b₁ n es r₂ hp hgo
    have hacc : Accounts r₁ b₁ (takeTurn eof r₁ b₁) := takeTurn_accounts
    rw [hgo] at hacc
    exact ⟨hacc.1, hacc.2.trans hp⟩
  · intro r₁ b₁ n es r₂ hp hpause
    have hacc : Accounts r₁ b₁ (takeTurn eof r₁ b₁) := takeTurn_accounts
    rw [hpause] at hacc
    exact ⟨hacc.1.trans hp, hacc.2⟩
  · intro r₁ b₁ hp
    exact ⟨hp, nofun⟩

end ClientResponse
