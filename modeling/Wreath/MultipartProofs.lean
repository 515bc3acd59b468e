import Wreath.HttpHeadProofs
import Wreath.ResumableProofs

/-! # Multipart bodies — `multipart.c`, whole and in chunks

`parse` takes a complete body apart. `feed` and `finish` take it in chunks and hand out
events; a round of the loop of `feed` is `turn`, with a function for each phase. -/

namespace Multipart

open ByteScan HttpHead

/-! ## Boundaries -/

/-- The punctuation of a boundary: '()+_,-./:=? and the space. -/
def boundaryMarks : Bytes := ascii "'()+_,-./:=? "

/-- `multipart_boundary_valid`. -/
def boundaryValid (value : Bytes) : Bool :=
  1 ≤ value.length && value.length ≤ 70 && value.getLast? != some (ch ' ') &&
    value.all fun b => isDigit b || isAlpha b || boundaryMarks.contains b

def dashes : Bytes := ascii "--"

def opening (boundary : Bytes) : Bytes := dashes ++ boundary

def delimiter (boundary : Bytes) : Bytes := crlf ++ dashes ++ boundary

/-! ## Refusals -/

inductive Limit where
  | parts
  | headers
  | size
  deriving Repr, DecidableEq

/-- One constructor for each message; `limit` is a limit error. -/
inductive Refusal where
  | limit (l : Limit)
  | badBoundary
  | boundaryNotFound
  | closingBoundary
  | boundaryLine
  | unterminatedHeaders
  | unterminatedPart
  | headerLine
  | headerName
  | headerValue
  deriving Repr, DecidableEq

structure Config where
  boundary : Bytes
  maxParts : Int
  maxHeaderBytes : Int
  maxPartBytes : Int

variable (cfg : Config)

def Config.delim : Bytes := delimiter cfg.boundary

/-! ## Header lines -/

/-- The lines of a header block; CRLF ends a line and need not end the last. -/
def partLines (block : Bytes) : List Bytes :=
  let lines := splitCrlf block
  if lines.getLast? = some [] then lines.dropLast else lines

def partHeaderLine (line : Bytes) : Except Refusal Field :=
  let name := line.takeWhile (· != ch ':')
  let value := trim isOws (line.dropWhile (· != ch ':')).tail
  if name = [] ∨ name = line then .error .headerLine
  else if !name.all asciiToken then .error .headerName
  else if value.any isValueStop then .error .headerValue
  else .ok (lower name, value)

/-- `parse_part_headers`. -/
def parsePartHeaders (block : Bytes) : Except Refusal (List Field) :=
  (partLines block).mapM partHeaderLine

/-- The length of the header block and of what ends it. -/
def headerEnd (data : Bytes) : Option (Nat × Nat) :=
  if crlf <+: data then some (0, 2)
  else (findSub (crlf ++ crlf) data).map fun h => (h, h + 4)

/-- What may follow a delimiter. -/
def accepted (suffix : Bytes) : Bool :=
  crlf <+: suffix || dashes <+: suffix || suffix.head?.any isOws

/-- The first delimiter that ends a part; any other is content. -/
def findEnd (delim : Bytes) : Bytes → Option Nat
  | [] => none
  | b :: data =>
    if delim <+: b :: data ∧ accepted ((b :: data).drop delim.length) then
      some 0
    else (findEnd delim data).map (· + 1)

/-! ## The complete parser -/

abbrev Part := List Field × Bytes

/-- A limit that is negative is none. -/
def exceeds (limit : Int) (n : Nat) : Bool := 0 ≤ limit && limit < n

/-- From the end of a boundary line: one part, and what follows the delimiter after it. -/
def nextPart (count : Nat) (data : Bytes) : Except Refusal (Part × Bytes) :=
  match headerEnd data with
  | none => .error .unterminatedHeaders
  | some (h, consumed) =>
    let content := data.drop consumed
    match findEnd cfg.delim content with
    | none => .error .unterminatedPart
    | some n =>
      if exceeds cfg.maxParts (count + 1) then .error (.limit .parts)
      else if exceeds cfg.maxHeaderBytes h then .error (.limit .headers)
      else if exceeds cfg.maxPartBytes n then .error (.limit .size)
      else
        match parsePartHeaders (data.take h) with
        | .error e => .error e
        | .ok headers =>
          .ok ((headers, content.take n), content.drop (n + cfg.delim.length))

/-- The loop of `wreath_multipart_parse`, from the end of a delimiter; every round takes at
    least one byte, so `fuel` is a bound on the rounds. -/
def parseParts (cfg : Config) : Nat → Nat → Bytes → Except Refusal (List Part)
  | 0, _, _ => .error .unterminatedPart
  | fuel + 1, count, data =>
    if dashes <+: data then
      let rest := (data.drop 2).dropWhile isOws
      if rest = [] ∨ crlf <+: rest then .ok [] else .error .closingBoundary
    else
      let rest := data.dropWhile isOws
      if crlf <+: rest then
        match nextPart cfg count (rest.drop 2) with
        | .error e => .error e
        | .ok (part, data') =>
          (parseParts cfg fuel (count + 1) data').map (part :: ·)
      else .error .boundaryLine

/-- What follows the first delimiter; at the start it may lack its CRLF. -/
def afterPreamble (body : Bytes) : Option Bytes :=
  if opening cfg.boundary <+: body then
    some (body.drop (opening cfg.boundary).length)
  else (findSub cfg.delim body).map fun i => body.drop (i + cfg.delim.length)

/-- `wreath_multipart_parse`. -/
def parse (body : Bytes) : Except Refusal (List Part) :=
  if boundaryValid cfg.boundary then
    match afterPreamble cfg body with
    | none => .error .boundaryNotFound
    | some data => parseParts cfg (body.length + 1) 0 data
  else .error .badBoundary

/-! ## The streaming parser -/

inductive Event where
  | headers (block : Bytes)
  | data (bytes : Bytes)
  | finish
  deriving Repr, DecidableEq

/-- `MP_PREAMBLE` has `preamble_start`; `MP_EPILOGUE` is entered with `closed`. -/
inductive Phase where
  | preamble (start : Bool)
  | boundary
  | headers
  | body
  | close
  | epilogue
  deriving Repr, DecidableEq

structure Stream where
  phase : Phase
  partCount : Nat
  partSize : Nat
  deriving Repr, DecidableEq

def Stream.init : Stream := ⟨.preamble true, 0, 0⟩

variable (s : Stream)

def Stream.enter (phase : Phase) : Stream := { s with phase := phase }

open Resumable (Turn)

/-- `multipart_part_data`, and the round goes on as `k` says. -/
def partData (bytes : Bytes) (k : List Event → Stream → Turn Stream Event Refusal) :
    Turn Stream Event Refusal :=
  if bytes = [] then k [] s
  else if cfg.maxPartBytes - s.partSize < bytes.length then
    .fail (.limit .size)
  else k [.data bytes] { s with partSize := s.partSize + bytes.length }

/-- A delimiter whose suffix has not arrived. -/
def undecided (suffix : Bytes) : Bool := suffix = [] || suffix = [ch '-'] || suffix = [cr]

def preambleTurn (start : Bool) (data : Bytes) : Turn Stream Event Refusal :=
  if start ∧ opening cfg.boundary <+: data then
    .go (opening cfg.boundary).length [] (s.enter .boundary)
  else if start ∧ data.length < (opening cfg.boundary).length ∧ data <+: opening cfg.boundary then
    .pause 0 [] s
  else
    match findSub cfg.delim data with
    | some i => .go (i + cfg.delim.length) [] (s.enter .boundary)
    | none =>
      if cfg.delim.length ≤ data.length then
        .pause (data.length - cfg.delim.length + 1) [] (s.enter (.preamble false))
      else .pause 0 [] s

variable (data : Bytes)

def boundaryTurn : Turn Stream Event Refusal :=
  if dashes <+: data then .go 2 [] (s.enter .close)
  else
    let whitespace := (data.takeWhile isOws).length
    if data.length < whitespace + 2 then .pause 0 [] s
    else if crlf <+: data.drop whitespace then
      .go (whitespace + 2) [] (s.enter .headers)
    else .fail .boundaryLine

/-- What a header block may take before its end is seen; the sum is a `Py_ssize_t`. -/
def headerRoom : Int := Int.bmod (cfg.maxHeaderBytes + 3) (2 ^ 64)

def headersTurn : Turn Stream Event Refusal :=
  match headerEnd data with
  | none =>
    if headerRoom cfg < data.length then .fail (.limit .headers)
    else .pause 0 [] s
  | some (h, consumed) =>
    if cfg.maxHeaderBytes < h then .fail (.limit .headers)
    else if cfg.maxParts ≤ s.partCount then .fail (.limit .parts)
    else .go consumed [.headers (data.take h)] ⟨.body, s.partCount + 1, 0⟩

def bodyTurn : Turn Stream Event Refusal :=
  match findSub cfg.delim data with
  | none =>
    let safe := data.length + 1 - cfg.delim.length
    partData cfg s (data.take safe) (.pause safe)
  | some i =>
    let suffix := data.drop (i + cfg.delim.length)
    if undecided suffix then partData cfg s (data.take i) (.pause i)
    else if accepted suffix then
      partData cfg s (data.take i) fun es s' =>
        .go (i + cfg.delim.length) (es ++ [.finish]) (s'.enter .boundary)
    else partData cfg s (data.take (i + 1)) (.go (i + 1))

def closeTurn : Turn Stream Event Refusal :=
  let rest := data.dropWhile isOws
  if rest = [] ∨ rest = [cr] then .pause 0 [] s
  else if crlf <+: rest then .pause data.length [] (s.enter .epilogue)
  else .fail .closingBoundary

/-- One round of the loop of `multipart_stream_feed`. -/
def turn : Turn Stream Event Refusal :=
  match s.phase with
  | .preamble start => preambleTurn cfg s start data
  | .boundary => boundaryTurn s data
  | .headers => headersTurn cfg s data
  | .body => bodyTurn cfg s data
  | .close => closeTurn s data
  | .epilogue => .pause 0 [] s

/-- The parser and the bytes it holds back. -/
abbrev Held := Stream × Bytes

/-- `multipart_stream_feed`. -/
def feed (h : Held) (chunk : Bytes) : Except Refusal (List Event × Held) :=
  if h.1.phase = .epilogue then .ok ([], h)
  else
    Resumable.loop (turn cfg) ((h.2 ++ chunk).length + 1) h.1 (h.2 ++ chunk)

/-- `multipart_stream_finish`. -/
def finish (h : Held) : Except Refusal Unit :=
  if h.1.phase = .epilogue ∨ (h.1.phase = .close ∧ h.2.all isOws = true) then .ok ()
  else .error .unterminatedPart

/-- A new parser. -/
def openStream : Except Refusal Held :=
  if boundaryValid cfg.boundary then .ok (Stream.init, [])
  else .error .badBoundary

/-- All of a body in chunks, then `finish`. -/
def stream (chunks : List Bytes) : Except Refusal (List Event) :=
  match openStream cfg with
  | .error e => .error e
  | .ok h₀ =>
    match Resumable.feeds (feed cfg) h₀ chunks with
    | .error e => .error e
    | .ok (es, h) =>
      match finish h with
      | .error e => .error e
      | .ok () => .ok es

end Multipart
