import Wreath.ByteStringProofs

/-! # The HTTP/1 request head — parsing and framing

`httpParseRequestParts` reads one complete request head: the request line, then every header
line in one pass that validates the syntax and accumulates the framing decision. A semantic
error (`errStatus`) stops later fields being looked at, but not the syntax check, so the
framing argument is an invariant over all orders and repetitions of the fields: a chunked
body only for the one coding `chunked` and no Content-Length, a fixed length only for
repetitions of one decimal text, no body only when neither occurs. -/

namespace HttpHead

open ByteScan List

/-! ## Character classes -/

/-- The punctuation of the RFC 9110 token characters. -/
def tokenMarks : Bytes := [33, 35, 36, 37, 38, 39, 42, 43, 45, 46, 94, 95, 96, 124, 126]

variable (b : UInt8)

def isDigit : Bool := 48 ≤ b && b ≤ 57

def isAlpha : Bool := (65 ≤ b && b ≤ 90) || (97 ≤ b && b ≤ 122)

/-- `wreath_ascii_token`: ALPHA, DIGIT and the token punctuation. -/
def asciiToken : Bool := isAlpha b || isDigit b || tokenMarks.contains b

/-- Optional whitespace: SP or HTAB. -/
def isOws : Bool := b == 32 || b == 9

/-- `wreath_is_value_stop`: the octets no field value may carry. -/
def isValueStop : Bool := (b < 32 && b != 9) || b == 127

def httpHexDigit : Bool := isDigit b || (97 ≤ b && b ≤ 102) || (65 ≤ b && b ≤ 70)

/-- The value of a hexadecimal digit. -/
def hexValue : Nat :=
  if b ≤ 57 then b.toNat - 48
  else if 97 ≤ b then b.toNat - 87 else b.toNat - 55

/-! ## Request targets -/

/-- A `.` or `..` segment. -/
def dotSegment (segment : Bytes) : Bool := segment == [46] || segment == [46, 46]

/-- The scan of `http_origin_target_valid`; `segment` holds the octets since the last path
    separator. -/
def originTargetLoop : Bytes → Bool → Bytes → Bool
  | [], inPath, segment => !(inPath && dotSegment segment)
  | c :: rest, inPath, segment =>
    if c > 126 then false
    else if c == ch '%' then
      match rest with
      | hi :: lo :: rest' =>
        if !(httpHexDigit hi && httpHexDigit lo) then false
        else
          let decoded := hexValue hi * 16 + hexValue lo
          -- an encoded dot, slash or backslash would dodge the
          -- segment checks of every later reader of the path
          if inPath && (decoded == 46 || decoded == 47 || decoded == 92)
          then false
          else originTargetLoop rest' inPath (segment ++ [c, hi, lo])
      | _ => false
    else if !inPath then originTargetLoop rest inPath segment
    else if c == ch '\\' then false
    else if c == ch '/' || c == ch '?' then
      if dotSegment segment then false
      else originTargetLoop rest (c != ch '?') []
    else originTargetLoop rest inPath (segment ++ [c])

/-- `http_origin_target_valid`, for a target that starts with `/`. -/
def httpOriginTargetValid (target : Bytes) : Bool :=
  let tail := target.tail
  if tail.head? == some (ch '/') then false
  else if !(tail.contains (ch '%') || tail.contains (ch '\\')
      || tail.contains (ch '.')) then true
  else originTargetLoop tail true []

/-! ## Host authorities -/

/-- The sub-delimiters and unreserved marks of a registered name. -/
def regNameMarks : Bytes := [45, 46, 95, 126, 33, 36, 38, 39, 40, 41, 42, 43, 44, 59, 61]

def regNameByte (c : UInt8) : Bool := isAlpha c || isDigit c || regNameMarks.contains c

def httpRegNameValid : Bytes → Bool
  | [] => true
  | c :: rest =>
    if c == ch '%' then
      match rest with
      | hi :: lo :: rest' =>
        httpHexDigit hi && httpHexDigit lo && httpRegNameValid rest'
      | _ => false
    else regNameByte c && httpRegNameValid rest

/-- Decimal digits under a ceiling, as the octet, the port and the Content-Length scans run: `none`
    as soon as a byte is no digit or the value would pass `limit`. -/
def decimalUpTo (limit : Nat) : Bytes → Nat → Option Nat
  | [], value => some value
  | b :: rest, value =>
    if isDigit b ∧ value ≤ (limit - (b.toNat - 48)) / 10 then
      decimalUpTo limit rest (value * 10 + (b.toNat - 48))
    else none

/-- One dotted part of an IPv4 address. -/
def ipv4Octet (part : Bytes) : Bool :=
  part.length ≤ 3 && (decimalUpTo 255 part 0).isSome && part != []
    && !(1 < part.length && part.head? == some (ch '0'))

/-- The loop of `http_ipv4_address_valid`; a dot that ends the text ends the loop without
    opening a part. -/
def ipv4Loop : Bytes → Bytes → Nat → Bool
  | [], part, parts =>
    if part == [] then parts == 4 else ipv4Octet part && parts + 1 == 4
  | c :: rest, part, parts =>
    if c == ch '.' then ipv4Octet part && ipv4Loop rest [] (parts + 1)
    else ipv4Loop rest (part ++ [c]) parts

variable (value : Bytes)

def httpIpv4AddressValid : Bool := ipv4Loop value [] 0

/-- How many groups an IPv6 address must have read. -/
def ipv6Closed (groups : Nat) (compressed : Bool) : Bool :=
  if compressed then groups < 8 else groups == 8

/-- The loop of `http_ipv6_address_valid`; every turn eats a group, so the length of the
    text bounds the turns. -/
def ipv6Loop : Nat → Bytes → Nat → Bool → Bool
  | 0, _, groups, compressed => ipv6Closed groups compressed
  | _, [], groups, compressed => ipv6Closed groups compressed
  | fuel + 1, rest, groups, compressed =>
    let group := rest.takeWhile (· != ch ':')
    if group.contains (ch '.') then
      httpIpv4AddressValid rest && ipv6Closed (groups + 2) compressed
    else if group == [] || 4 < group.length then false
    else if !group.all httpHexDigit then false
    else
      match rest.dropWhile (· != ch ':') with
      | [] => ipv6Closed (groups + 1) compressed
      | [_] => false
      | _ :: d :: rest' =>
        if d == ch ':' then
          if compressed then false
          else if rest' == [] then ipv6Closed (groups + 1) true
          else ipv6Loop fuel rest' (groups + 1) true
        else ipv6Loop fuel (d :: rest') (groups + 1) compressed

def httpIpv6AddressValid : Bool :=
  match value with
  | [] => false
  | c :: rest =>
    if c == ch ':' then
      match rest with
      | [] => false
      | d :: rest' =>
        if d != ch ':' then false
        else if rest' == [] then true
        else ipv6Loop rest'.length rest' 0 true
    else ipv6Loop value.length value 0 false

def httpIpvfutureValid : Bool :=
  match value with
  | [] => false
  | v :: rest =>
    if value.length < 4 || (v != ch 'v' && v != ch 'V') then false
    else
      match rest.dropWhile httpHexDigit with
      | [] => false
      | dot :: address =>
        rest.takeWhile httpHexDigit != [] && dot == ch '.'
          && address != []
          && address.all (fun c => regNameByte c || c == ch ':')

/-- The port of an authority: decimal, non-empty, at most 65535. -/
def portValid (port : Bytes) : Bool := port != [] && (decimalUpTo 65535 port 0).isSome

def httpHostAuthorityValid : Bool :=
  match value with
  | [] => false
  | c :: rest =>
    if c == ch '[' then
      let literal := rest.takeWhile (· != ch ']')
      match rest.dropWhile (· != ch ']') with
      | [] => false
      | _ :: tail =>
        literal != []
          && (httpIpv6AddressValid literal || httpIpvfutureValid literal)
          && (match tail with
              | [] => true
              | d :: port => d == ch ':' && portValid port)
    else
      let host := value.takeWhile (· != ch ':')
      host != [] && httpRegNameValid host
        && (match value.dropWhile (· != ch ':') with
            | [] => true
            | _ :: port => portValid port)

/-! ## One header line -/

/-- A parsed header field: folded name and trimmed value. -/
abbrev Field := Bytes × Bytes

/-- `http_header_line`: name, trimmed value, and the rest after the CRLF. -/
def httpHeaderLine (p : Bytes) : Except String (Bytes × Bytes × Bytes) :=
  if p.head?.any isOws then
    .error "obsolete header line folding is not supported"
  else
    match p.dropWhile asciiToken with
    | [] => .error "malformed header name"
    | c :: afterName =>
      if p.takeWhile asciiToken = [] ∨ c ≠ ch ':' then
        .error "malformed header name"
      else
        let value := afterName.dropWhile isOws
        let run := value.takeWhile (fun b => !isValueStop b)
        match value.dropWhile (fun b => !isValueStop b) with
        | [] => .error "malformed header line ending"
        | s :: rest =>
          if s ≠ cr then .error "invalid header value byte"
          else
            match rest with
            | [] => .error "malformed header line ending"
            | n :: rest' =>
              if n ≠ lf then .error "malformed header line ending"
              else .ok (p.takeWhile asciiToken, run.rdropWhile isOws, rest')

/-- The comma-separated elements of a list field, trimmed. -/
def listElements (value : Bytes) : List Bytes := (value.splitOn (ch ',')).map (trim isOws)

/-- `header_value_has_token`: one element equals `token` up to case. -/
def headerValueHasToken (value token : Bytes) : Bool :=
  (listElements value).any (fun part => equalCi part token)

/-! ## The framing accumulator -/

/-- `kind` of a request body. -/
inductive BodyKind where
  | none
  | fixed
  | chunked
  deriving Repr, DecidableEq

/-- `WreathHttpRequestMeta`. -/
structure RequestMeta where
  hostCount : Nat
  length : Nat
  kind : BodyKind
  errStatus : Nat
  sendContinue : Bool
  keepAlive : Bool
  upgradeRequest : Bool
  deriving Repr, DecidableEq

/-- The locals the header loop carries from line to line. -/
structure HeadScan where
  headerCount : Nat := 0
  hostCount : Nat := 0
  firstLength : Option Bytes := none
  sawTransfer : Bool := false
  chunkedCount : Nat := 0
  expectCount : Nat := 0
  connectionClose : Bool := false
  connectionKeepAlive : Bool := false
  connectionUpgrade : Bool := false
  upgrade : Option Bytes := none
  errStatus : Nat := 0
  sendContinue : Bool := false
  headers : List Field := []
  deriving Repr, DecidableEq

def nameHost : Bytes := ascii "host"
def nameExpect : Bytes := ascii "expect"
def nameContentLength : Bytes := ascii "content-length"
def nameTransferEncoding : Bytes := ascii "transfer-encoding"
def nameConnection : Bytes := ascii "connection"
def nameUpgrade : Bytes := ascii "upgrade"
def tokenChunked : Bytes := ascii "chunked"

/-- The coding loop of one Transfer-Encoding value: count the leading `chunked` elements,
    and reject the head at the first other one. -/
def scanCodings : List Bytes → HeadScan → HeadScan
  | [], scan => scan
  | part :: rest, scan =>
    if equalCi part tokenChunked then
      scanCodings rest { scan with chunkedCount := scan.chunkedCount + 1 }
    else { scan with errStatus := 400 }

variable (fields : List Field) (scan : HeadScan)

/-- The Expect test, made before the chain over the other names. -/
def scanExpect (value : Bytes) : HeadScan :=
  if equalCi value (ascii "100-continue") then
    { scan with expectCount := scan.expectCount + 1, sendContinue := true }
  else { scan with expectCount := scan.expectCount + 1, errStatus := 417 }

/-- The Content-Length test: the first value is kept, every later one must be the same text. -/
def scanLength (value : Bytes) : HeadScan :=
  match scan.firstLength with
  | none => { scan with firstLength := some value }
  | some first =>
    if first = value then scan else { scan with errStatus := 400 }

/-- The semantic part of the loop body, skipped once an error status is set. -/
def scanSemantics (name value : Bytes) : HeadScan :=
  if scan.errStatus ≠ 0 then scan
  else if name = nameExpect then scanExpect scan value
  else if name = nameContentLength then scanLength scan value
  else if name = nameTransferEncoding then
    scanCodings (listElements value) { scan with sawTransfer := true }
  else if name = nameConnection then
    { scan with
      connectionClose := scan.connectionClose || headerValueHasToken value (ascii "close")
      connectionKeepAlive :=
        scan.connectionKeepAlive
          || headerValueHasToken value (ascii "keep-alive")
      connectionUpgrade :=
        scan.connectionUpgrade
          || headerValueHasToken value (ascii "upgrade") }
  else if name = nameUpgrade ∧ scan.upgrade = none then
    { scan with upgrade := some value }
  else scan

/-- Why a head is refused outright. -/
inductive ParseError where
  | malformed (reason : String)
  | tooManyHeaders
  deriving Repr, DecidableEq

/-- One turn of the header loop, after the line has been cut. -/
def scanField (name value : Bytes) : Except ParseError HeadScan :=
  if name = nameHost ∧ httpHostAuthorityValid value = false then
    .error (.malformed "malformed Host authority")
  else
    let scan :=
      if name = nameHost then { scan with hostCount := scan.hostCount + 1 }
      else scan
    let scan := scanSemantics scan name value
    .ok { scan with headers := scan.headers ++ [(name, value)] }

/-- The header loop. Every turn eats a line, so the length of the block bounds the turns. -/
def scanHeaders (maxHeaders : Nat) :
    Nat → Bytes → HeadScan → Except ParseError HeadScan
  | _, [], scan => .ok scan
  | 0, _ :: _, scan => .ok scan
  | fuel + 1, b :: block, scan =>
    if scan.headerCount + 1 > maxHeaders then .error .tooManyHeaders
    else
      match httpHeaderLine (b :: block) with
      | .error reason => .error (.malformed reason)
      | .ok (name, value, rest) =>
        match scanField
            { scan with headerCount := scan.headerCount + 1 }
            (lower name) value with
        | .error e => .error e
        | .ok scan' => scanHeaders maxHeaders fuel rest scan'

/-! ## The whole head -/

/-- `PY_SSIZE_T_MAX`. -/
def pySsizeTMax : Nat := 2 ^ 63 - 1

/-- What the parser hands back for a complete, well-formed head. -/
structure RequestHead where
  method : Bytes
  target : Bytes
  minorVersion : Nat
  headers : List Field
  consumed : Nat
  info : RequestMeta
  deriving Repr, DecidableEq

/-- Body kind, body length and status from the accumulated fields. -/
def decideFraming : BodyKind × Nat × Nat :=
  if 1 < scan.expectCount then (.none, 0, 417)
  else
    match scan.sawTransfer, scan.firstLength with
    | true, some _ => (.none, 0, 400)
    | true, none =>
      if scan.chunkedCount ≠ 1 then (.none, 0, 400) else (.chunked, 0, 0)
    | false, some text =>
      if text = [] then (.none, 0, 400)
      else
        match decimalUpTo pySsizeTMax text 0 with
        | none => (.none, 0, 400)
        | some value => (.fixed, value, 0)
    | false, none => (.none, 0, 0)

/-- The post-processing of the header loop. -/
def finishMeta (minorVersion : Nat) (scan : HeadScan) : RequestMeta :=
  if scan.errStatus ≠ 0 then
    -- an inline semantic error returns before the connection tokens
    { hostCount := scan.hostCount, length := 0, kind := .none
      errStatus := scan.errStatus, sendContinue := scan.sendContinue
      keepAlive := minorVersion == 1, upgradeRequest := false }
  else
    let framing := decideFraming scan
    { hostCount := scan.hostCount
      length := framing.2.1
      kind := framing.1
      errStatus := framing.2.2
      sendContinue := scan.sendContinue
      keepAlive :=
        if minorVersion == 1 then !scan.connectionClose
        else scan.connectionKeepAlive
      upgradeRequest :=
        scan.connectionUpgrade && scan.upgrade.any (fun u => equalCi u (ascii "websocket")) }

/-- The request line: method, target, minor version, and the header block after it. -/
def parseRequestLine (p : Bytes) : Except String (Bytes × Bytes × Nat × Bytes) :=
  let method := p.takeWhile asciiToken
  match p.dropWhile asciiToken with
  | [] => .error "malformed request line"
  | s :: afterMethod =>
    if method = [] ∨ s ≠ 32 then .error "malformed request line"
    else
      let inTarget := fun b : UInt8 => decide (32 < b) && decide (b < 127)
      let target := afterMethod.takeWhile inTarget
      match afterMethod.dropWhile inTarget with
      | [] => .error "malformed request target"
      | t :: version =>
        if target = [] ∨ t ≠ 32 then .error "malformed request target"
        else if method = ascii "CONNECT"
            ∨ (target = ascii "*" ∧ method ≠ ascii "OPTIONS")
            ∨ (target ≠ ascii "*"
                ∧ (target.head? ≠ some (ch '/') ∨ httpOriginTargetValid target = false))
            ∨ ch '#' ∈ target then
          .error "unsupported request target form"
        else if version.take 10 = ascii "HTTP/1.0\r\n" then
          .ok (method, target, 0, version.drop 10)
        else if version.take 10 = ascii "HTTP/1.1\r\n" then
          .ok (method, target, 1, version.drop 10)
        else .error "malformed HTTP version"

/-- `wreath_http_parse_request_parts` with a request meta; `none` is the answer 0, a head
    that is not complete yet. -/
def httpParseRequestParts (data : Bytes) (headEndOff : Option Nat)
    (maxHeaders : Nat) : Except ParseError (Option RequestHead) :=
  match headEndOff with
  | none => .ok none
  | some off =>
    if data.length < off + 4 then .ok none
    else
      match parseRequestLine (data.take (off + 2)) with
      | .error reason => .error (.malformed reason)
      | .ok (method, target, minorVersion, block) =>
        match scanHeaders maxHeaders block.length block {} with
        | .error e => .error e
        | .ok scan =>
          .ok (some
            { method, target, minorVersion
              headers := scan.headers
              consumed := off + 4
              info := finishMeta minorVersion scan })

/-! ## What a head says, read off its text

The specification side: a head is CRLF-separated lines, a field is the text before the
first colon and the trimmed text after it, and names compare without case. No
definition of the parser is used. -/

/-- The lines of a head after the request line; the text ends with CRLF, so its last piece
    is empty. -/
def fieldLines (head : Bytes) : List Bytes := (splitCrlf head).tail.dropLast

/-- Name and trimmed value of a field line. -/
def lineField (line : Bytes) : Field :=
  ((cutAt (ch ':') line).1, trim isOws (cutAt (ch ':') line).2)

/-- The fields of a head. -/
def headFields (head : Bytes) : List Field := (fieldLines head).map lineField

/-- The values of the fields of one name, in order. -/
def fieldsNamed (name : Bytes) (fields : List Field) : List Bytes :=
  (fields.filter (fun f => lower f.1 == name)).map Prod.snd

/-- Every coding of every Transfer-Encoding field, in order. -/
def transferCodings : List Bytes := (fieldsNamed nameTransferEncoding fields).flatMap listElements

/-- The number a decimal text denotes. -/
def decimalValue (text : Bytes) : Nat := text.foldl (fun value b => value * 10 + (b.toNat - 48)) 0

/-- Exactly one coding, `chunked`, and no Content-Length. -/
def ChunkedOnly : Prop :=
  (∃ coding, transferCodings fields = [coding]
      ∧ equalCi coding tokenChunked = true)
    ∧ fieldsNamed nameContentLength fields = []

/-- No Transfer-Encoding, and every Content-Length is one decimal text of value `n`. -/
def LengthOnly (n : Nat) : Prop :=
  fieldsNamed nameTransferEncoding fields = []
    ∧ fieldsNamed nameContentLength fields ≠ []
    ∧ n ≤ pySsizeTMax
    ∧ ∃ text, text ≠ [] ∧ (∀ b ∈ text, isDigit b = true)
        ∧ decimalValue text = n
        ∧ ∀ value ∈ fieldsNamed nameContentLength fields, value = text

/-- Neither framing field. -/
def NoFraming : Prop :=
  fieldsNamed nameTransferEncoding fields = [] ∧ fieldsNamed nameContentLength fields = []

theorem fieldsNamed_append (name : Bytes) (fields : List Field) (n value : Bytes) :
    fieldsNamed name (fields ++ [(n, value)])
      = fieldsNamed name fields ++ (if lower n = name then [value] else []) := by
  by_cases h : lower n = name <;> simp [fieldsNamed, h]

theorem transferCodings_append (n value : Bytes) :
    transferCodings (fields ++ [(n, value)]) = transferCodings fields
        ++ (if lower n = nameTransferEncoding then listElements value
            else []) := by
  by_cases h : lower n = nameTransferEncoding <;>
    simp [transferCodings, fieldsNamed_append, h]

/-! ## The parser reads exactly those lines -/

/-- Trimming on the left stops in front of an untrimmable run. -/
theorem dropWhile_run {p q : UInt8 → Bool} (bs : Bytes) :
    ((bs.dropWhile p).takeWhile q).dropWhile p = (bs.dropWhile p).takeWhile q := by
  cases hd : bs.dropWhile p with
  | nil => rfl
  | cons b rest =>
    have hb : p b = false := by
      have := List.head?_dropWhile_not p bs
      rw [hd] at this
      simpa using this
    cases hq : q b with
    | true => simp [hq, hb]
    | false => simp [hq]

variable {value : Bytes} {name : Bytes}

/-- An accepted header line is a CR-free line, its field, and the text after its CRLF. -/
theorem httpHeaderLine_ok {p rest : Bytes} (h : httpHeaderLine p = .ok (name, value, rest)) :
    ∃ line, cr ∉ line ∧ p = line ++ cr :: lf :: rest ∧ lineField line = (name, value) := by
  unfold httpHeaderLine at h
  split_ifs at h
  split at h
  · cases h
  rename_i c afterName hname
  split at h
  · cases h
  rename_i hcolon
  obtain ⟨-, hc⟩ := not_or.mp hcolon
  have hc : c = ch ':' := not_not.mp hc
  simp only at h
  split at h
  · cases h
  rename_i s rest₁ hrun
  split_ifs at h with hs
  have hs : s = cr := not_not.mp hs
  split at h
  · cases h
  rename_i n rest₂
  split_ifs at h with hn
  have hn : n = lf := not_not.mp hn
  simp only [Except.ok.injEq, Prod.mk.injEq] at h
  obtain ⟨rfl, rfl, rfl⟩ := h
  subst hc hs hn
  -- the line: name, colon, leading whitespace, value run
  set run := (afterName.dropWhile isOws).takeWhile (fun b => !isValueStop b) with hrundef
  have hafter : afterName = afterName.takeWhile isOws ++ run ++ cr :: lf :: rest₂ := by
    rw [append_assoc, hrundef, ← hrun, takeWhile_append_dropWhile, takeWhile_append_dropWhile]
  have hp : p = p.takeWhile asciiToken ++ ch ':' :: afterName := by
    rw [← hname, takeWhile_append_dropWhile]
  have hcolonTok : ch ':' ∉ p.takeWhile asciiToken := not_mem_takeWhile (by decide)
  refine ⟨p.takeWhile asciiToken ++ ch ':' :: (afterName.takeWhile isOws ++ run), ?_, ?_, ?_⟩
  · simp only [mem_append, mem_cons, not_or]
    exact ⟨not_mem_takeWhile (by decide), by decide,
      not_mem_takeWhile (by decide), not_mem_takeWhile (by decide)⟩
  · rw [append_assoc, cons_append, ← hafter, ← hp]
  · have hows : ∀ b ∈ afterName.takeWhile isOws, isOws b = true := fun b hb => mem_takeWhile_imp hb
    unfold lineField
    rw [cutAt_append hcolonTok]
    simp only [trim, dropWhile_append_of_pos hows]
    rw [dropWhile_run]

/-- The loop body over fields already cut. -/
def scanFields : List Field → HeadScan → Except ParseError HeadScan
  | [], scan => .ok scan
  | (name, value) :: rest, scan =>
    match scanField { scan with headerCount := scan.headerCount + 1 }
        (lower name) value with
    | .error e => .error e
    | .ok scan' => scanFields rest scan'

theorem httpHeaderLine_shrinks {p rest : Bytes} (h : httpHeaderLine p = .ok (name, value, rest)) :
    rest.length < p.length := by
  obtain ⟨line, -, rfl, -⟩ := httpHeaderLine_ok h
  simp only [length_append, length_cons]
  omega

/-- **THE LOOP IS A FOLD OVER THE LINES**: an accepted block is a run of CRLF-terminated
    lines, and the final locals are those of folding the loop body over their fields. -/
theorem scanHeaders_ok (maxHeaders fuel : Nat) (block : Bytes) (scan scan' : HeadScan)
    (hlen : block.length ≤ fuel) (h : scanHeaders maxHeaders fuel block scan = .ok scan') :
    ∃ lines, splitCrlf block = lines ++ [[]]
      ∧ scanFields (lines.map lineField) scan = .ok scan' := by
  fun_induction scanHeaders maxHeaders fuel block scan with
  | case1 => exact ⟨[], rfl, h⟩
  | case2 => exact absurd hlen (by simp)
  | case3 | case4 | case5 => cases h
  | case6 fuel b block scan _ name value rest hline scan₁ hstep ih =>
    obtain ⟨line, hcr, hblock, hfield⟩ := httpHeaderLine_ok hline
    have hshrinks := httpHeaderLine_shrinks hline
    obtain ⟨lines, hsplit, hfold⟩ := ih (by omega) h
    refine ⟨line :: lines, ?_, ?_⟩
    · rw [hblock, splitCrlf_line hcr, hsplit, cons_append]
    · show scanFields (lineField line :: lines.map lineField) scan = _
      rw [hfield, scanFields, hstep]
      exact hfold

/-- An accepted request line is CR-free and ends at a CRLF. -/
theorem parseRequestLine_ok {p method target block : Bytes} {minor : Nat}
    (h : parseRequestLine p = .ok (method, target, minor, block)) :
    ∃ line, cr ∉ line ∧ p = line ++ cr :: lf :: block := by
  unfold parseRequestLine at h
  simp only at h
  split at h
  · cases h
  rename_i s afterMethod hmethod
  split at h
  · cases h
  rename_i hs
  obtain ⟨-, hs⟩ := not_or.mp hs
  have hs : s = 32 := not_not.mp hs
  split at h
  · cases h
  rename_i t version htgt
  split at h
  · cases h
  rename_i ht
  obtain ⟨-, ht⟩ := not_or.mp ht
  have ht : t = 32 := not_not.mp ht
  split at h
  · cases h
  subst hs ht
  have hp := takeWhile_append_dropWhile (p := asciiToken) (l := p)
  have ha := takeWhile_append_dropWhile
    (p := fun b : UInt8 => decide (32 < b) && decide (b < 127))
    (l := afterMethod)
  rw [hmethod] at hp
  rw [htgt] at ha
  -- both versions close the line the same way
  have close : ∀ v : Bytes, cr ∉ v → version.take 10 = v ++ [cr, lf] → block = version.drop 10 →
      ∃ line, cr ∉ line ∧ p = line ++ cr :: lf :: block := by
    intro v hv htake hdrop
    refine ⟨p.takeWhile asciiToken ++ 32 :: (afterMethod.takeWhile
      (fun b : UInt8 => decide (32 < b) && decide (b < 127)) ++ 32 :: v), ?_, ?_⟩
    · simp only [mem_append, mem_cons, not_or]
      exact ⟨not_mem_takeWhile (by decide), by decide, not_mem_takeWhile (by decide), by decide, hv⟩
    · have hver : version = v ++ cr :: lf :: block := by
        rw [← take_append_drop 10 version, htake, hdrop]
        simp
      rw [hver] at ha
      refine hp.symm.trans ?_
      simp [ha]
  split at h
  · rename_i hv
    simp only [Except.ok.injEq, Prod.mk.injEq] at h
    exact close (ascii "HTTP/1.0") (by decide) (by rw [hv]; decide) h.2.2.2.symm
  split at h
  · rename_i hv
    simp only [Except.ok.injEq, Prod.mk.injEq] at h
    exact close (ascii "HTTP/1.1") (by decide) (by rw [hv]; decide) h.2.2.2.symm
  · cases h

/-- **THE PARSER READS THE HEAD'S FIELDS**: an accepted head is the fold of the loop body
    over the fields its text spells. -/
theorem httpParseRequestParts_ok {data : Bytes} {off maxHeaders : Nat} {head : RequestHead}
    (h : httpParseRequestParts data (some off) maxHeaders = .ok (some head)) :
    ∃ scan, scanFields (headFields (data.take (off + 2))) {} = .ok scan
      ∧ head.headers = scan.headers
      ∧ head.info = finishMeta head.minorVersion scan := by
  unfold httpParseRequestParts at h
  simp only at h
  split at h
  · cases h
  split at h
  · cases h
  rename_i method target minor block hline
  split at h
  · cases h
  rename_i scan hscan
  obtain ⟨line, hcr, hhead⟩ := parseRequestLine_ok hline
  obtain ⟨lines, hsplit, hfold⟩ := scanHeaders_ok maxHeaders _ _ _ _ le_rfl hscan
  have hflds : headFields (data.take (off + 2)) = lines.map lineField := by
    unfold headFields fieldLines
    rw [hhead, splitCrlf_line hcr, hsplit]
    simp
  simp only [Except.ok.injEq, Option.some.injEq] at h
  subst h
  exact ⟨scan, hflds ▸ hfold, rfl, rfl⟩

/-! ## The framing invariant -/

/-- The framing locals agree with the fields seen so far. -/
structure FieldsSeen (fields : List Field) (scan : HeadScan) : Prop where
  transfer : scan.sawTransfer = true ↔ fieldsNamed nameTransferEncoding fields ≠ []
  count : scan.chunkedCount = (transferCodings fields).length
  chunked : ∀ c ∈ transferCodings fields, equalCi c tokenChunked = true
  absent : scan.firstLength = none ↔ fieldsNamed nameContentLength fields = []
  same : ∀ text, scan.firstLength = some text →
    ∀ value ∈ fieldsNamed nameContentLength fields, value = text

/-- Until an error status is set, the locals agree with the fields. -/
def FramingInv : Prop := scan.errStatus = 0 → FieldsSeen fields scan

theorem framingInv_start : FramingInv [] {} := fun _ =>
    { transfer := by decide
      count := rfl
      chunked := nofun
      absent := by decide
      same := fun _ h => nomatch h }

variable {scan scan' : HeadScan} {fields : List Field}

/-- A field that is neither Transfer-Encoding nor Content-Length leaves the agreement alone,
    whatever else it records. -/
theorem FieldsSeen.other (seen : FieldsSeen fields scan) (hte : lower name ≠ nameTransferEncoding)
    (hcl : lower name ≠ nameContentLength) (h₁ : scan'.sawTransfer = scan.sawTransfer)
    (h₂ : scan'.chunkedCount = scan.chunkedCount) (h₃ : scan'.firstLength = scan.firstLength) :
    FieldsSeen (fields ++ [(name, value)]) scan' where
  transfer := by
    rw [h₁, fieldsNamed_append, if_neg hte, append_nil]
    exact seen.transfer
  count := by
    rw [h₂, transferCodings_append, if_neg hte, append_nil]
    exact seen.count
  chunked := by
    rw [transferCodings_append, if_neg hte, append_nil]
    exact seen.chunked
  absent := by
    rw [h₃, fieldsNamed_append, if_neg hcl, append_nil]
    exact seen.absent
  same := by
    rw [h₃, fieldsNamed_append, if_neg hcl, append_nil]
    exact seen.same

/-- A coding loop that ends without an error has counted every element, and every element
    was `chunked`. -/
theorem scanCodings_clean (parts : List Bytes) (h : (scanCodings parts scan).errStatus = 0) :
    scanCodings parts scan = { scan with chunkedCount := scan.chunkedCount + parts.length }
      ∧ ∀ c ∈ parts, equalCi c tokenChunked = true := by
  fun_induction scanCodings parts scan with
  | case1 => exact ⟨rfl, nofun⟩
  | case2 part parts scan hp ih =>
    obtain ⟨heq, hall⟩ := ih h
    refine ⟨?_, forall_mem_cons.mpr ⟨hp, hall⟩⟩
    rw [heq]
    simp only [length_cons]
    congr 1
    omega
  | case3 => cases h

/-- A Transfer-Encoding field keeps the agreement. -/
theorem FieldsSeen.transferEncoding (seen : FieldsSeen fields scan)
    (hname : lower name = nameTransferEncoding)
    (hclean : (scanCodings (listElements value) { scan with sawTransfer := true }).errStatus = 0) :
    FieldsSeen (fields ++ [(name, value)]) (scanCodings (listElements value)
        { scan with sawTransfer := true }) := by
  obtain ⟨heq, hall⟩ := scanCodings_clean _ hclean
  have hcl : lower name ≠ nameContentLength := by
    rw [hname]
    decide
  rw [heq]
  constructor
  · rw [fieldsNamed_append, if_pos hname]
    simp
  · rw [transferCodings_append, if_pos hname, length_append, ← seen.count]
  · rw [transferCodings_append, if_pos hname]
    exact forall_mem_append.mpr ⟨seen.chunked, hall⟩
  · rw [fieldsNamed_append, if_neg hcl, append_nil]
    exact seen.absent
  · rw [fieldsNamed_append, if_neg hcl, append_nil]
    exact seen.same

/-- A Content-Length field keeps the agreement. -/
theorem FieldsSeen.contentLength (seen : FieldsSeen fields scan)
    (hname : lower name = nameContentLength) (hclean : (scanLength scan value).errStatus = 0) :
    FieldsSeen (fields ++ [(name, value)]) (scanLength scan value) := by
  have hte : lower name ≠ nameTransferEncoding := by
    rw [hname]
    decide
  -- the first one is kept, and every later one was compared with it
  have hkept : ∀ scan', scan'.sawTransfer = scan.sawTransfer →
      scan'.chunkedCount = scan.chunkedCount → scan'.firstLength = some value →
      (∀ v ∈ fieldsNamed nameContentLength fields, v = value) →
      FieldsSeen (fields ++ [(name, value)]) scan' := by
    intro scan' h₁ h₂ h₃ hall
    constructor
    · rw [h₁, fieldsNamed_append, if_neg hte, append_nil]
      exact seen.transfer
    · rw [h₂, transferCodings_append, if_neg hte, append_nil]
      exact seen.count
    · rw [transferCodings_append, if_neg hte, append_nil]
      exact seen.chunked
    · rw [h₃, fieldsNamed_append, if_pos hname]
      simp
    · rw [h₃, fieldsNamed_append, if_pos hname]
      rintro _ ⟨⟩ v hv
      rcases mem_append.mp hv with hv | hv
      · exact hall v hv
      · exact mem_singleton.mp hv
  unfold scanLength at hclean ⊢
  cases hfirst : scan.firstLength with
  | none => exact hkept _ rfl rfl rfl (by rw [seen.absent.mp hfirst]; exact nofun)
  | some first =>
    rw [hfirst] at hclean
    by_cases heq : first = value
    · subst heq
      simp only [if_pos]
      exact hkept _ rfl rfl hfirst (seen.same _ hfirst)
    · simp only [if_neg heq] at hclean
      exact absurd hclean (by decide)

/-- The semantic part of one turn keeps the invariant. -/
theorem scanSemantics_framing (inv : FramingInv fields scan) :
    FramingInv (fields ++ [(name, value)]) (scanSemantics scan (lower name) value) := by
  intro hclean
  unfold scanSemantics at hclean ⊢
  by_cases herr : scan.errStatus ≠ 0
  · rw [if_pos herr] at hclean
    exact absurd hclean herr
  rw [if_neg herr] at hclean ⊢
  have seen := inv (not_not.mp herr)
  by_cases hexpect : lower name = nameExpect
  · rw [if_pos hexpect] at hclean ⊢
    have hte : lower name ≠ nameTransferEncoding := by rw [hexpect]; decide
    have hcl : lower name ≠ nameContentLength := by rw [hexpect]; decide
    unfold scanExpect
    split <;> exact seen.other hte hcl rfl rfl rfl
  rw [if_neg hexpect] at hclean ⊢
  by_cases hcl : lower name = nameContentLength
  · rw [if_pos hcl] at hclean ⊢
    exact seen.contentLength hcl hclean
  rw [if_neg hcl] at hclean ⊢
  by_cases hte : lower name = nameTransferEncoding
  · rw [if_pos hte] at hclean ⊢
    exact seen.transferEncoding hte hclean
  rw [if_neg hte] at hclean ⊢
  -- Connection, Upgrade and every unknown name record nothing of framing
  split
  · exact seen.other hte hcl rfl rfl rfl
  split <;> exact seen.other hte hcl rfl rfl rfl

/-- The agreement reads only the four framing locals. -/
theorem FramingInv.congr (inv : FramingInv fields scan) (h₀ : scan'.errStatus = scan.errStatus)
    (h₁ : scan'.sawTransfer = scan.sawTransfer) (h₂ : scan'.chunkedCount = scan.chunkedCount)
    (h₃ : scan'.firstLength = scan.firstLength) : FramingInv fields scan' := by
  intro hclean
  have seen := inv (h₀ ▸ hclean)
  exact
    { transfer := h₁ ▸ seen.transfer
      count := h₂ ▸ seen.count
      chunked := seen.chunked
      absent := h₃ ▸ seen.absent
      same := h₃ ▸ seen.same }

/-- **STEP**: one turn of the loop keeps the invariant. -/
theorem scanField_framing (inv : FramingInv fields scan)
    (h : scanField scan (lower name) value = .ok scan') :
    FramingInv (fields ++ [(name, value)]) scan' := by
  unfold scanField at h
  split at h
  · cases h
  simp only [Except.ok.injEq] at h
  subst h
  have inv' : FramingInv fields (if lower name = nameHost
        then { scan with hostCount := scan.hostCount + 1 } else scan) := by
    split
    · exact inv.congr rfl rfl rfl rfl
    · exact inv
  exact (scanSemantics_framing inv').congr rfl rfl rfl rfl

/-- **RUN**: the whole loop keeps the invariant. -/
theorem scanFields_framing (rest : List Field) (inv : FramingInv fields scan)
    (h : scanFields rest scan = .ok scan') : FramingInv (fields ++ rest) scan' := by
  fun_induction scanFields rest scan generalizing fields with
  | case1 =>
    cases h
    rwa [append_nil]
  | case2 => cases h
  | case3 name value rest scan scan₁ hstep ih =>
    have inv₀ : FramingInv fields { scan with headerCount := scan.headerCount + 1 } :=
      inv.congr rfl rfl rfl rfl
    have := ih (scanField_framing inv₀ hstep) h
    rwa [append_assoc] at this

/-! ## Refusals -/

/-- The statuses a head is refused with. -/
def Refusal (status : Nat) : Prop := status = 0 ∨ status = 400 ∨ status = 417

theorem scanCodings_refusal (parts : List Bytes) (h : Refusal scan.errStatus) :
    Refusal (scanCodings parts scan).errStatus := by
  fun_induction scanCodings parts scan with
  | case1 => exact h
  | case2 _ _ _ _ ih => exact ih h
  | case3 => exact .inr (.inl rfl)

theorem scanSemantics_refusal (h : Refusal scan.errStatus) :
    Refusal (scanSemantics scan name value).errStatus := by
  fun_cases scanSemantics scan name value with
  | case2 =>
    rw [scanExpect]
    split
    · exact h
    · exact .inr (.inr rfl)
  | case3 =>
    rw [scanLength]
    split
    · exact h
    · split
      · exact h
      · exact .inr (.inl rfl)
  | case4 => exact scanCodings_refusal _ h
  | _ => exact h

theorem scanFields_refusal (rest : List Field) (h : Refusal scan.errStatus)
    (hscan : scanFields rest scan = .ok scan') : Refusal scan'.errStatus := by
  fun_induction scanFields rest scan with
  | case1 => exact Except.ok.inj hscan ▸ h
  | case2 => cases hscan
  | case3 name value rest scan scan₁ hstep ih =>
    refine ih ?_ hscan
    rw [scanField] at hstep
    split at hstep
    · cases hstep
    · cases hstep
      refine scanSemantics_refusal ?_
      split <;> exact h

/-- **REFUSALS**: an accepted head carries no error status but 400 and 417. -/
theorem httpParseRequestParts_refusal {data : Bytes} {off maxHeaders : Nat} {head : RequestHead}
    (h : httpParseRequestParts data (some off) maxHeaders = .ok (some head)) :
    Refusal head.info.errStatus := by
  obtain ⟨scan, hscan, -, hinfo⟩ := httpParseRequestParts_ok h
  have href : Refusal scan.errStatus := scanFields_refusal _ (.inl rfl) hscan
  rw [hinfo, finishMeta]
  split
  · exact href
  fun_cases decideFraming scan with
  | case1 => exact .inr (.inr rfl)
  | case4 | case7 | case8 => exact .inl rfl
  | _ => exact .inr (.inl rfl)

/-! ## Decimal lengths -/

/-- A decimal scan that succeeds read digits only, computed their value, and stayed under
    its ceiling. -/
theorem decimalUpTo_some {limit : Nat} (hlimit : 9 ≤ limit) (text : Bytes) (value n : Nat)
    (hvalue : value ≤ limit) (h : decimalUpTo limit text value = some n) :
    (∀ b ∈ text, isDigit b = true) ∧ text.foldl (fun v b => v * 10 + (b.toNat - 48)) value = n
      ∧ n ≤ limit := by
  fun_induction decimalUpTo limit text value with
  | case1 value =>
    cases h
    exact ⟨nofun, rfl, hvalue⟩
  | case2 b text value hb ih =>
    obtain ⟨hdigit, hroom⟩ := hb
    have hle : b.toNat ≤ 57 := by
      have : b ≤ 57 := by
        simp only [isDigit, Bool.and_eq_true, decide_eq_true_eq] at hdigit
        exact hdigit.2
      exact UInt8.le_iff_toNat_le.mp this
    obtain ⟨hall, hfold, hn⟩ := ih (by omega) h
    exact ⟨forall_mem_cons.mpr ⟨hdigit, hall⟩, hfold, hn⟩
  | case3 => cases h

/-! ## Unambiguous framing -/

/-- What the accepted framings say of the fields. -/
theorem decideFraming_sound (seen : FieldsSeen fields scan) :
    ((decideFraming scan).1 = .chunked → ChunkedOnly fields) ∧ ((decideFraming scan).1 = .fixed →
          LengthOnly fields (decideFraming scan).2.1)
      ∧ ((decideFraming scan).1 = .none → (decideFraming scan).2.2 = 0 → NoFraming fields) := by
  have noTransfer : scan.sawTransfer = false → fieldsNamed nameTransferEncoding fields = [] := by
    intro hf
    by_contra hne
    rw [seen.transfer.mpr hne] at hf
    cases hf
  fun_cases decideFraming scan with
  | case4 _ hlength _ hone =>
    have hlen : (transferCodings fields).length = 1 := by
      rw [← seen.count]
      exact not_not.mp hone
    obtain ⟨coding, hcoding⟩ := length_eq_one_iff.mp hlen
    refine ⟨fun _ => ⟨⟨coding, hcoding, ?_⟩, seen.absent.mp hlength⟩, by simp, by simp⟩
    exact seen.chunked coding (by rw [hcoding]; exact mem_cons_self)
  | case7 _ text hlength htrans hne value hvalue =>
    obtain ⟨hdigits, hfold, hle⟩ := decimalUpTo_some (by decide) text 0 value (Nat.zero_le _) hvalue
    have hpresent : fieldsNamed nameContentLength fields ≠ [] := by
      intro he
      rw [seen.absent.mpr he] at hlength
      cases hlength
    refine ⟨by simp, fun _ => ?_, by simp⟩
    exact ⟨noTransfer htrans, hpresent, hle, text, hne, hdigits, hfold, seen.same text hlength⟩
  | case8 _ hlength htrans =>
    exact ⟨by simp, by simp, fun _ _ => ⟨noTransfer htrans, seen.absent.mp hlength⟩⟩
  | _ => simp

/-- **UNAMBIGUOUS FRAMING**: for every complete head the parser accepts, the reported body
    agrees with what the text of the head says, and a head whose framing fields fit none of
    the three readings carries an error status. -/
theorem request_framing_unambiguous {data : Bytes} {off maxHeaders : Nat} {head : RequestHead}
    (h : httpParseRequestParts data (some off) maxHeaders = .ok (some head)) :
    (head.info.kind = .chunked → ChunkedOnly (headFields (data.take (off + 2))))
      ∧ (head.info.kind = .fixed → LengthOnly (headFields (data.take (off + 2))) head.info.length)
      ∧ (head.info.kind = .none → head.info.errStatus = 0 →
          NoFraming (headFields (data.take (off + 2))))
      ∧ (¬ ChunkedOnly (headFields (data.take (off + 2))) →
          (∀ n, ¬ LengthOnly (headFields (data.take (off + 2))) n) →
          ¬ NoFraming (headFields (data.take (off + 2))) →
          head.info.errStatus ≠ 0) := by
  obtain ⟨scan, hfold, -, hinfo⟩ := httpParseRequestParts_ok h
  have inv : FramingInv (headFields (data.take (off + 2))) scan := by
    have := scanFields_framing _ framingInv_start hfold
    rwa [nil_append] at this
  rw [hinfo]
  unfold finishMeta
  by_cases herr : scan.errStatus ≠ 0
  · rw [if_pos herr]
    exact ⟨by simp, by simp, fun _ he => absurd he herr, fun _ _ _ => herr⟩
  rw [if_neg herr]
  obtain ⟨hchunked, hfixed, hnone⟩ := decideFraming_sound (inv (not_not.mp herr))
  refine ⟨hchunked, hfixed, hnone, ?_⟩
  intro notChunked notFixed notNone he
  cases hkind : (decideFraming scan).1 with
  | none => exact notNone (hnone hkind he)
  | fixed => exact notFixed _ (hfixed hkind)
  | chunked => exact notChunked (hchunked hkind)

/-- A head whose only framing field is `Chunked`, in mixed case. -/
def chunkedHead : Bytes := ascii "POST / HTTP/1.1\r\nTransfer-ENCODING: Chunked\r\n\r\n"

theorem chunkedHead_unambiguous :
    ∃ head, httpParseRequestParts chunkedHead (some 43) 8 = .ok (some head)
      ∧ head.info.kind = .chunked
      ∧ ChunkedOnly (headFields (chunkedHead.take 45)) := by
  have h : httpParseRequestParts chunkedHead (some 43) 8 = .ok (some
        { method := ascii "POST", target := ascii "/", minorVersion := 1
          headers := [(nameTransferEncoding, ascii "Chunked")]
          consumed := 47
          info :=
            { hostCount := 0, length := 0, kind := .chunked, errStatus := 0
              sendContinue := false, keepAlive := true
              upgradeRequest := false } }) := by
    rfl
  exact ⟨_, h, rfl, (request_framing_unambiguous h).1 rfl⟩

end HttpHead
