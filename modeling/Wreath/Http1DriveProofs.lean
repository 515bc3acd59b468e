import Wreath.Http1BoundaryProofs

/-! # The drivers and the octets — one turn, before or after a read

What a driver decides about buffered octets is a function of the octets (`headVerdict`,
`sizeVerdict`, `trailerVerdict`; `turn_seen`). A verdict on a prefix stands when more octets
arrive, unless a size limit is tested against an unfinished line; `Clear` says when it is
not. A turn taken before a read then fits the turn taken after it (`driveOnce_absorbed`). -/

namespace Http1Drive

open ByteScan HttpHead ChunkedCoding Http1Input Http1Response Http1Conn List
open Http1Boundary

/-! ## Verdicts -/

/-- What a driver decides about the octets it sees. -/
inductive Verdict (α : Type) where
  | wait
  | refuse (status : Nat)
  | accept (value : α)

variable (cfg : ServerConfig) (p : Bytes)

/-- `drive_head` on a head that has ended. -/
def endedHead (headEnd : Nat) : Verdict RequestHead :=
  if cfg.maxHeaderBytes < headEnd + 4 then .refuse 431
  else if (findSub crlf p).any (fun lineEnd => cfg.maxRequestLine < lineEnd)
  then .refuse 414
  else
    match httpParseRequestParts p (some headEnd) cfg.maxHeaderCount with
    | .error .tooManyHeaders => .refuse 431
    | .error (.malformed _) => .refuse 400
    | .ok none => .wait
    | .ok (some head) =>
      if head.minorVersion = 1 ∧ head.info.hostCount ≠ 1 then .refuse 400
      else .accept head

/-- `drive_head`. -/
def headVerdict : Verdict RequestHead :=
  match findSub blankLine p with
  | none =>
    match findSub crlf p with
    | none => if cfg.maxRequestLine < p.length then .refuse 414 else .wait
    | some lineEnd =>
      if cfg.maxRequestLine < lineEnd then .refuse 414
      else if cfg.maxHeaderBytes < p.length then .refuse 431
      else .wait
  | some headEnd => endedHead cfg p headEnd

/-- `drive_chunk_size`: where the size line ends, and its size. -/
def sizeVerdict : Verdict (Nat × Nat) :=
  match findSub crlf p with
  | none => if cfg.maxRequestLine < p.length then .refuse 400 else .wait
  | some lineEnd =>
    match chunkLineSize (p.take lineEnd) with
    | none => .refuse 400
    | some size => .accept (lineEnd, size)

/-- `drive_chunk_trailers`: the length of the trailer section. -/
def trailerVerdict : Verdict Nat :=
  if p.take 2 = crlf then .accept 2
  else
    match findSub blankLine p with
    | none => if cfg.maxHeaderBytes < p.length then .refuse 431 else .wait
    | some blockEnd =>
      if validateTrailerBlock (p.take (blockEnd + 2)) cfg.maxHeaderCount
      then .accept (blockEnd + 4)
      else .refuse 400

/-! ## Limits that decide alike -/

/-- No prefix of `p` is refused for a request line or a head that all of `p` does not have. -/
def HeadClear : Prop :=
  ∀ lineEnd ∈ findSub crlf p,
    lineEnd < cfg.maxRequestLine
      ∨ cfg.maxRequestLine < lineEnd
        ∧ ∀ headEnd ∈ findSub blankLine p, headEnd + 4 ≤ cfg.maxHeaderBytes

/-- A chunk-size line is below the limit, or refused anyway. -/
def SizeClear : Prop :=
  ∀ lineEnd ∈ findSub crlf p, lineEnd < cfg.maxRequestLine ∨ chunkLineSize (p.take lineEnd) = none

/-- A trailer section is below the limit. -/
def TrailerClear : Prop :=
  p.take 2 = crlf ∨ ∀ blockEnd ∈ findSub blankLine p, blockEnd + 3 ≤ cfg.maxHeaderBytes

instance : Decidable (HeadClear cfg p) := inferInstanceAs (Decidable (∀ _ ∈ _, _))

instance : Decidable (SizeClear cfg p) := inferInstanceAs (Decidable (∀ _ ∈ _, _))

instance : Decidable (TrailerClear cfg p) := inferInstanceAs (Decidable (_ ∨ _))

variable {p : Bytes}

/-- A blank line ends a line. -/
theorem findSub_crlf_of_blank {headEnd : Nat} (h : findSub blankLine p = some headEnd) :
    ∃ lineEnd, findSub crlf p = some lineEnd := by
  cases hline : findSub crlf p with
  | some lineEnd => exact ⟨lineEnd, rfl⟩
  | none =>
    obtain ⟨hpre, -⟩ := findSub_some h
    exact absurd ((prefix_append crlf crlf).trans hpre) (findSub_none hline headEnd)

variable {cfg : ServerConfig}

/-- A head that has ended is judged by its own octets. -/
theorem endedHead_append {headEnd : Nat} (h : findSub blankLine p = some headEnd) (more : Bytes) :
    endedHead cfg (p ++ more) headEnd = endedHead cfg p headEnd := by
  have hroom : headEnd + 4 ≤ p.length := findSub_le h blankLine_ne
  have hroom' : headEnd + 4 ≤ (p ++ more).length := by
    rw [length_append]
    omega
  have hparse : httpParseRequestParts (p ++ more) (some headEnd) cfg.maxHeaderCount
      = httpParseRequestParts p (some headEnd) cfg.maxHeaderCount := by
    rw [← httpParseRequestParts_take hroom, ← httpParseRequestParts_take hroom',
      take_append_of_le_length hroom]
  obtain ⟨lineEnd, hline⟩ := findSub_crlf_of_blank h
  rw [endedHead, endedHead, hparse, hline, findSub_append hline crlf_ne]

/-- A line over the limit is refused as such, if the head is not refused for its own size first. -/
theorem headVerdict_long {lineEnd : Nat} (hline : findSub crlf p = some lineEnd)
    (hlong : cfg.maxRequestLine < lineEnd)
    (hsize : ∀ headEnd ∈ findSub blankLine p, headEnd + 4 ≤ cfg.maxHeaderBytes) :
    headVerdict cfg p = .refuse 414 := by
  rw [headVerdict, hline]
  cases hblank : findSub blankLine p with
  | none => exact if_pos hlong
  | some headEnd =>
    have hfits := hsize headEnd hblank
    show endedHead cfg p headEnd = _
    rw [endedHead, if_neg (by omega), hline]
    exact if_pos (by simpa using hlong)

variable {more : Bytes}

/-- **A HEAD'S VERDICT STANDS** when more octets arrive. -/
theorem headVerdict_append (hclear : HeadClear cfg (p ++ more)) :
    headVerdict cfg p = .wait ∨ headVerdict cfg (p ++ more) = headVerdict cfg p := by
  have hlen : p.length ≤ (p ++ more).length := by simp
  cases hblank : findSub blankLine p with
  | some headEnd =>
    right
    rw [headVerdict, headVerdict, hblank, findSub_append hblank blankLine_ne]
    exact endedHead_append hblank more
  | none =>
    cases hline : findSub crlf p with
    | none =>
      rw [headVerdict, hblank, hline]
      by_cases hover : cfg.maxRequestLine < p.length
      · right
        rw [if_pos hover]
        cases hline' : findSub crlf (p ++ more) with
        | none =>
          have hblank' : findSub blankLine (p ++ more) = none := by
            cases hb : findSub blankLine (p ++ more) with
            | none => rfl
            | some headEnd =>
              obtain ⟨lineEnd, hl⟩ := findSub_crlf_of_blank hb
              exact nomatch hline'.symm.trans hl
          rw [headVerdict, hblank', hline']
          exact if_pos (by omega)
        | some lineEnd =>
          -- the line ends late, so it is not below the limit
          have hlate : p.length < lineEnd + 2 := findSub_append_late hline hline'
          rcases hclear lineEnd hline' with hshort | ⟨hlong, hsize⟩
          · omega
          · exact headVerdict_long hline' hlong hsize
      · left
        exact if_neg hover
    | some lineEnd =>
      have hline' : findSub crlf (p ++ more) = some lineEnd := findSub_append hline crlf_ne
      rw [headVerdict, hblank, hline]
      by_cases hlong : cfg.maxRequestLine < lineEnd
      · right
        show _ = ite _ _ _
        rw [if_pos hlong]
        rcases hclear lineEnd hline' with hshort | ⟨_, hsize⟩
        · omega
        · exact headVerdict_long hline' hlong hsize
      · by_cases hover : cfg.maxHeaderBytes < p.length
        · right
          show _ = ite _ _ _
          rw [if_neg hlong, if_pos hover, headVerdict, hline']
          cases hblank' : findSub blankLine (p ++ more) with
          | none =>
            show ite _ _ _ = _
            rw [if_neg hlong, if_pos (by omega)]
          | some headEnd =>
            have hlate : p.length < headEnd + 4 := findSub_append_late hblank hblank'
            show endedHead cfg (p ++ more) headEnd = _
            rw [endedHead, if_pos (by omega)]
        · left
          show ite _ _ _ = _
          rw [if_neg hlong, if_neg hover]

theorem sizeVerdict_append (hclear : SizeClear cfg (p ++ more)) :
    sizeVerdict cfg p = .wait ∨ sizeVerdict cfg (p ++ more) = sizeVerdict cfg p := by
  have hlen : p.length ≤ (p ++ more).length := by simp
  cases hline : findSub crlf p with
  | some lineEnd =>
    right
    have hroom : lineEnd + 2 ≤ p.length := findSub_le hline crlf_ne
    rw [sizeVerdict, sizeVerdict, hline, findSub_append hline crlf_ne]
    show (match chunkLineSize ((p ++ more).take lineEnd) with
      | none => _ | some size => _) = _
    rw [take_append_of_le_length (by omega)]
  | none =>
    by_cases hover : cfg.maxRequestLine < p.length
    · right
      rw [sizeVerdict, sizeVerdict, hline]
      rw [if_pos hover]
      cases hline' : findSub crlf (p ++ more) with
      | none => exact if_pos (by omega)
      | some lineEnd =>
        have hlate : p.length < lineEnd + 2 := findSub_append_late hline hline'
        rcases hclear lineEnd hline' with hshort | hbad
        · omega
        · simp only [hbad]
    · left
      rw [sizeVerdict, hline]
      exact if_neg hover

theorem trailerVerdict_append (hclear : TrailerClear cfg (p ++ more)) :
    trailerVerdict cfg p = .wait ∨ trailerVerdict cfg (p ++ more) = trailerVerdict cfg p := by
  have hlen : p.length ≤ (p ++ more).length := by simp
  by_cases hshort : p.length < 2
  · -- the limit is positive, so a single octet is never over it
    left
    have hnil : p.take 2 ≠ crlf := by
      intro h
      have := congrArg List.length h
      rw [length_take] at this
      simp only [crlf, length_cons, length_nil] at this
      omega
    have hblank : findSub blankLine p = none := by
      cases hb : findSub blankLine p with
      | none => rfl
      | some blockEnd =>
        have : blockEnd + 4 ≤ p.length := findSub_le hb blankLine_ne
        omega
    have hpos := cfg.limits_pos
    rw [trailerVerdict, if_neg hnil, hblank]
    exact if_neg (by omega)
  have htwo : (p ++ more).take 2 = p.take 2 := take_append_of_le_length (by omega)
  by_cases hnil : p.take 2 = crlf
  · right
    rw [trailerVerdict, trailerVerdict, htwo, if_pos hnil, if_pos hnil]
  rw [trailerVerdict, trailerVerdict, htwo, if_neg hnil, if_neg hnil]
  cases hblank : findSub blankLine p with
  | some blockEnd =>
    right
    have hroom : blockEnd + 4 ≤ p.length := findSub_le hblank blankLine_ne
    rw [findSub_append hblank blankLine_ne]
    show ite _ _ _ = ite _ _ _
    rw [take_append_of_le_length (by omega)]
  | none =>
    by_cases hover : cfg.maxHeaderBytes < p.length
    · right
      rw [if_pos hover]
      cases hblank' : findSub blankLine (p ++ more) with
      | none => exact if_pos (by omega)
      | some blockEnd =>
        have hlate : p.length < blockEnd + 4 := findSub_append_late hblank hblank'
        rcases hclear with hcrlf | hsize
        · exact absurd (htwo.symm.trans hcrlf) hnil
        · have := hsize blockEnd hblank'
          omega
    · left
      exact if_neg hover

/-! ## The drivers, by their verdicts -/

variable (policy : Policy)

variable (rx : Rx Bytes)

variable {head : RequestHead}

variable {asked asked' : Asked}

section Drivers

variable {β : Type} [ReadBuffer β]

/-- The request half over plain octets: no storage, no scan offsets, and `more` already
    behind what is unread. -/
def joinRx (rx : Rx β) (more : Bytes) : Rx Bytes :=
  { input := rx.unread ++ more
    headTerminatorScan := 0, requestLineScan := 0
    chunkLineScan := 0, trailerTerminatorScan := 0
    state := rx.state, remaining := rx.remaining
    chunkRemaining := rx.chunkRemaining, bodyReceived := rx.bodyReceived
    bodyChunks := rx.bodyChunks, task := rx.task, consumed := rx.consumed
    requests := rx.requests, verdict := rx.verdict }

def join (c : Conn β) (more : Bytes) : Conn Bytes := { rx := joinRx c.rx more, tx := c.tx }

/-- An accepted head, from the buffer to the start of its request. -/
def acceptRequest (cfg : ServerConfig) (policy : Policy) (c : Conn β)
    (head : RequestHead) : Conn β × Bool :=
  beginRequest cfg policy
    { rx := c.rx.acceptHead head
      tx := { c.tx with deadlineIsRequest := true } } head

/-- A size line is read: the last chunk, a chunk too many or too large, or the next chunk. -/
def takeSizeLine (cfg : ServerConfig) (c : Conn β) (lineEnd size : Nat) : Conn β × Bool :=
  let rx := c.rx.doConsume (lineEnd + 2)
  if size = 0 then
    ({ c with rx := { rx with state := .readingChunkTrailers } }, true)
  else if cfg.maxBodyChunks ≤ rx.bodyChunks then
    (({ c with rx := rx } : Conn β).refuseBody cfg 413, false)
  else
    let rx := { rx with bodyChunks := rx.bodyChunks + 1 }
    if cfg.maxBodyBytes < size
        ∨ cfg.maxBodyBytes - size < rx.bodyReceived then
      (({ c with rx := rx } : Conn β).refuseBody cfg 413, false)
    else
      ({ c with rx := { rx with
          bodyReceived := rx.bodyReceived + size
          chunkRemaining := size
          state := .readingChunkData } }, true)

/-- A driver's turn, seen over plain octets. -/
def seen (more : Bytes) (turn : Conn β × Bool) : Conn Bytes × Bool := (join turn.1 more, turn.2)

/-- A turn that is led by a verdict. -/
def led {α : Type} (c : Conn β) (refusal : Nat → Conn β) (go : α → Conn β × Bool) :
    Verdict α → Conn β × Bool
  | .wait => (c, false)
  | .refuse status => (refusal status, false)
  | .accept value => go value

/-- The refusal of a head. -/
def refuseHead (cfg : ServerConfig) (c : Conn β) (status : Nat) : Conn β :=
  c.refuse cfg status (.refused (pendingIsHead c.rx.unread))

/-- The trailer section is read. -/
def takeTrailers (c : Conn β) (count : Nat) : Conn β × Bool :=
  ({ c with rx := finishTrailers c.rx count }, false)

variable {c : Conn β}

theorem driveHead_eq (hscans : c.rx.Scans) (more : Bytes) :
    seen more (driveHead cfg policy c) = seen more (led c (refuseHead cfg c)
      (acceptRequest cfg policy c) (headVerdict cfg c.rx.unread)) := by
  have hhead := findSubFrom_fst blankLine_ne hscans.head.scanned
  have hline := findSubFrom_fst crlf_ne hscans.line.scanned
  rw [driveHead, headVerdict, ← hhead, ← hline]
  cases hfound : (findSubFrom c.rx.unread blankLine c.rx.headTerminatorScan).1 with
  | none =>
    cases hfoundLine : (findSubFrom c.rx.unread crlf c.rx.requestLineScan).1 with
    | none =>
      simp only
      split <;> rfl
    | some lineEnd =>
      simp only
      split
      · rfl
      split <;> rfl
  | some headEnd =>
    simp only [endedHead, ← hline]
    split
    · rfl
    split
    · rfl
    generalize httpParseRequestParts c.rx.unread (some headEnd) cfg.maxHeaderCount = parsed
    rcases parsed with error | found
    · cases error with
      | tooManyHeaders | malformed => rfl
    · cases found with
      | none => rfl
      | some head =>
        simp only
        split <;> rfl

theorem driveChunkSize_eq (hscans : c.rx.Scans) (more : Bytes) :
    seen more (driveChunkSize cfg c) = seen more (led c (c.refuseBody cfg)
      (fun line => takeSizeLine cfg c line.1 line.2) (sizeVerdict cfg c.rx.unread)) := by
  have hline := findSubFrom_fst crlf_ne hscans.chunk.scanned
  rw [driveChunkSize, sizeVerdict, ← hline]
  cases hfound : (findSubFrom c.rx.unread crlf c.rx.chunkLineScan).1 with
  | none =>
    simp only
    split <;> rfl
  | some lineEnd =>
    simp only
    generalize chunkLineSize (c.rx.unread.take lineEnd) = found
    cases found with
    | none | some => rfl

theorem driveChunkTrailers_eq (hscans : c.rx.Scans) (more : Bytes) :
    seen more (driveChunkTrailers cfg c) = seen more (led c (c.refuseBody cfg)
      (takeTrailers c) (trailerVerdict cfg c.rx.unread)) := by
  have hblank := findSubFrom_fst blankLine_ne hscans.trailer.scanned
  rw [driveChunkTrailers, trailerVerdict, ← hblank]
  simp only
  split
  · rfl
  cases hfound : (findSubFrom c.rx.unread blankLine c.rx.trailerTerminatorScan).1 with
  | none | some =>
    simp only
    split <;> rfl

/-! ## What is read does not depend on what follows -/

@[simp] theorem join_unread (c : Conn β) (more : Bytes) :
    (join c more).rx.unread = c.rx.unread ++ more := rfl

theorem join_scans (c : Conn β) (more : Bytes) : (join c more).rx.Scans := .reset rfl

theorem join_join (more later : Bytes) : join (join c more) later = join c (more ++ later) := by
  show { join c more with rx := { joinRx c.rx more with
    input := (c.rx.unread ++ more) ++ later } } = _
  rw [append_assoc]
  rfl

variable {n : Nat}

theorem joinRx_doConsume {rx : Rx β} (hn : n ≤ rx.unread.length) (more : Bytes) :
    joinRx (rx.doConsume n) more = (joinRx rx more).doConsume n := by
  have hdrop : rx.unread.drop n ++ more = (rx.unread ++ more).drop n :=
    (drop_append_of_le_length hn).symm
  have htake : rx.unread.take n = (rx.unread ++ more).take n := (take_append_of_le_length hn).symm
  rw [joinRx, Rx.doConsume_unread, hdrop]
  show { joinRx rx more with
    input := (rx.unread ++ more).drop n
    consumed := rx.consumed ++ rx.unread.take n } = _
  rw [htake]
  rfl

theorem sendPolicyReply_join (c : Conn β) (keepAlive : Bool) (reply : PolicyReply) (more : Bytes) :
    sendPolicyReply cfg (join c more) keepAlive reply
      = join (sendPolicyReply cfg c keepAlive reply) more := by
  have htx : (join c more).tx = c.tx := rfl
  rw [sendPolicyReply, sendPolicyReply, htx]
  generalize beginResponseParts cfg _ _ _ = begun
  obtain ⟨tx, reason⟩ := begun
  cases reason with
  | some reason => rfl
  | none =>
    simp only
    generalize writeBodyParts cfg tx reply.body false = written
    obtain ⟨tx, reason⟩ := written
    cases reason with
    | some | none => rfl

/-- Starting a request reads no octets. -/
theorem beginRequest_join (c : Conn β) (more : Bytes) :
    beginRequest cfg policy (join c more) head = seen more (beginRequest cfg policy c head) := by
  rw [beginRequest, beginRequest]
  have hreqs : (join c more).rx.requests = c.rx.requests := rfl
  let asked := { c with tx := c.tx.answering (head.minorVersion == 1) (head.method == ascii "HEAD") }
  cases headRefusal cfg head with
  | some status => rfl
  | none =>
    rw [hreqs]
    cases policy.ingress c.rx.requests.length head with
    | some reply =>
      exact congrArg (·, false) (sendPolicyReply_join asked _ _ more)
    | none =>
      simp only
      split
      · cases policy.websocketOrigin c.rx.requests.length head with
        | some reply =>
          exact congrArg (·, false) (sendPolicyReply_join asked _ _ more)
        | none =>
          simp only
          split
          · rfl
          split <;> rfl
      · rfl

theorem acceptRequest_join (hroom : head.consumed ≤ c.rx.unread.length) (policy : Policy)
    (more : Bytes) :
    acceptRequest cfg policy (join c more) head = seen more (acceptRequest cfg policy c head) := by
  have haccept : (joinRx c.rx more).acceptHead head = joinRx (c.rx.acceptHead head) more := by
    rw [Rx.acceptHead, ← joinRx_doConsume hroom]
    rfl
  rw [acceptRequest, acceptRequest, ← beginRequest_join]
  show beginRequest cfg policy
    { rx := (joinRx c.rx more).acceptHead head,
      tx := { c.tx with deadlineIsRequest := true } } head = _
  rw [haccept]
  rfl

theorem takeSizeLine_join {lineEnd : Nat} (hroom : lineEnd + 2 ≤ c.rx.unread.length) (size : Nat)
    (more : Bytes) :
    takeSizeLine cfg (join c more) lineEnd size = seen more (takeSizeLine cfg c lineEnd size) := by
  have hrx : (join c more).rx.doConsume (lineEnd + 2)
      = joinRx (c.rx.doConsume (lineEnd + 2)) more :=
    (joinRx_doConsume hroom more).symm
  rw [takeSizeLine, takeSizeLine, hrx]
  generalize c.rx.doConsume (lineEnd + 2) = rx
  by_cases hlast : size = 0
  · simp only [if_pos hlast]
    rfl
  simp only [if_neg hlast]
  show ite (cfg.maxBodyChunks ≤ rx.bodyChunks) _ _ = _
  split
  · rfl
  show ite (cfg.maxBodyBytes < size ∨ cfg.maxBodyBytes - size < rx.bodyReceived) _ _ = _
  split <;> rfl

theorem takeTrailers_join {count : Nat} (hroom : count ≤ c.rx.unread.length) (more : Bytes) :
    takeTrailers (join c more) count = seen more (takeTrailers c count) := by
  show (Conn.mk (finishTrailers (joinRx c.rx more) count) c.tx, false) = _
  rw [finishTrailers, ← joinRx_doConsume hroom]
  rfl

/-! ## Turns -/

/-- The statuses of the responses on a wire. -/
def statuses (wire : List Wire) : List Nat :=
  wire.filterMap (fun
    | .head h => some h.status
    | _ => none)

/-- What a client and an application see of a connection: the requests with their bodies,
    the refusal that ended it, the statuses sent. -/
structure Observation where
  requests : List RequestLog
  verdict : Option Nat
  statuses : List Nat
  deriving Repr, DecidableEq

omit [ReadBuffer β] in
def observe (c : Conn β) : Observation :=
  { requests := c.rx.requests, verdict := c.rx.verdict
    statuses := Http1Drive.statuses c.tx.wire }

/-- Two closing connections that look alike. -/
structure Alike {γ : Type} (c : Conn β) (w : Conn γ) : Prop where
  closing : c.tx.closing = true
  closing' : w.tx.closing = true
  task : w.rx.task = c.rx.task
  observed : observe w = observe c

/-- Nothing to drive: the request has been read, or the connection is closing. -/
def Idle (c : Conn β) : Prop :=
  c.tx.closing = true ∨ c.rx.state = .requestRunning ∨ c.rx.state = .websocket

/-- The size limits decide the octets at hand and any beginning of them alike. -/
def Clear (cfg : ServerConfig) (c : Conn β) : Prop :=
  c.tx.closing = true ∨
    match c.rx.state with
    | .readingHead => HeadClear cfg c.rx.unread
    | .readingChunkSize => SizeClear cfg c.rx.unread
    | .readingChunkTrailers => TrailerClear cfg c.rx.unread
    | _ => True

/-- A turn of the driver loop over plain octets. -/
def turn (cfg : ServerConfig) (policy : Policy) (d : Conn Bytes) : Conn Bytes × Bool :=
  seen [] (driveOnce cfg policy d)

/-- The driver of each state. -/
def driver (cfg : ServerConfig) (policy : Policy) :
    ParserState → Conn β → Conn β × Bool
  | .readingHead, c => driveHead cfg policy c
  | .readingFixedBody, c => driveFixedBody c
  | .readingChunkSize, c => driveChunkSize cfg c
  | .readingChunkData, c => driveChunkData cfg c
  | .readingChunkTrailers, c => driveChunkTrailers cfg c
  | .requestRunning, c => (c, false)
  | .websocket, c => (c, false)

theorem driveOnce_open (hopen : c.tx.closing = false) (policy : Policy) :
    driveOnce cfg policy c = driver cfg policy c.rx.state c := by
  rw [driveOnce, hopen]
  cases c.rx.state <;> rfl

theorem turn_join (more : Bytes) (hopen : c.tx.closing = false) {state : ParserState}
    (hstate : c.rx.state = state) :
    turn cfg policy (join c more) = seen [] (driver cfg policy state (join c more)) := by
  have hopen' : (join c more).tx.closing = false := hopen
  rw [turn, driveOnce_open hopen', ← hstate]
  rfl

/-- How a turn on a beginning of the stream fits the turn on more of it. -/
inductive Absorbed (cfg : ServerConfig) (policy : Policy) (more : Bytes)
    (c : Conn β) (r : Conn β × Bool) : Prop where
  | waits (h : join r.1 more = join c more)
  | same (h : turn cfg policy (join c more) = seen more r) (hidle : r.2 = false → Idle r.1)
  | resumed (hopen : r.1.tx.closing = false)
      (h : turn cfg policy (join c more) = turn cfg policy (join r.1 more))
      (hclear : Clear cfg (join r.1 more))
  | refused (hflag : (turn cfg policy (join c more)).2 = false)
      (h : Alike r.1 (turn cfg policy (join c more)).1)

theorem seen_seen (more : Bytes) (r : Conn β × Bool) : seen [] (seen more r) = seen more r := by
  show (join (join r.1 more) [], r.2) = _
  rw [join_join, append_nil]
  rfl

/-- Who asked does not show in the statuses of an error response. -/
theorem writeError_statuses (tx : Tx) (status : Nat) :
    statuses (writeError cfg tx status asked).wire
      = statuses (writeError cfg tx status asked').wire := by
  by_cases hclose : tx.closing = true
  · have hshut : ∀ w, tx.emit w = tx := emit_shut ⟨hclose, rfl⟩
    simp only [writeError, hshut]
  · have hemit : ∀ a, tx.emit (.head (errorHead cfg status a))
        = { tx with
            wire := tx.wire ++ [.head (errorHead cfg status a)] } :=
      fun a => if_neg hclose
    have hsame : ∀ tail, statuses (tx.wire ++ [.head (errorHead cfg status asked)] ++ tail)
          = statuses (tx.wire ++ [.head (errorHead cfg status asked')] ++ tail) := by
      intro tail
      simp only [statuses, filterMap_append]
      rfl
    rw [writeError, writeError, hemit, hemit]
    by_cases hhead : tx.methodIsHead = true
    · simp only [if_pos hhead]
      have := hsame []
      rwa [append_nil, append_nil] at this
    · simp only [if_neg hhead, Tx.emit, if_neg hclose]
      exact hsame _

theorem sendError_statuses (tx : Tx) (status : Nat) : statuses (sendError cfg tx status asked).wire
      = statuses (sendError cfg tx status asked').wire := by
  rw [sendError, sendError]
  split
  · rfl
  · exact writeError_statuses tx status

variable {more : Bytes} {c' : Conn β}

theorem Alike.of_join {γ : Type} {w : Conn γ}
    (h : Alike c' w) (hjoin : join c more = join c' more) : Alike c w := by
  have htx : c.tx = c'.tx := congrArg (fun d : Conn Bytes => d.tx) hjoin
  have htask : c.rx.task = c'.rx.task := congrArg (fun d : Conn Bytes => d.rx.task) hjoin
  have hreqs : c.rx.requests = c'.rx.requests :=
    congrArg (fun d : Conn Bytes => d.rx.requests) hjoin
  have hverd : c.rx.verdict = c'.rx.verdict := congrArg (fun d : Conn Bytes => d.rx.verdict) hjoin
  refine ⟨htx ▸ h.closing, h.closing', h.task.trans htask.symm, ?_⟩
  rw [h.observed, observe, observe, htx, hreqs, hverd]

theorem Idle.of_join (h : Idle c') (hjoin : join c more = join c' more) : Idle c := by
  have htx : c.tx = c'.tx := congrArg (fun d : Conn Bytes => d.tx) hjoin
  have hstate : c.rx.state = c'.rx.state := congrArg (fun d : Conn Bytes => d.rx.state) hjoin
  rwa [Idle, htx, hstate]

omit [ReadBuffer β] in
/-- A request that does not go on has closed the connection. -/
theorem beginRequest_stops : (beginRequest cfg policy c head).2 = false →
      (beginRequest cfg policy c head).1.tx.closing = true := by
  fun_cases beginRequest cfg policy c head with
  | case1 | case4 | case5 => exact fun _ => Conn.refuse_closing _ _ _ _
  | case2 | case3 => exact fun _ => sendPolicyReply_closing _ _ _ _
  | case6 | case7 => rintro ⟨⟩

/-! ### One lemma per driver -/

variable {cfg : ServerConfig}

theorem headVerdict_accept (h : headVerdict cfg p = .accept head) :
    0 < head.consumed ∧ head.consumed ≤ p.length := by
  revert h
  fun_cases headVerdict cfg p with
  | case6 headEnd =>
    fun_cases endedHead cfg p headEnd with
    | case7 _ _ _ hparse =>
      rintro ⟨⟩
      obtain ⟨hconsumed, hle⟩ := httpParseRequestParts_consumed hparse
      omega
    | _ => rintro ⟨⟩
  | _ => rintro ⟨⟩

theorem sizeVerdict_accept {lineEnd size : Nat}
    (h : sizeVerdict cfg p = .accept (lineEnd, size)) : lineEnd + 2 ≤ p.length := by
  revert h
  fun_cases sizeVerdict cfg p with
  | case4 _ hline =>
    rintro ⟨⟩
    exact findSub_le hline crlf_ne
  | _ => rintro ⟨⟩

theorem trailerVerdict_accept {count : Nat} (h : trailerVerdict cfg p = .accept count) :
    count ≤ p.length := by
  revert h
  fun_cases trailerVerdict cfg p with
  | case1 hcrlf =>
    rintro ⟨⟩
    have := congrArg List.length hcrlf
    rw [length_take] at this
    simp only [crlf, length_cons, length_nil] at this
    omega
  | case4 _ _ hblank =>
    rintro ⟨⟩
    exact findSub_le hblank blankLine_ne
  | _ => rintro ⟨⟩

theorem takeSizeLine_stops (lineEnd size : Nat) : (takeSizeLine cfg c lineEnd size).2 = false →
      (takeSizeLine cfg c lineEnd size).1.tx.closing = true := by
  generalize hr : takeSizeLine cfg c lineEnd size = r
  rw [takeSizeLine] at hr
  simp only at hr
  split at hr
  · exact fun h => nomatch hr ▸ h
  split at hr
  · exact fun _ => hr ▸ Conn.refuseBody_closing _ _ _
  split at hr
  · exact fun _ => hr ▸ Conn.refuseBody_closing _ _ _
  · exact fun h => nomatch hr ▸ h

variable {refusal : Nat → Conn β} {r : Conn β × Bool} {refusal' : Nat → Conn Bytes}

/-- A turn that is led by a verdict which stands is absorbed. -/
theorem absorbed_led {policy : Policy} {α : Type} {v v' : Verdict α} {go : α → Conn β × Bool}
    {go' : α → Conn Bytes × Bool} (hpart : seen more r = seen more (led c refusal go v))
    (hwhole : turn cfg policy (join c more) = seen [] (led (join c more) refusal' go' v'))
    (hstands : v = .wait ∨ v' = v)
    (href : ∀ status, Alike (refusal status) (join (refusal' status) []))
    (hgo : ∀ a, v = .accept a → go' a = seen more (go a) ∧ ((go a).2 = false → Idle (go a).1)) :
    Absorbed cfg policy more c r := by
  have hflag : r.2 = (led c refusal go v).2 := congrArg (fun d : Conn Bytes × Bool => d.2) hpart
  have hjoin : join r.1 more = join (led c refusal go v).1 more := congrArg Prod.fst hpart
  rcases hstands with rfl | rfl
  · exact .waits hjoin
  cases v' with
  | wait => exact .waits hjoin
  | refuse status =>
    refine .refused (congrArg Prod.snd hwhole) (Alike.of_join ?_ hjoin)
    rw [hwhole]
    exact href status
  | accept a =>
    obtain ⟨hsame, hidle⟩ := hgo a rfl
    refine .same ?_ fun hstops => ?_
    · rw [hwhole, hpart]
      show seen [] (go' a) = seen more (go a)
      rw [hsame, seen_seen]
    · exact (hidle (hflag.symm.trans hstops)).of_join hjoin

theorem alike_refuseBody (more : Bytes) (status : Nat) :
    Alike (c.refuseBody cfg status) (join ((join c more).refuseBody cfg status) []) :=
  ⟨Conn.refuseBody_closing _ _ _, Conn.refuseBody_closing _ _ _, rfl, rfl⟩

theorem driveHead_absorbed {policy : Policy} (hscans : c.rx.Scans) (hopen : c.tx.closing = false)
    (hstate : c.rx.state = .readingHead) (hclear : HeadClear cfg (c.rx.unread ++ more)) :
    Absorbed cfg policy more c (driveHead cfg policy c) := by
  refine absorbed_led (driveHead_eq policy hscans more)
    ((turn_join policy more hopen hstate).trans (driveHead_eq policy (join_scans c more) []))
    (headVerdict_append hclear) (fun status => ?_) fun head hverd => ⟨?_, fun hstops => ?_⟩
  · refine ⟨Conn.refuse_closing _ _ _ _, Conn.refuse_closing _ _ _ _, rfl, ?_⟩
    show Observation.mk _ _ _ = Observation.mk _ _ _
    congr 1
    exact sendError_statuses c.tx status
  · exact acceptRequest_join (headVerdict_accept hverd).2 policy more
  · exact .inl (beginRequest_stops _ hstops)

theorem driveChunkSize_absorbed (hscans : c.rx.Scans) (hopen : c.tx.closing = false)
    (hstate : c.rx.state = .readingChunkSize) (hclear : SizeClear cfg (c.rx.unread ++ more)) :
    Absorbed cfg policy more c (driveChunkSize cfg c) :=
  absorbed_led (driveChunkSize_eq hscans more) ((turn_join policy more hopen hstate).trans
      (driveChunkSize_eq (join_scans c more) []))
    (sizeVerdict_append hclear) (alike_refuseBody more) fun line hverd =>
      ⟨takeSizeLine_join (sizeVerdict_accept hverd) line.2 more,
        fun hstops => .inl (takeSizeLine_stops _ _ hstops)⟩

theorem driveChunkTrailers_absorbed (hscans : c.rx.Scans) (hopen : c.tx.closing = false)
    (hstate : c.rx.state = .readingChunkTrailers)
    (hclear : TrailerClear cfg (c.rx.unread ++ more)) :
    Absorbed cfg policy more c (driveChunkTrailers cfg c) :=
  absorbed_led (driveChunkTrailers_eq hscans more)
    ((turn_join policy more hopen hstate).trans (driveChunkTrailers_eq (join_scans c more) []))
    (trailerVerdict_append hclear) (alike_refuseBody more) fun _ hverd =>
      ⟨takeTrailers_join (trailerVerdict_accept hverd) more, fun _ => .inr (.inl rfl)⟩

/-! ### Bodies in pieces -/

/-- Two parts of a body are delivered like the whole. -/
theorem deliver_deliver (first second : Bytes) (more : Bool) : ∀ requests : List RequestLog,
      deliver second more (deliver first true requests) = deliver (first ++ second) more requests
  | [] => rfl
  | [r] => by
      show [{ r with
        body := r.body ++ first ++ second
        received := (r.received || false) || !more }] = _
      rw [append_assoc, Bool.or_false]
      rfl
  | r :: r' :: rest => by
      have ih := deliver_deliver first second more (r' :: rest)
      have hne : deliver first true (r' :: rest) ≠ [] := fun h => nomatch deliver_eq_nil.mp h
      show deliver second more (r :: deliver first true (r' :: rest))
        = r :: deliver (first ++ second) more (r' :: rest)
      rw [← ih]
      cases hd : deliver first true (r' :: rest) with
      | nil => exact absurd hd hne
      | cons d ds => rfl

theorem doConsume_doConsume (a b : Nat) : (rx.doConsume a).doConsume b = rx.doConsume (a + b) := by
  have hinput : (rx.input.drop a).drop b = rx.input.drop (a + b) := drop_drop
  have hconsumed : rx.consumed ++ rx.input.take a ++ (rx.input.drop a).take b
      = rx.consumed ++ rx.input.take (a + b) := by
    rw [append_assoc, ← take_add]
  show { rx.doConsume a with
    input := (rx.input.drop a).drop b
    consumed := rx.consumed ++ rx.input.take a ++ (rx.input.drop a).take b } = _
  rw [hinput, hconsumed]
  rfl

/-- A driver that moves what it can of a body: `left` octets are due, `take` moves some of
    them, and `after` goes on from there. -/
structure Pieces (cfg : ServerConfig) (policy : Policy) (state : ParserState)
    (take : ∀ {β : Type} [ReadBuffer β], Rx β → Nat → Rx β) (left : ∀ {β : Type}, Rx β → Nat)
    (after : ∀ {β : Type} [ReadBuffer β], Conn β → Conn β × Bool) : Prop where
  empty : ∀ {β : Type} [ReadBuffer β] {c : Conn β}, c.rx.unread = [] →
    driver cfg policy state c = (c, false)
  driven : ∀ {β : Type} [ReadBuffer β] {c : Conn β}, c.rx.unread ≠ [] →
    driver cfg policy state c
      = after { c with rx := take c.rx (min (left c.rx) c.rx.unread.length) }
  due : ∀ {β : Type} [ReadBuffer β] (rx : Rx β) (more : Bytes), left (joinRx rx more) = left rx
  joined : ∀ {β : Type} [ReadBuffer β] {rx : Rx β} {n : Nat}, n ≤ rx.unread.length → ∀ more,
    take (joinRx rx more) n = joinRx (take rx n) more
  frame : ∀ {β : Type} [ReadBuffer β] (rx : Rx β) (n : Nat),
    (take rx n).unread = rx.unread.drop n ∧ (take rx n).state = rx.state
      ∧ left (take rx n) = left rx - n
  twice : ∀ (rx : Rx Bytes) {a b : Nat}, 0 < a → 0 < b → a < left rx →
    take (take rx a) b = take rx (a + b)
  goesOn : ∀ {β : Type} [ReadBuffer β] {c : Conn β}, 0 < left c.rx → after c = (c, true)
  plain : ∀ d : Conn Bytes, d.rx.state = state → Clear cfg d

section Pieces

variable {policy : Policy} {state : ParserState}
  {take : ∀ {β : Type} [ReadBuffer β], Rx β → Nat → Rx β} {left : ∀ {β : Type}, Rx β → Nat}
  {after : ∀ {β : Type} [ReadBuffer β], Conn β → Conn β × Bool}
  (P : Pieces cfg policy state take left after) (hopen : c.tx.closing = false)
  (hstate : c.rx.state = state)
include P hopen hstate

/-- The turn on more octets. -/
theorem Pieces.turn (hne : c.rx.unread ++ more ≠ []) :
    turn cfg policy (join c more) = seen [] (after (Conn.mk (take (joinRx c.rx more)
      (min (left c.rx) (c.rx.unread ++ more).length)) c.tx)) := by
  rw [turn_join policy more hopen hstate, P.driven (c := join c more) hne]
  show seen [] (after (Conn.mk (take (joinRx c.rx more)
    (min (left (joinRx c.rx more)) (c.rx.unread ++ more).length)) c.tx)) = _
  rw [P.due]

/-- The turn on more octets, when it takes the same part of them. -/
theorem Pieces.turn_part (hne : c.rx.unread ++ more ≠ []) (hn : n ≤ c.rx.unread.length)
    (hmin : min (left c.rx) (c.rx.unread ++ more).length = n) :
    Http1Drive.turn cfg policy (join c more)
      = seen [] (after (join { c with rx := take c.rx n } more)) := by
  rw [P.turn hopen hstate hne, hmin, P.joined hn]
  rfl

/-- A part of a body: the next turn takes up where this one stopped. -/
theorem Pieces.resumes (hnil : c.rx.unread ≠ []) (hpart : c.rx.unread.length < left c.rx)
    (hmore : more ≠ []) : Http1Drive.turn cfg policy (join c more)
      = Http1Drive.turn cfg policy (join { c with rx := take c.rx c.rx.unread.length } more) := by
  obtain ⟨hunread, hst', hleft⟩ := P.frame c.rx c.rx.unread.length
  rw [drop_length] at hunread
  have hpos := length_pos_iff.mpr hnil
  have hpos' := length_pos_iff.mpr hmore
  have hfirst := P.joined (le_refl c.rx.unread.length) more
  have hsplit : min (left c.rx) (c.rx.unread ++ more).length
      = c.rx.unread.length + min (left c.rx - c.rx.unread.length) more.length := by
    rw [length_append]
    omega
  have hdue : c.rx.unread.length < left (joinRx c.rx more) := by
    rw [P.due]
    exact hpart
  rw [P.turn hopen hstate (fun h => hnil (append_eq_nil_iff.mp h).1),
    P.turn (c := { c with rx := take c.rx c.rx.unread.length }) hopen (hst'.trans hstate)
      (by rw [hunread]; exact hmore), hunread, nil_append, hleft, hsplit,
    ← P.twice _ hpos (by omega) hdue, hfirst]

/-- A part of a body is absorbed. -/
theorem Pieces.part_absorbed (hnil : c.rx.unread ≠ []) (hpart : c.rx.unread.length < left c.rx) :
    Absorbed cfg policy more c (after { c with rx := take c.rx c.rx.unread.length }) := by
  obtain ⟨-, hst', hleft⟩ := P.frame c.rx c.rx.unread.length
  have hgo : 0 < left (take c.rx c.rx.unread.length) := by
    omega
  rw [P.goesOn hgo]
  by_cases hmore : more = []
  · refine .same ?_ nofun
    rw [P.turn_part hopen hstate (fun h => hnil (append_eq_nil_iff.mp h).1) le_rfl
      (by rw [hmore, append_nil]; omega), ← seen_seen more]
    refine congrArg (seen []) (P.goesOn ?_)
    show 0 < left (joinRx _ more)
    rw [P.due]
    exact hgo
  · exact .resumed hopen (P.resumes hopen hstate hnil hpart hmore) (P.plain _ (hst'.trans hstate))

/-- Storage and offsets do not show in a part, if they do not show in what follows it. -/
theorem Pieces.seen
    (hafter : ∀ c : Conn β, Http1Drive.seen [] (after (join c [])) = Http1Drive.seen [] (after c)) :
    Http1Drive.turn cfg policy (join c []) = Http1Drive.seen [] (driver cfg policy state c) := by
  by_cases hnil : c.rx.unread = []
  · rw [turn_join policy [] hopen hstate, P.empty hnil,
      P.empty (c := join c []) ((append_nil _).trans hnil)]
    exact seen_seen [] (c, false)
  · rw [P.turn_part hopen hstate (by rw [append_nil]; exact hnil) (min_le_right _ _)
      (by rw [append_nil]), P.driven hnil]
    exact hafter _

end Pieces

/-- `drive_fixed_body` takes `n` octets. -/
def takeFixed (rx : Rx β) (n : Nat) : Rx β :=
  Rx.enqueueBody
    { rx.doConsume n with remaining := rx.remaining - n }
    (rx.unread.take n) (0 < rx.remaining - n)

theorem takeFixed_join {rx : Rx β} (hn : n ≤ rx.unread.length) (more : Bytes) :
    takeFixed (joinRx rx more) n = joinRx (takeFixed rx n) more := by
  have htake : (joinRx rx more).unread.take n = rx.unread.take n := take_append_of_le_length hn
  rw [takeFixed, htake, ← joinRx_doConsume hn]
  rfl

theorem takeFixed_add {a : Nat} (b : Nat) (ha : a < rx.remaining) :
    takeFixed (takeFixed rx a) b = takeFixed rx (a + b) := by
  have hleft : decide (0 < rx.remaining - a) = true := by
    rw [decide_eq_true_iff]
    omega
  have hrem : rx.remaining - a - b = rx.remaining - (a + b) := by
    omega
  have hreqs : deliver ((rx.input.drop a).take b) (0 < rx.remaining - a - b)
        (deliver (rx.input.take a) (0 < rx.remaining - a) rx.requests)
      = deliver (rx.input.take (a + b)) (0 < rx.remaining - (a + b)) rx.requests := by
    rw [hleft, deliver_deliver, ← take_add, hrem]
  show { (rx.doConsume a).doConsume b with
    remaining := rx.remaining - a - b
    requests := deliver ((rx.input.drop a).take b) (0 < rx.remaining - a - b)
      (deliver (rx.input.take a) (0 < rx.remaining - a) rx.requests) } = _
  rw [hreqs, hrem, doConsume_doConsume]
  rfl

theorem takeChunk_join {rx : Rx β} (hn : n ≤ rx.unread.length) (more : Bytes) :
    (joinRx rx more).takeChunk n = joinRx (rx.takeChunk n) more := by
  have htake : (joinRx rx more).unread.take n = rx.unread.take n := take_append_of_le_length hn
  rw [Rx.takeChunk, Rx.takeChunk, htake, ← joinRx_doConsume hn]
  split <;> rfl

theorem takeChunk_add {a b : Nat} (ha : 0 < a) (hb : 0 < b) :
    (rx.takeChunk a).takeChunk b = rx.takeChunk (a + b) := by
  have hreqs : deliver ((rx.input.drop a).take b) true
        (deliver (rx.input.take a) true rx.requests)
      = deliver (rx.input.take (a + b)) true rx.requests := by
    rw [deliver_deliver, ← take_add]
  have hrem : rx.chunkRemaining - a - b = rx.chunkRemaining - (a + b) := by
    omega
  rw [Rx.takeChunk, Rx.takeChunk, Rx.takeChunk]
  simp only [if_neg (ne_of_gt ha), if_neg (ne_of_gt hb), if_neg (show ¬ a + b = 0 by omega)]
  show { (rx.doConsume a).doConsume b with
    chunkRemaining := rx.chunkRemaining - a - b
    requests := deliver ((rx.input.drop a).take b) true
      (deliver (rx.input.take a) true rx.requests) } = _
  rw [hreqs, hrem, doConsume_doConsume]
  rfl

/-- The body goes on, or the request is read. -/
def afterFixed (c : Conn β) : Conn β × Bool :=
  if 0 < c.rx.remaining then (c, true)
  else ({ c with rx := { c.rx with state := .requestRunning } }, false)

theorem afterFixed_join (c : Conn β) (more : Bytes) :
    seen [] (afterFixed (join c more)) = seen more (afterFixed c) := by
  have hafter : afterFixed (join c more) = seen more (afterFixed c) := by
    rw [afterFixed, afterFixed]
    show ite (0 < c.rx.remaining) _ _ = _
    split <;> rfl
  rw [hafter, seen_seen]

theorem driveFixedBody_eq (hne : c.rx.unread ≠ []) : driveFixedBody c = afterFixed { c with
      rx := takeFixed c.rx (min c.rx.remaining c.rx.unread.length) } := by
  rw [driveFixedBody, if_neg hne]
  rfl

theorem fixed_pieces : Pieces cfg policy .readingFixedBody takeFixed Rx.remaining afterFixed where
  empty h := if_pos h
  driven := driveFixedBody_eq
  due _ _ := rfl
  joined := takeFixed_join
  frame rx n := ⟨Rx.doConsume_unread _ _, rfl, rfl⟩
  twice rx _ b _ _ := takeFixed_add rx b
  goesOn h := if_pos h
  plain d h := .inr (by rw [h]; trivial)

theorem driveFixedBody_absorbed (hopen : c.tx.closing = false)
    (hstate : c.rx.state = .readingFixedBody) : Absorbed cfg policy more c (driveFixedBody c) := by
  by_cases hnil : c.rx.unread = []
  · rw [driveFixedBody, if_pos hnil]
    exact .waits rfl
  rw [driveFixedBody_eq hnil]
  by_cases hpart : c.rx.unread.length < c.rx.remaining
  · rw [min_eq_right (le_of_lt hpart)]
    exact (fixed_pieces policy).part_absorbed hopen hstate hnil hpart
  · refine .same ?_ (fun hflag => .inr (.inl ?_))
    · rw [(fixed_pieces policy).turn_part hopen hstate
        (fun h => hnil (append_eq_nil_iff.mp h).1) (min_le_right c.rx.remaining _)
        (by rw [length_append]; omega)]
      exact afterFixed_join _ more
    · rw [afterFixed] at hflag ⊢
      split at hflag
      · cases hflag
      · rename_i hdone
        rw [if_neg hdone]

/-- The chunk goes on, or its CRLF is next. -/
def afterChunk (cfg : ServerConfig) (c : Conn β) : Conn β × Bool :=
  if c.rx.chunkRemaining ≠ 0 then (c, true)
  else if c.rx.unread.length < 2 then (c, false)
  else if c.rx.unread.take 2 ≠ crlf then (c.refuseBody cfg 400, false)
  else
    ({ c with rx := { c.rx.doConsume 2 with state := .readingChunkSize } }, true)

theorem afterChunk_nil (c : Conn β) :
    seen [] (afterChunk cfg (join c [])) = seen [] (afterChunk cfg c) := by
  have hnil : (join c []).rx.unread = c.rx.unread := append_nil _
  have hconsume : 2 ≤ c.rx.unread.length →
      (join c []).rx.doConsume 2 = joinRx (c.rx.doConsume 2) [] :=
    fun h => (joinRx_doConsume h []).symm
  have hafter : afterChunk cfg (join c []) = seen [] (afterChunk cfg c) := by
    rw [afterChunk, afterChunk, hnil]
    show ite (c.rx.chunkRemaining ≠ 0) _ _ = _
    split
    · rfl
    split
    · rfl
    rename_i hroom
    split
    · rfl
    · rw [hconsume (Nat.le_of_not_lt hroom)]
      rfl
  rw [hafter, seen_seen]

theorem driveChunkData_eq (cfg : ServerConfig) (hne : c.rx.unread ≠ []) :
    driveChunkData cfg c = afterChunk cfg { c with
      rx := c.rx.takeChunk (min c.rx.chunkRemaining c.rx.unread.length) } := by
  rw [driveChunkData, if_neg hne]
  rfl

/-- The connection after `n` octets went into a chunk. -/
def chunkPart (c : Conn β) (n : Nat) : Conn β := { c with rx := c.rx.takeChunk n }

theorem takeChunk_frame (rx : Rx β) (n : Nat) : (rx.takeChunk n).unread = rx.unread.drop n
      ∧ (rx.takeChunk n).state = rx.state
      ∧ (rx.takeChunk n).chunkRemaining = rx.chunkRemaining - n := by
  rw [Rx.takeChunk]
  split
  · exact ⟨Rx.doConsume_unread _ _, rfl, rfl⟩
  · exact ⟨Rx.doConsume_unread _ _, rfl, rfl⟩

theorem chunk_pieces (cfg : ServerConfig) (policy : Policy) :
    Pieces cfg policy .readingChunkData Rx.takeChunk Rx.chunkRemaining (afterChunk cfg) where
  empty h := if_pos h
  driven := driveChunkData_eq cfg
  due _ _ := rfl
  joined := takeChunk_join
  frame := takeChunk_frame
  twice rx _ _ ha hb _ := takeChunk_add rx ha hb
  goesOn h := if_pos (ne_of_gt h)
  plain d h := .inr (by rw [h]; trivial)

/-- Behind the last octet of a chunk nothing is taken. -/
theorem chunk_ended (cfg : ServerConfig) (policy : Policy)
    (more : Bytes) (hopen : c.tx.closing = false) (hstate : c.rx.state = .readingChunkData)
    (hended : c.rx.chunkRemaining = 0) :
    turn cfg policy (join c more) = seen [] (afterChunk cfg (join c more)) := by
  by_cases hne : (join c more).rx.unread = []
  · rw [turn_join policy more hopen hstate, (chunk_pieces cfg policy).empty hne,
      afterChunk, if_neg (fun h => h hended), if_pos (by rw [hne]; decide)]
  · have htake : (joinRx c.rx more).takeChunk 0 = joinRx c.rx more := by
      show { (joinRx c.rx more) with consumed := c.rx.consumed ++ [] } = joinRx c.rx more
      rw [append_nil]
      rfl
    rw [(chunk_pieces cfg policy).turn hopen hstate hne, hended, Nat.zero_min, htake]
    rfl

theorem driveChunkData_absorbed (hopen : c.tx.closing = false)
    (hstate : c.rx.state = .readingChunkData) :
    Absorbed cfg policy more c (driveChunkData cfg c) := by
  by_cases hnil : c.rx.unread = []
  · rw [driveChunkData, if_pos hnil]
    exact .waits rfl
  have P := chunk_pieces cfg policy
  rw [driveChunkData_eq cfg hnil]
  by_cases hpart : c.rx.unread.length < c.rx.chunkRemaining
  · rw [min_eq_right (le_of_lt hpart)]
    exact P.part_absorbed hopen hstate hnil hpart
  · have hle : c.rx.chunkRemaining ≤ c.rx.unread.length := Nat.le_of_not_lt hpart
    rw [min_eq_left hle]
    have hne : c.rx.unread ++ more ≠ [] := fun h => hnil (append_eq_nil_iff.mp h).1
    have hturn := P.turn_part hopen hstate hne hle (by rw [length_append]; omega)
    obtain ⟨-, hst', hleft⟩ := takeChunk_frame c.rx c.rx.chunkRemaining
    rw [Nat.sub_self] at hleft
    generalize hc' : { c with rx := c.rx.takeChunk c.rx.chunkRemaining } = c' at hturn ⊢
    have hrx : c.rx.takeChunk c.rx.chunkRemaining = c'.rx := congrArg Conn.rx hc'
    rw [hrx] at hst' hleft
    have hopen' : c'.tx.closing = false := by rw [← hc']; exact hopen
    have hended : ¬ c'.rx.chunkRemaining ≠ 0 := fun h => h hleft
    by_cases hshort : c'.rx.unread.length < 2
    · rw [afterChunk, if_neg hended, if_pos hshort]
      exact .resumed hopen' (hturn.trans (chunk_ended cfg policy more hopen'
        (hst'.trans hstate) hleft).symm) (P.plain _ (hst'.trans hstate))
    · have hroom : ¬ (join c' more).rx.unread.length < 2 := by
        rw [join_unread, length_append]
        omega
      have htwo : (join c' more).rx.unread.take 2 = c'.rx.unread.take 2 :=
        take_append_of_le_length (by omega)
      have hended' : ¬ (join c' more).rx.chunkRemaining ≠ 0 := hended
      rw [afterChunk, if_neg hended', if_neg hroom, htwo] at hturn
      rw [afterChunk, if_neg hended, if_neg hshort]
      by_cases hbad : c'.rx.unread.take 2 ≠ crlf
      · rw [if_pos hbad] at hturn ⊢
        refine .refused (congrArg Prod.snd hturn) ?_
        rw [hturn]
        exact ⟨Conn.refuseBody_closing _ _ _, Conn.refuseBody_closing _ _ _, rfl, rfl⟩
      · rw [if_neg hbad] at hturn ⊢
        refine .same ?_ nofun
        have hconsume : (joinRx c'.rx more).doConsume 2 = joinRx (c'.rx.doConsume 2) more :=
          (joinRx_doConsume (by omega) more).symm
        rw [hturn, ← seen_seen more]
        show seen [] (Conn.mk { (joinRx c'.rx more).doConsume 2 with
          state := .readingChunkSize } c'.tx, true) = _
        rw [hconsume]
        rfl

/-- **ONE TURN IS ABSORBED**: a turn taken before the rest of the stream arrives fits the
    turn taken after. -/
theorem driveOnce_absorbed (hscans : c.rx.Scans) (hopen : c.tx.closing = false)
    (hclear : Clear cfg (join c more)) : Absorbed cfg policy more c (driveOnce cfg policy c) := by
  have hclear : match c.rx.state with
      | .readingHead => HeadClear cfg (c.rx.unread ++ more)
      | .readingChunkSize => SizeClear cfg (c.rx.unread ++ more)
      | .readingChunkTrailers => TrailerClear cfg (c.rx.unread ++ more)
      | _ => True := by
    rcases hclear with hclose | hclear
    · exact nomatch hopen.symm.trans hclose
    · exact hclear
  rw [driveOnce_open hopen]
  cases hstate : c.rx.state with
  | readingHead =>
    rw [hstate] at hclear
    exact driveHead_absorbed hscans hopen hstate hclear
  | readingFixedBody => exact driveFixedBody_absorbed policy hopen hstate
  | readingChunkSize =>
    rw [hstate] at hclear
    exact driveChunkSize_absorbed policy hscans hopen hstate hclear
  | readingChunkData => exact driveChunkData_absorbed policy hopen hstate
  | readingChunkTrailers =>
    rw [hstate] at hclear
    exact driveChunkTrailers_absorbed policy hscans hopen hstate hclear
  | requestRunning | websocket => exact .waits rfl

theorem seen_led {α : Type} {v : Verdict α} {go : α → Conn β × Bool} {go' : α → Conn Bytes × Bool}
    (href : ∀ status, refusal' status = join (refusal status) [])
    (hgo : ∀ a, v = .accept a → go' a = seen [] (go a)) :
    seen [] (led (join c []) refusal' go' v) = seen [] (led c refusal go v) := by
  cases v with
  | wait => exact seen_seen [] (c, false)
  | refuse status =>
    show seen [] (refusal' status, false) = _
    rw [href]
    exact seen_seen [] (refusal status, false)
  | accept a =>
    show seen [] (go' a) = _
    rw [hgo a rfl]
    exact seen_seen [] (go a)

/-- **STORAGE AND OFFSETS DO NOT SHOW**: a turn is the turn over plain octets. -/
theorem turn_seen (hscans : c.rx.Scans) :
    turn cfg policy (join c []) = seen [] (driveOnce cfg policy c) := by
  have hnil : (join c []).rx.unread = c.rx.unread := append_nil _
  by_cases hclose : c.tx.closing = true
  · have hclose' : (join c []).tx.closing = true := hclose
    rw [turn, driveOnce, driveOnce, if_pos hclose, if_pos hclose']
    exact seen_seen [] (c, false)
  have hopen : c.tx.closing = false := Bool.eq_false_iff.mpr hclose
  rw [driveOnce_open hopen]
  cases hstate : c.rx.state with
  | readingHead =>
    refine (turn_join policy [] hopen hstate).trans
      ((driveHead_eq policy (join_scans c []) []).trans ?_)
    rw [driver, driveHead_eq policy hscans, hnil]
    refine seen_led (fun status => ?_) fun head hverd =>
      acceptRequest_join (headVerdict_accept hverd).2 policy []
    rw [refuseHead, hnil]
    rfl
  | readingFixedBody =>
    exact (fixed_pieces policy).seen hopen hstate fun c => afterFixed_join c []
  | readingChunkSize =>
    refine (turn_join policy [] hopen hstate).trans
      ((driveChunkSize_eq (join_scans c []) []).trans ?_)
    rw [driver, driveChunkSize_eq hscans, hnil]
    exact seen_led (fun _ => rfl) fun line hverd =>
      takeSizeLine_join (sizeVerdict_accept hverd) line.2 []
  | readingChunkData => exact (chunk_pieces cfg policy).seen hopen hstate (afterChunk_nil)
  | readingChunkTrailers =>
    refine (turn_join policy [] hopen hstate).trans
      ((driveChunkTrailers_eq (join_scans c []) []).trans ?_)
    rw [driver, driveChunkTrailers_eq hscans, hnil]
    exact seen_led (fun _ => rfl) fun _ hverd =>
      takeTrailers_join (trailerVerdict_accept hverd) []
  | requestRunning | websocket =>
    rw [turn_join policy [] hopen hstate]
    exact seen_seen [] (c, false)

/-! ## The loop -/

theorem beginRequest_unread : (beginRequest cfg policy c head).1.rx.unread = c.rx.unread := by
  have hpol : ∀ (tx : Tx) (reply : PolicyReply),
      (sendPolicyReply cfg { c with tx := tx } head.info.keepAlive
        reply).rx.unread = c.rx.unread := by
    intro tx reply
    rw [sendPolicyReply]
    split
    · rfl
    split <;> rfl
  fun_cases beginRequest cfg policy c head with
  | case2 | case3 => exact hpol _ _
  | _ => rfl

/-- A turn that asks for another one has consumed something. -/
def Eats (c : Conn β) (r : Conn β × Bool) : Prop :=
  r.2 = true → r.1.rx.unread.length < c.rx.unread.length

theorem Eats.of_seen {r' : Conn β × Bool}
    (h : seen [] r = seen [] r') (heats : Eats c r') : Eats c r := by
  intro hnext
  have hflag : r.2 = r'.2 := congrArg (fun d : Conn Bytes × Bool => d.2) h
  have hunread : r.1.rx.unread ++ [] = r'.1.rx.unread ++ [] :=
    congrArg (fun d : Conn Bytes × Bool => d.1.rx.unread) h
  rw [append_nil, append_nil] at hunread
  rw [hunread]
  exact heats (hflag.symm.trans hnext)

theorem eats_drop (hpos : 0 < n) (hroom : n ≤ c.rx.unread.length)
    (h : c'.rx.unread = c.rx.unread.drop n) (flag : Bool) : Eats c (c', flag) := by
  intro _
  rw [h, length_drop]
  omega

theorem eats_led {α : Type} {v : Verdict α} {go : α → Conn β × Bool}
    (h : seen [] r = seen [] (led c refusal go v))
    (hgo : ∀ a, v = .accept a → Eats c (go a)) : Eats c r := by
  refine .of_seen h ?_
  cases v with
  | wait | refuse => exact nofun
  | accept a => exact hgo a rfl

theorem driveHead_eats (hscans : c.rx.Scans) : Eats c (driveHead cfg policy c) := by
  refine eats_led (driveHead_eq policy hscans []) fun head hverd => ?_
  obtain ⟨hpos, hroom⟩ := headVerdict_accept hverd
  refine eats_drop hpos hroom ?_ _
  exact (beginRequest_unread _).trans (Rx.doConsume_unread _ _)

theorem driveFixedBody_eats : Eats c (driveFixedBody c) := by
  by_cases hnil : c.rx.unread = []
  · rw [driveFixedBody, if_pos hnil]
    exact nofun
  · have hpos := length_pos_iff.mpr hnil
    rw [driveFixedBody_eq hnil, afterFixed]
    split
    · rename_i hgo
      have hgo : 0 < c.rx.remaining - min c.rx.remaining c.rx.unread.length := hgo
      exact eats_drop (n := min c.rx.remaining c.rx.unread.length)
        (by omega) (min_le_right _ _) (Rx.doConsume_unread _ _) _
    · exact nofun

theorem driveChunkSize_eats (hscans : c.rx.Scans) : Eats c (driveChunkSize cfg c) := by
  refine eats_led (driveChunkSize_eq hscans []) fun line hverd => ?_
  refine eats_drop (Nat.succ_pos _) (sizeVerdict_accept hverd) ?_ _
  show (takeSizeLine cfg c line.1 line.2).1.rx.unread = _
  rw [← Rx.doConsume_unread, takeSizeLine]
  simp only
  split
  · rfl
  split
  · rfl
  split <;> rfl

theorem driveChunkData_eats : Eats c (driveChunkData cfg c) := by
  by_cases hnil : c.rx.unread = []
  · rw [driveChunkData, if_pos hnil]
    exact nofun
  · have hpos := length_pos_iff.mpr hnil
    rw [driveChunkData_eq cfg hnil]
    show Eats c (afterChunk cfg (chunkPart c (min c.rx.chunkRemaining c.rx.unread.length)))
    have hle := min_le_right c.rx.chunkRemaining c.rx.unread.length
    generalize hn : min c.rx.chunkRemaining c.rx.unread.length = n at hle
    obtain ⟨hunread, -, hleft⟩ := takeChunk_frame c.rx n
    change (chunkPart c n).rx.unread = _ at hunread
    change (chunkPart c n).rx.chunkRemaining = _ at hleft
    rw [afterChunk]
    split
    · exact eats_drop (by omega) hle hunread _
    split
    · exact nofun
    rename_i hroom
    split
    · exact nofun
    · rw [hunread, length_drop] at hroom
      refine eats_drop (n := n + 2) (by omega) (by omega) ?_ _
      show ((chunkPart c n).rx.doConsume 2).unread = _
      rw [Rx.doConsume_unread, hunread, drop_drop]

/-- **EVERY TURN EATS.** -/
theorem driveOnce_eats (hscans : c.rx.Scans) : Eats c (driveOnce cfg policy c) := by
  by_cases hclose : c.tx.closing = true
  · rw [driveOnce, if_pos hclose]
    rintro ⟨⟩
  rw [driveOnce_open (Bool.eq_false_iff.mpr hclose)]
  cases c.rx.state with
  | readingHead => exact driveHead_eats policy hscans
  | readingFixedBody => exact driveFixedBody_eats
  | readingChunkSize => exact driveChunkSize_eats hscans
  | readingChunkData => exact driveChunkData_eats
  | readingChunkTrailers =>
    refine eats_led (driveChunkTrailers_eq hscans []) fun _ _ => ?_
    rintro ⟨⟩
  | requestRunning | websocket => rintro ⟨⟩

end Drivers

end Http1Drive
