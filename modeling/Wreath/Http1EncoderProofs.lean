import Wreath.Http1TranscriptProofs

/-! # The response encoder and its wire

What the encoder's flags say about the response it is sending. On an open connection
every response but the last is whole, and the last one is either whole or in flight: the
octets behind its head are those the encoder has counted (`Encoder`). A closing
connection may cut its last response short, but never runs past what was declared
(`Closed`). -/

namespace Http1Encoder

open ByteScan HttpHead ChunkedCoding Http1Response Http1Transcript List

/-! ## Starting a response -/

/-- The length a header list declares: its last Content-Length. -/
def declaredLength : List HeaderItem → Option Nat
  | [] => none
  | .pair name value :: rest =>
    match declaredLength rest with
    | some n => some n
    | none =>
      if equalCi name nameContentLength then
        parseContentLengthHeader value
      else none
  | _ :: rest => declaredLength rest

def HeaderArg.declared : HeaderArg → Option Nat
  | .items items => declaredLength items
  | .absent => none
  | .notSequence => none

theorem framingName_lower (name : Bytes) : framingName (lower name) = framingName name := by
  simp only [framingName, equalCi, lower_lower]

/-- The header loop copies no framing field, and keeps the last declared length. -/
theorem appendHeaders_ok (items : List HeaderItem)
    {tx tx' : Tx} {hasDate hasServer hasDate' hasServer' : Bool}
    (h : appendHeaders items tx hasDate hasServer = .ok (tx', hasDate', hasServer')) :
    ∃ fields, (∀ f ∈ fields, framingName f.1 = false)
        ∧ tx' = { tx with
            respHasLength := (declaredLength items).isSome || tx.respHasLength
            respContentLength := (declaredLength items).getD tx.respContentLength
            draft := { tx.draft with
              fields := tx.draft.fields ++ fields } } := by
  have hother : ∀ {name value : Bytes} {rest}, ¬ equalCi name nameContentLength = true →
      declaredLength (.pair name value :: rest) = declaredLength rest := by
    intro name value rest hname
    cases hrest : declaredLength rest with
    | some m => simp [declaredLength, hrest]
    | none => simp [declaredLength, hrest, hname]
  fun_induction appendHeaders items tx hasDate hasServer with
  | case1 =>
    cases h
    exact ⟨[], fun _ hf => (by cases hf), by simp [declaredLength]⟩
  | case2 | case3 | case4 | case5 => cases h
  | case6 =>
    rename_i rest _ _ _ _ _ _ hname n hn ih
    -- a Content-Length is read, not copied
    obtain ⟨fields, hflds, rfl⟩ := ih h
    refine ⟨fields, hflds, ?_⟩
    cases hrest : declaredLength rest with
    | some m => simp [declaredLength, hrest]
    | none => simp [declaredLength, hrest, hname, hn]
  | case7 =>
    rename_i hname _ ih
    rw [hother hname]
    exact ih h
  | case8 =>
    rename_i name value rest _ _ _ _ _ _ hname hframing ih
    rw [hother hname]
    obtain ⟨fields, hflds, rfl⟩ := ih h
    refine ⟨(lower name, value) :: fields, forall_mem_cons.mpr ⟨?_, hflds⟩, by simp⟩
    rw [framingName_lower, framingName, Bool.or_eq_false_iff]
    rw [Bool.not_eq_true, Bool.or_eq_false_iff] at hframing
    exact ⟨by simpa using hname, hframing.1⟩

variable (cfg : ServerConfig)

theorem defaults_framing : ∀ f ∈ cfg.defaultResponseHeaders, framingName f.1 = false := by
  intro f hf
  rw [ServerConfig.defaultResponseHeaders, mem_append] at hf
  rcases hf with hf | hf
  · obtain ⟨v, -, rfl⟩ : ∃ v, cfg.serverHeader = some v
        ∧ (ascii "server", v) = f := by simpa using hf
    show framingName (ascii "server") = false
    decide
  · obtain ⟨v, -, rfl⟩ : ∃ v, cfg.dateHeader = some v ∧ (ascii "date", v) = f := by simpa using hf
    show framingName (ascii "date") = false
    decide

/-- The started state a response call leaves. -/
def startedWith (tx : Tx) (code : Int) (draft : HeadDraft) (hasLength : Bool) (length : Nat) : Tx :=
  { tx with
    respStatus := code.toNat
    responseStarted := true
    responseSuppressBody := tx.responseSuppressBody || statusForbidsBody code.toNat
    draft := draft
    respHasLength := hasLength
    respContentLength := length }

/-- How a response starts: it is refused before it counts as started, it counts as started
    and fails, or its head is ready. -/
inductive Began (tx : Tx) (headers : HeaderArg) : Option Int → Reply → Prop where
  | refused (status : Option Int) (reason : String) :
      Began tx headers status ({ tx with draft := .clear }, some reason)
  | failed (code : Int) (draft : HeadDraft) (hasLength : Bool)
      (length : Nat) (reason : String) :
      draft.fields = [] →
      Began tx headers (some code) (startedWith tx code draft hasLength length, some reason)
  | ready (code : Int) (draft : HeadDraft) :
      draft.statusLine = true →
      (∀ f ∈ draft.fields, framingName f.1 = false) →
      Began tx headers (some code)
        ({ startedWith tx code draft
              ((HeaderArg.declared headers).isSome || tx.respHasLength)
              ((HeaderArg.declared headers).getD tx.respContentLength) with
            headWritten := false }, none)

theorem remainingDefaults_framing (hasDate hasServer : Bool) :
    ∀ f ∈ remainingDefaults cfg hasDate hasServer, framingName f.1 = false := by
  intro f hf
  exact defaults_framing cfg f (mem_of_mem_filter hf)

theorem beginResponseParts_began (tx : Tx) (status : Option Int) (headers : HeaderArg) :
    Began tx headers status (beginResponseParts cfg tx status headers) := by
  unfold beginResponseParts
  simp only
  split
  · exact .refused _ _
  rename_i code
  split
  · exact .refused _ _
  split
  · exact .failed code _ tx.respHasLength tx.respContentLength _ rfl
  · exact .ready code { statusLine := true, fields := remainingDefaults cfg false false } rfl
      (remainingDefaults_framing cfg false false)
  · rename_i items
    split
    · rename_i tx' reason heq
      obtain ⟨l, n, d, h⟩ := appendHeaders_frame items
        (startedWith tx code { statusLine := true, fields := [] }
          tx.respHasLength tx.respContentLength) false false
      have hloop := congrArg loopState heq
      have hst : tx' = _ := hloop.symm.trans h
      subst hst
      exact .failed code .clear l n _ rfl
    · rename_i tx' hasDate hasServer heq
      obtain ⟨fields, hflds, rfl⟩ := appendHeaders_ok items heq
      refine .ready code
        { statusLine := true
          fields := ([] ++ fields) ++ remainingDefaults cfg _ _ } rfl ?_
      intro f hf
      rcases mem_append.mp hf with hf | hf
      · rcases mem_append.mp hf with hf | hf
        · cases hf
        · exact hflds f hf
      · exact remainingDefaults_framing cfg _ _ f hf

/-! ## The encoder and its wire -/

/-- A flag is not both down and up. -/
theorem flag_absurd {b : Bool} {p : Prop} (hdown : b = false)
    (hup : b = true) : p := nomatch hdown.symm.trans hup

/-- The rule the encoder is following. -/
def txRule (tx : Tx) : BodyRule :=
  if tx.responseSuppressBody then .nothing
  else if tx.respHasLength then .sized tx.respContentLength
  else if tx.responseChunked then .chunked
  else .untilClose

/-- The octets sent so far are those the encoder has counted. -/
def Counted (tx : Tx) (body : Bytes) : Prop :=
  match txRule tx with
  | .nothing => body = []
  | .sized n =>
    if tx.fileActive then body.length + tx.fileQuota = n
    else body.length = tx.responseBodySent ∧ body.length ≤ n
  | .chunked => ∃ payload, Chunks body payload
  | .untilClose => tx.responseKeepAlive = false

/-- The response being sent, as the encoder knows it. -/
structure Sending (tx : Tx) (r : Response) : Prop where
  wellFormed : WellFormed r.1
  ruled : rule r.1 = txRule tx
  counted : Counted tx r.2
  written : tx.headWritten = true
  running : tx.responseComplete = false
  chunked : tx.responseChunked = true → txRule tx = .chunked
  file : tx.fileActive = true → tx.respHasLength = true
    ∧ (tx.responseSuppressBody = true → tx.fileQuota = 0)

variable {tx : Tx}

theorem Sending.part {r : Response} (h : Sending tx r) : Part (rule r.1) r.2 := by
  have hcnt := h.counted
  rw [h.ruled]
  rw [Counted] at hcnt
  cases hrule : txRule tx with
  | nothing =>
    rw [hrule] at hcnt
    exact hcnt
  | sized n =>
    simp only [hrule] at hcnt
    split at hcnt
    · exact Nat.le_of_add_right_le (Nat.le_of_eq hcnt)
    · exact hcnt.2
  | chunked =>
    rw [hrule] at hcnt
    exact .inl hcnt
  | untilClose => exact trivial

/-- What follows the finished responses: nothing, or the one being sent. -/
inductive Tail (tx : Tx) : List Response → Prop where
  | rest : (tx.headWritten = true → tx.responseComplete = true) → Tail tx []
  | sending {r : Response} : Sending tx r → Tail tx [r]

/-- The flags of an open connection fit together. -/
structure Ready (tx : Tx) : Prop where
  unwritten : tx.headWritten = false → tx.responseBodySent = 0
    ∧ tx.fileActive = false ∧ tx.responseComplete = false
  started : tx.headWritten = true → tx.responseStarted = true
  file : tx.fileActive = true → tx.responseComplete = false
  next : tx.wantNext = true → tx.responseComplete = true
  undeclared : tx.responseStarted = false → tx.respHasLength = false
  draft : ∀ f ∈ tx.draft.fields, framingName f.1 = false
  suppress : tx.wsMode = false → tx.responseSuppressBody
    = (tx.methodIsHead
      || (tx.responseStarted && statusForbidsBody tx.respStatus))
  websocket : tx.wsMode = true → tx.headWritten = true → tx.responseComplete = true
  unclosed : tx.wsMode = true → tx.wsCloseSent = false

/-- An open connection and its wire. -/
structure Encoder (tx : Tx) : Prop where
  ready : Ready tx
  wire : ∃ past tail, transcript tx.wire = some (past ++ tail)
    ∧ (∀ r ∈ past, Delivered r) ∧ Tail tx tail

/-- A wire that may have been cut off in its last response. -/
def Closed (wire : List Wire) : Prop :=
  ∃ past tail, transcript wire = some (past ++ tail)
    ∧ (∀ r ∈ past, Delivered r) ∧ tail.length ≤ 1
    ∧ ∀ r ∈ tail, WellFormed r.1 ∧ Part (rule r.1) r.2

/-- The invariant of the response half. -/
structure TxInv (tx : Tx) : Prop where
  closed : Closed tx.wire
  opened : tx.closing = false → Encoder tx

theorem Encoder.closed (h : Encoder tx) : Closed tx.wire := by
  obtain ⟨past, tail, hwire, hpast, htail⟩ := h.wire
  refine ⟨past, tail, hwire, hpast, ?_⟩
  cases htail with
  | rest _ => exact ⟨Nat.zero_le _, nofun⟩
  | sending hs =>
    refine ⟨le_rfl, ?_⟩
    intro r hr
    obtain rfl := mem_singleton.mp hr
    exact ⟨hs.wellFormed, hs.part⟩

theorem Encoder.inv (h : Encoder tx) : TxInv tx := ⟨h.closed, fun _ => h⟩

/-- A closing connection only has to keep its wire. -/
theorem txInv_of_shut {wire : List Wire} (h : Closed wire) (hshut : tx.Shut wire) : TxInv tx := by
  exact ⟨hshut.2 ▸ h, fun hopen => flag_absurd hopen hshut.1⟩

theorem TxInv.close (h : TxInv tx) : TxInv tx.protocolClose := txInv_of_shut h.closed ⟨rfl, rfl⟩

/-- The wire does not depend on these flags. -/
theorem TxInv.withFlags (h : TxInv tx) (accepting disconnected framingError : Bool) :
    TxInv { tx with
      accepting := accepting, disconnected := disconnected, framingError := framingError } := by
  refine ⟨h.closed, fun hopen => ⟨{ (h.opened hopen).ready with }, ?_⟩⟩
  obtain ⟨past, tail, hwire, hpast, htail⟩ := (h.opened hopen).wire
  refine ⟨past, tail, hwire, hpast, ?_⟩
  cases htail with
  | rest hrest => exact .rest hrest
  | sending hs => exact .sending { hs with }

/-- A finished response joins the past. -/
theorem delivered_snoc {past : List Response} {r : Response}
    (hpast : ∀ r ∈ past, Delivered r) (hr : Delivered r) : ∀ r' ∈ past ++ [r], Delivered r' := by
  intro r' hr'
  rcases mem_append.mp hr' with h | h
  · exact hpast r' h
  · exact mem_singleton.mp h ▸ hr

/-- Every response on the wire is finished. -/
def AtRest (tx : Tx) : Prop := ∃ past, transcript tx.wire = some past ∧ ∀ r ∈ past, Delivered r

theorem AtRest.closed (h : AtRest tx) : Closed tx.wire := by
  obtain ⟨past, hwire, hpast⟩ := h
  exact ⟨past, [], by rwa [append_nil], hpast, Nat.zero_le _, nofun⟩

/-- A connection at rest with nothing in flight. -/
theorem AtRest.encoder (h : AtRest tx) (hready : Ready tx)
    (hrest : tx.headWritten = true → tx.responseComplete = true) : Encoder tx := by
  obtain ⟨past, hwire, hpast⟩ := h
  exact ⟨hready, past, [], by rwa [append_nil], hpast, .rest hrest⟩

/-- While no head is out, every response on the wire is finished. -/
theorem Encoder.atRest (h : Encoder tx)
    (hrest : tx.headWritten = true → tx.responseComplete = true) : AtRest tx := by
  obtain ⟨past, tail, hwire, hpast, htail⟩ := h.wire
  cases htail with
  | rest _ => exact ⟨past, by rwa [append_nil] at hwire, hpast⟩
  | sending hs => exact flag_absurd hs.running (hrest hs.written)

theorem Encoder.unstarted (h : Encoder tx)
    (hstart : tx.responseStarted = false) : tx.headWritten = false := by
  cases hw : tx.headWritten with
  | false => rfl
  | true => exact flag_absurd hstart (h.ready.started hw)

theorem emit_open (h : tx.closing = false) (w : Wire) :
    tx.emit w = { tx with wire := tx.wire ++ [w] } := by
  rw [Tx.emit, if_neg (by rw [h]; exact Bool.false_ne_true)]

/-- Starting a response keeps the invariant, however it ends. -/
theorem Began.encoder {headers : HeaderArg} {status : Option Int} {reply : Reply}
    (hbegan : Began tx headers status reply) (henc : Encoder tx)
    (hstart : tx.responseStarted = false) (hws : tx.wsMode = false) : Encoder reply.1 := by
  have hunwr := henc.unstarted hstart
  obtain ⟨hsent, hfile, hcomp⟩ := henc.ready.unwritten hunwr
  have hwire := henc.atRest (flag_absurd hunwr)
  have hsupp := henc.ready.suppress hws
  rw [hstart, Bool.false_and, Bool.or_false] at hsupp
  cases hbegan with
  | refused _ reason =>
    exact AtRest.encoder hwire { henc.ready with draft := fun f hf => nomatch hf }
      (flag_absurd hunwr)
  | failed code draft hasLength length reason hdraft =>
    refine AtRest.encoder hwire ⟨henc.ready.unwritten, fun _ => rfl, henc.ready.file,
      henc.ready.next, nofun, ?_, ?_, henc.ready.websocket, henc.ready.unclosed⟩
      (flag_absurd hunwr)
    · intro f hf
      rw [show (startedWith tx code draft hasLength length).draft.fields = [] from hdraft] at hf
      cases hf
    · intro _
      show (tx.responseSuppressBody || _) = _
      rw [hsupp]
      rfl
  | ready code draft hline hflds =>
    refine AtRest.encoder hwire ⟨fun _ => ⟨hsent, hfile, hcomp⟩, fun _ => rfl, henc.ready.file,
      henc.ready.next, nofun, hflds, ?_, nofun, henc.ready.unclosed⟩ nofun
    intro _
    show (tx.responseSuppressBody || _) = _
    rw [hsupp]
    rfl

/-! ## Writing the head -/

/-- The framing decision, by what it decides. -/
inductive Decided (tx : Tx) (size : Nat) (streaming : Bool) : Tx → Prop where
  | nothing : tx.responseSuppressBody = true →
      Decided tx size streaming { tx with responseChunked := false }
  | sized (n : Nat) : tx.responseSuppressBody = false →
      (tx.respHasLength = true → n = tx.respContentLength) →
      (tx.respHasLength = false → n = size) →
      Decided tx size streaming { tx with
        respHasLength := true, respContentLength := n
        responseChunked := false }
  | chunked : tx.responseSuppressBody = false → tx.respHasLength = false →
      streaming = true →
      Decided tx size streaming { tx with responseChunked := true }
  | untilClose : tx.responseSuppressBody = false →
      tx.respHasLength = false → streaming = true →
      Decided tx size streaming { tx with responseChunked := false, responseKeepAlive := false }

theorem decideBodyFraming_decided (tx : Tx) (size : Nat) (streaming : Bool) :
    Decided tx size streaming (decideBodyFraming tx size streaming) := by
  unfold decideBodyFraming
  split
  · rename_i hs
    exact .nothing hs
  rename_i hs
  rw [Bool.not_eq_true] at hs
  split
  · rename_i hfirst
    rw [Bool.and_eq_true, Bool.not_eq_true', Bool.not_eq_true'] at hfirst
    exact .sized size hs (flag_absurd hfirst.2) (fun _ => rfl)
  rename_i hstream
  split
  · rename_i hl
    have hsame : ({ tx with responseChunked := false } : Tx)
        = { tx with respHasLength := true
                    respContentLength := tx.respContentLength
                    responseChunked := false } := by
      rw [← hl]
    rw [hsame]
    exact .sized _ hs (fun _ => rfl) (fun h => flag_absurd h hl)
  rename_i hl
  rw [Bool.not_eq_true] at hl
  have hstream : streaming = true := by simpa [hl] using hstream
  split
  · exact .chunked hs hl hstream
  · exact .untilClose hs hl hstream

/-- What a head declares is what the encoder follows. -/
theorem rule_wireHead (hsupp : tx.responseSuppressBody
      = (tx.methodIsHead || statusForbidsBody tx.respStatus)) : rule tx.wireHead = txRule tx := by
  have hbodyless : bodyless tx.wireHead = tx.responseSuppressBody := by
    rw [hsupp, bodyless]
    show (Asked.accepted tx.methodIsHead == _ || _) = _
    cases tx.methodIsHead <;> rfl
  rw [rule, hbodyless, txRule]
  split
  · rfl
  rename_i hs
  cases hl : tx.respHasLength with
  | true => simp [Tx.wireHead, hl]
  | false => simp [Tx.wireHead, hl, hs]

/-- The state behind a head that went out alone. -/
def headOut (tx : Tx) (wire : List Wire) : Tx :=
  { tx with wire := wire, draft := .clear, headWritten := true }

/-- Ready to write a head: started, not written, with a status line. -/
structure HeadReady (tx : Tx) : Prop where
  enc : Encoder tx
  opened : tx.closing = false
  unwritten : tx.headWritten = false
  started : tx.responseStarted = true
  http : tx.wsMode = false
  line : tx.draft.statusLine = true

/-- The head that goes out starts a response with nothing sent. -/
theorem Decided.sending {tx' : Tx} {size : Nat} {streaming : Bool}
    (h : Decided tx size streaming tx') (hready : HeadReady tx) (wire : List Wire) :
    Sending (headOut tx' wire) (tx'.wireHead, []) ∧ Ready (headOut tx' wire) := by
  obtain ⟨hsent, hfile, hcomp⟩ := hready.enc.ready.unwritten hready.unwritten
  have hforbids := hready.enc.ready.suppress hready.http
  have hsupp := hforbids
  have hnext := hready.enc.ready.next
  rw [hready.started, Bool.true_and] at hsupp
  have hruled : rule tx'.wireHead = txRule tx' := by
    refine rule_wireHead ?_
    cases h <;> exact hsupp
  have hflds := hready.enc.ready.draft
  have hnone : ∀ {p : Prop}, tx.fileActive = true → p := flag_absurd hfile
  have hwsnone : ∀ {p : Prop}, tx.wsMode = true → p := flag_absurd hready.http
  have hdone : ∀ {p : Prop}, tx.responseStarted = false → p := fun h => flag_absurd h hready.started
  have hout : Ready (headOut tx' wire) := by
    cases h <;> exact ⟨nofun, fun _ => hready.started, hnone, hnext, hdone, nofun,
      fun _ => hforbids, hwsnone, hwsnone⟩
  cases h with
  | nothing hs =>
    refine ⟨⟨⟨hready.line, hflds⟩, hruled, ?_, rfl, hcomp, nofun, hnone⟩, hout⟩
    have hrule : txRule (headOut { tx with responseChunked := false } wire) = .nothing := if_pos hs
    rw [Counted, hrule]
  | sized n hs hdecl hsize =>
    refine ⟨⟨⟨hready.line, hflds⟩, hruled, ?_, rfl, hcomp, nofun, hnone⟩, hout⟩
    simp only [Counted, txRule, headOut, hs, hfile]
    exact ⟨hsent.symm, Nat.zero_le _⟩
  | chunked hs hl hstream =>
    refine ⟨⟨⟨hready.line, hflds⟩, hruled, ?_, rfl, hcomp, fun _ => ?_, hnone⟩, hout⟩
    · simp only [Counted, txRule, headOut, hs, hl]
      exact ⟨[], .nil⟩
    · simp [txRule, headOut, hs, hl]
  | untilClose hs hl hstream =>
    refine ⟨⟨⟨hready.line, hflds⟩, hruled, ?_, rfl, hcomp, nofun, hnone⟩, hout⟩
    simp [Counted, txRule, headOut, hs, hl]

/-- `decide_framing_and_write_head` on an open connection. -/
theorem writeHead_open (hopen : tx.closing = false) (body : Bytes) (streaming : Bool) :
    ∃ framed, Decided tx body.length streaming framed
      ∧ decideFramingAndWriteHead cfg tx body streaming
        = (headOut framed (tx.wire ++ [.head framed.wireHead]
            ++ if coalesces cfg tx body streaming then [.data body] else []),
          coalesces cfg tx body streaming) := by
  have hdec := decideBodyFraming_decided tx body.length streaming
  refine ⟨_, hdec, ?_⟩
  rw [decideFramingAndWriteHead]
  generalize decideBodyFraming tx body.length streaming = framed at hdec
  have hframe : framed.closing = false ∧ framed.wire = tx.wire
      ∧ framed.responseSuppressBody = tx.responseSuppressBody := by
    cases hdec <;> exact ⟨hopen, rfl, rfl⟩
  obtain ⟨hopen', hwire, hsupp⟩ := hframe
  have hco : coalesces cfg framed body streaming = coalesces cfg tx body streaming := by
    rw [coalesces, coalesces, hsupp]
  simp only [hco, emit_open hopen']
  split
  · have hstill : Tx.closing { framed with
        wire := framed.wire ++ [.head framed.wireHead] } = false := hopen'
    rw [emit_open hstill, hwire]
    rfl
  · rw [append_nil, hwire]
    rfl

/-! ## Writing the body -/

/-- An open connection with a response being sent. -/
structure InFlight (tx : Tx) : Prop where
  opened : tx.closing = false
  ready : Ready tx
  wire : ∃ past r, transcript tx.wire = some (past ++ [r])
    ∧ (∀ r ∈ past, Delivered r) ∧ Sending tx r

theorem InFlight.encoder (h : InFlight tx) : Encoder tx := by
  obtain ⟨past, r, hwire, hpast, hs⟩ := h.wire
  exact ⟨h.ready, past, [r], hwire, hpast, .sending hs⟩

/-- An encoder whose head is out and whose response runs is in flight. -/
theorem Encoder.inFlight (h : Encoder tx) (hopen : tx.closing = false)
    (hwritten : tx.headWritten = true) (hrun : tx.responseComplete = false) : InFlight tx := by
  obtain ⟨past, tail, hwire, hpast, htail⟩ := h.wire
  cases htail with
  | rest hrest => exact flag_absurd hrun (hrest hwritten)
  | sending hs => exact ⟨hopen, h.ready, past, _, hwire, hpast, hs⟩

/-- The head goes out alone. -/
theorem HeadReady.inFlight (h : HeadReady tx) (cfg : ServerConfig) (body : Bytes) (streaming : Bool)
    (halone : coalesces cfg tx body streaming = false) :
    InFlight (decideFramingAndWriteHead cfg tx body streaming).1
      ∧ (decideFramingAndWriteHead cfg tx body streaming).2 = false := by
  obtain ⟨framed, hdec, heq⟩ := writeHead_open cfg h.opened body streaming
  obtain ⟨past, hwire, hpast⟩ := h.enc.atRest (flag_absurd h.unwritten)
  have hopen : framed.closing = false := by
    cases hdec <;> exact h.opened
  rw [heq, halone, if_neg Bool.false_ne_true, append_nil]
  obtain ⟨hs, hready⟩ := hdec.sending h (tx.wire ++ [.head framed.wireHead])
  exact ⟨⟨hopen, hready, past, _, transcript_head hwire _, hpast, hs⟩, rfl⟩

/-- One more data run, with the count the encoder now keeps. -/
theorem InFlight.data (h : InFlight tx) (sent : Nat) (d : Bytes)
    (hcnt : ∀ body, Counted tx body → Counted { tx with responseBodySent := sent } (body ++ d)) :
    InFlight (Tx.emit { tx with responseBodySent := sent } (.data d)) := by
  obtain ⟨past, r, hwire, hpast, hs⟩ := h.wire
  have hopen : Tx.closing { tx with responseBodySent := sent } = false := h.opened
  rw [emit_open hopen]
  exact ⟨h.opened, { h.ready with unwritten := fun hw => flag_absurd hw hs.written }, past,
    (r.1, r.2 ++ d), transcript_data hwire d, hpast,
    { hs with counted := hcnt r.2 hs.counted }⟩

/-- `write_body_parts` behind a head that is out. -/
theorem writeBodyData_inFlight (h : InFlight tx) (hfile : tx.fileActive = false) (body : Bytes) :
    InFlight (writeBodyData tx body tx.responseSuppressBody false).1 := by
  rw [writeBodyData]
  split
  · exact h
  rename_i hsome
  rw [not_or] at hsome
  obtain ⟨hne, hs⟩ := hsome
  split
  · rename_i hl
    split
    · exact h
    rename_i hfit
    refine h.data _ body ?_
    intro sent hsent
    simp only [Counted, txRule, hs, hl, hfile, if_true, if_false, Bool.false_eq_true] at hsent ⊢
    rw [length_append, hsent.1]
    exact ⟨rfl, Nat.not_lt.mp hfit⟩
  rename_i hl
  split
  · rename_i hc
    refine h.data tx.responseBodySent (chunkText body) ?_
    intro sent hsent
    simp only [Counted, txRule, hs, hl, hc, if_true] at hsent ⊢
    obtain ⟨payload, hchunks⟩ := hsent
    exact ⟨payload ++ body, hchunks.snoc (sizeLine_hexText body.length) hne⟩
  · rename_i hc
    refine h.data tx.responseBodySent body ?_
    intro sent hsent
    simp only [Counted, txRule, hs, hl, hc] at hsent ⊢
    exact hsent

variable {body : Bytes} {suppress : Bool}

/-- A body that went out with the head is only counted. -/
theorem writeBodyData_rides (hne : body ≠ []) (hs : suppress = false) (hl : tx.respHasLength = true)
    (hroom : tx.responseBodySent + body.length ≤ tx.respContentLength) :
    writeBodyData tx body suppress true
      = ({ tx with responseBodySent :=
            tx.responseBodySent + body.length }, none) := by
  rw [writeBodyData, if_neg (by simp [hne, hs]), if_pos hl, if_neg (Nat.not_lt.mpr hroom)]
  rfl

/-- A body that rides with its head, within the declared length. -/
theorem HeadReady.coalesced (h : HeadReady tx) (cfg : ServerConfig)
    (hco : coalesces cfg tx body false = true)
    (hfits : tx.respHasLength = true → body.length ≤ tx.respContentLength) :
    InFlight (writeBodyData (decideFramingAndWriteHead cfg tx body false).1
      body tx.responseSuppressBody
      (decideFramingAndWriteHead cfg tx body false).2).1
    ∧ (writeBodyData (decideFramingAndWriteHead cfg tx body false).1 body tx.responseSuppressBody
      (decideFramingAndWriteHead cfg tx body false).2).2 = none := by
  obtain ⟨framed, hdec, heq⟩ := writeHead_open cfg h.opened body false
  obtain ⟨past, hwire, hpast⟩ := h.enc.atRest (flag_absurd h.unwritten)
  obtain ⟨hsent, hfile, -⟩ := h.enc.ready.unwritten h.unwritten
  rw [heq, hco, if_pos rfl]
  obtain ⟨hs, hready⟩ := hdec.sending h (tx.wire ++ [.head framed.wireHead] ++ [.data body])
  -- a body that rides with the head is neither empty nor suppressed
  simp only [coalesces, Bool.and_eq_true, Bool.not_eq_true', decide_eq_true_eq] at hco
  obtain ⟨⟨⟨-, hsupp⟩, hpos⟩, -⟩ := hco
  have hne : body ≠ [] := length_pos_iff.mp hpos
  cases hdec with
  | nothing hs' => exact flag_absurd hsupp hs'
  | chunked _ _ hstream | untilClose _ _ hstream => cases hstream
  | sized n _ hdecl hsize =>
    have hle : body.length ≤ n := by
      cases hl : tx.respHasLength with
      | true => exact hdecl hl ▸ hfits hl
      | false => exact Nat.le_of_eq (hsize hl).symm
    have hroom : tx.responseBodySent + body.length ≤ n := by
      rw [hsent, Nat.zero_add]
      exact hle
    rw [writeBodyData_rides hne hsupp rfl hroom]
    refine ⟨⟨h.opened, { hready with unwritten := fun hw => nomatch hw },
      past, (Tx.wireHead { tx with
        respHasLength := true, respContentLength := n
        responseChunked := false }, body), ?_, hpast,
      { hs with counted := ?_ }⟩, rfl⟩
    · exact transcript_data (transcript_head hwire _) body
    · simp only [Counted, txRule, headOut, hsupp, hfile, if_true,
        Bool.false_eq_true, if_false, hsent, Nat.zero_add]
      exact ⟨trivial, hle⟩

/-- The descriptor's octets count against the declared length. -/
theorem InFlight.file (h : InFlight tx) {size : Nat} (hl : tx.respHasLength = true)
    (hsize : tx.respContentLength = size) (hnofile : tx.fileActive = false)
    (hsent : tx.responseBodySent = 0) (hnone : tx.responseSuppressBody = true → size = 0) :
    InFlight { tx with fileActive := true, fileQuota := size } := by
  obtain ⟨past, r, hwire, hpast, hs⟩ := h.wire
  have hcnt := hs.counted
  refine ⟨h.opened, { h.ready with
      unwritten := fun hw => flag_absurd hw hs.written
      file := fun _ => hs.running },
    past, r, hwire, hpast,
    { hs with counted := ?_, file := fun _ => ⟨hl, hnone⟩ }⟩
  by_cases hsup : tx.responseSuppressBody = true
  · simp only [Counted, txRule, hsup, if_true] at hcnt ⊢
    exact hcnt
  · simp only [Counted, txRule, hsup, hl, hnofile, if_true, if_false, Bool.false_eq_true] at hcnt ⊢
    rw [hcnt.1, hsent, Nat.zero_add]
    exact hsize.symm

/-! ## Ending a response -/

/-- A response whose head is out ends by closing, or, when it keeps the connection, by
    asking for the next request. -/
theorem finishResponse_written (hwritten : tx.headWritten = true)
    (hrun : tx.responseComplete = false) (keepAlive : Bool) :
    finishResponse cfg tx keepAlive = { tx with responseComplete := true, closing := true }
      ∨ (keepAlive = true ∧ finishResponse cfg tx keepAlive
        = { tx with
            responseComplete := true
            deadlineIsRequest := false, wantNext := true }) := by
  have hhead : (tx.responseStarted && !tx.headWritten) = false := by
    rw [hwritten]
    simp
  rw [finishResponse, if_neg (by simp [hrun])]
  simp only [hhead, Bool.false_eq_true, if_false]
  split
  · exact .inl rfl
  · rename_i hkeep
    refine .inr ⟨?_, rfl⟩
    simp only [Bool.or_eq_true, not_or] at hkeep
    simpa using hkeep.1.1.1.1.1

/-- An open connection whose last response has been sent in full. -/
structure Finished (tx : Tx) : Prop where
  opened : tx.closing = false
  ready : Ready tx
  file : tx.fileActive = false
  written : tx.headWritten = true
  running : tx.responseComplete = false
  wire : AtRest tx

theorem Finished.finish (h : Finished tx) (cfg : ServerConfig)
    (keepAlive : Bool) : TxInv (finishResponse cfg tx keepAlive) := by
  rcases finishResponse_written cfg h.written h.running keepAlive with heq | ⟨-, heq⟩
  · rw [heq]
    exact txInv_of_shut h.wire.closed ⟨rfl, rfl⟩
  · rw [heq]
    refine Encoder.inv (AtRest.encoder h.wire ?_ fun _ => rfl)
    exact ⟨fun hw => flag_absurd hw h.written, h.ready.started,
      flag_absurd h.file, fun _ => rfl, h.ready.undeclared, h.ready.draft,
      h.ready.suppress, fun _ _ => rfl, h.ready.unclosed⟩

/-- A response that does not keep the connection may end anywhere. -/
theorem InFlight.cut (h : InFlight tx) (cfg : ServerConfig) :
    TxInv (finishResponse cfg tx false) := by
  obtain ⟨past, r, hwire, hpast, hs⟩ := h.wire
  rcases finishResponse_written cfg hs.written hs.running false with heq | ⟨hkeep, -⟩
  · rw [heq]
    exact txInv_of_shut h.encoder.closed ⟨rfl, rfl⟩
  · cases hkeep

/-- A response in flight whose body is whole is finished. -/
theorem InFlight.finished (h : InFlight tx) (hfile : tx.fileActive = false)
    (hwhole : ∀ body, Counted tx body → Whole (txRule tx) body) : Finished tx := by
  obtain ⟨past, r, hwire, hpast, hs⟩ := h.wire
  refine ⟨h.opened, h.ready, hfile, hs.written, hs.running, _, hwire,
    delivered_snoc hpast ⟨hs.wellFormed, ?_⟩⟩
  rw [hs.ruled]
  exact hwhole r.2 hs.counted

/-- Neither short nor chunked: the response just ends. -/
theorem endBody_plain (hshort : (tx.respHasLength && !suppress
      && tx.responseBodySent != tx.respContentLength) = false)
    (hchunk : (tx.responseChunked && !suppress) = false) :
    endBody cfg tx suppress = finishResponse cfg tx tx.responseKeepAlive := by
  rw [endBody, closeShort]
  simp only [hshort, hchunk, Bool.false_eq_true, if_false]

theorem endBody_short
    (hshort : (tx.respHasLength && !suppress && tx.responseBodySent != tx.respContentLength) = true)
    (hchunk : tx.responseChunked = false) :
    endBody cfg tx suppress = finishResponse cfg { tx with responseKeepAlive := false } false := by
  rw [endBody, closeShort]
  simp only [hshort, if_true, hchunk, Bool.false_and, Bool.false_eq_true, if_false]

theorem endBody_chunked (hopen : tx.closing = false) (hshort : tx.respHasLength = false)
    (hchunk : (tx.responseChunked && !suppress) = true) : endBody cfg tx suppress
      = finishResponse cfg { tx with
          wire := tx.wire ++ [.data lastChunkText] } tx.responseKeepAlive := by
  rw [endBody, closeShort]
  simp only [hshort, hchunk, Bool.false_and, Bool.false_eq_true, if_false, if_true, emit_open hopen]

/-- `write_body_parts` ends a response: exactly, or by closing. -/
theorem InFlight.endBody (h : InFlight tx) (hfile : tx.fileActive = false) (cfg : ServerConfig) :
    TxInv (endBody cfg tx tx.responseSuppressBody) := by
  obtain ⟨past, r, hwire, hpast, hs⟩ := h.wire
  have hcnt := hs.counted
  rw [Counted] at hcnt
  by_cases hsup : tx.responseSuppressBody = true
  · have hrule : txRule tx = .nothing := if_pos hsup
    rw [endBody_plain cfg (by simp [hsup]) (by simp [hsup])]
    refine (h.finished hfile ?_).finish cfg _
    intro body hbody
    rw [Counted, hrule] at hbody
    rw [hrule]
    exact hbody
  by_cases hl : tx.respHasLength = true
  · have hrule : txRule tx = .sized tx.respContentLength := by
      rw [txRule, if_neg hsup, if_pos hl]
    have hnochunk : tx.responseChunked = false := by
      rw [← Bool.not_eq_true]
      intro hc
      exact nomatch hrule.symm.trans (hs.chunked hc)
    by_cases hshort : tx.responseBodySent = tx.respContentLength
    · rw [endBody_plain cfg (by simp [hshort]) (by simp [hnochunk])]
      refine (h.finished hfile ?_).finish cfg _
      intro body hbody
      simp only [Counted, hrule, hfile, Bool.false_eq_true, if_false] at hbody
      rw [hrule]
      exact hbody.1.trans hshort
    · -- a short body forces the connection closed
      rw [endBody_short cfg (by simp [hl, hsup, hshort]) hnochunk]
      have hrule' : txRule { tx with responseKeepAlive := false }
          = .sized tx.respContentLength := hrule
      have hshut : InFlight { tx with responseKeepAlive := false } := by
        refine ⟨h.opened, { h.ready with }, past, r, hwire, hpast, { hs with counted := ?_ }⟩
        rw [hrule] at hcnt
        rw [Counted, hrule']
        exact hcnt
      exact hshut.cut cfg
  by_cases hc : tx.responseChunked = true
  · have hrule := hs.chunked hc
    rw [endBody_chunked cfg h.opened (by simpa using hl) (by simp [hc, hsup])]
    have hlast : Finished { tx with
        wire := tx.wire ++ [.data lastChunkText] } := by
      refine ⟨h.opened, { h.ready with }, hfile, hs.written, hs.running, _,
        transcript_data hwire lastChunkText,
        delivered_snoc hpast ⟨hs.wellFormed, ?_⟩⟩
      rw [hrule] at hcnt
      obtain ⟨payload, hchunks⟩ := hcnt
      rw [hs.ruled, hrule]
      exact ⟨payload, chunkedBody_last hchunks⟩
    exact hlast.finish cfg _
  · have hrule : txRule tx = .untilClose := by
      rw [txRule, if_neg hsup, if_neg hl, if_neg hc]
    rw [hrule] at hcnt
    have hkeep : tx.responseKeepAlive = false := hcnt
    rw [endBody_plain cfg (by simp [hl]) (by simp [hc]), hkeep]
    exact h.cut cfg

/-! ## A whole body call -/

theorem writeBodyData_frame (tx : Tx) (body : Bytes) (suppress coalesced : Bool) :
    ∃ sent wire, (writeBodyData tx body suppress coalesced).1
      = { tx with responseBodySent := sent, wire := wire } := by
  have hemit : ∀ (sent : Nat) (w : Wire), ∃ sent' wire,
      Tx.emit { tx with responseBodySent := sent } w
        = { tx with responseBodySent := sent', wire := wire } := by
    intro sent w
    obtain ⟨wire, hw⟩ := emit_frame { tx with responseBodySent := sent } w
    exact ⟨sent, wire, hw⟩
  fun_cases writeBodyData tx body suppress coalesced with
  | case4 => exact hemit tx.responseBodySent _
  | case3 | case5 =>
    dsimp only
    split
    · exact ⟨_, _, rfl⟩
    · exact hemit _ _
  | _ => exact ⟨_, _, rfl⟩

/-- Writing the head keeps the counters, and a length that was declared. -/
theorem writeHead_frame {tx' : Tx} (hopen : tx.closing = false) (body : Bytes) (streaming : Bool)
    (htx' : tx' = (decideFramingAndWriteHead cfg tx body streaming).1) :
    tx'.responseSuppressBody = tx.responseSuppressBody ∧ tx'.fileActive = tx.fileActive
      ∧ tx'.responseBodySent = tx.responseBodySent
      ∧ (tx.respHasLength = true → tx'.respHasLength = true
        ∧ tx'.respContentLength = tx.respContentLength) := by
  obtain ⟨framed, hdec, heq⟩ := writeHead_open cfg hopen body streaming
  rw [htx', heq]
  cases hdec with
  | nothing hs => exact ⟨rfl, rfl, rfl, fun hl => ⟨hl, rfl⟩⟩
  | sized n hs hdecl _ =>
    exact ⟨rfl, rfl, rfl, fun hl => ⟨rfl, hdecl hl⟩⟩
  | chunked hs hl _ | untilClose hs hl _ => exact ⟨rfl, rfl, rfl, flag_absurd hl⟩

/-- The state a body call is made in. -/
structure BodyReady (cfg : ServerConfig) (tx : Tx) (body : Bytes) (more : Bool) : Prop where
  enc : Encoder tx
  opened : tx.closing = false
  started : tx.responseStarted = true
  running : tx.responseComplete = false
  http : tx.wsMode = false
  noFile : tx.fileActive = false
  line : tx.headWritten = false → tx.draft.statusLine = true
  fits : tx.headWritten = false → coalesces cfg tx body more = true →
    tx.respHasLength = true → body.length ≤ tx.respContentLength

variable {more : Bool} {cfg : ServerConfig}

section

variable (h : BodyReady cfg tx body more)
include h

theorem BodyReady.headReady (hunwr : tx.headWritten = false) : HeadReady tx :=
  ⟨h.enc, h.opened, hunwr, h.started, h.http, h.line hunwr⟩

/-- After head and data the response is in flight. -/
theorem BodyReady.written {start : Tx × Bool} (hstart : start = if tx.headWritten then (tx, false)
      else decideFramingAndWriteHead cfg tx body more) :
    InFlight (writeBodyData start.1 body tx.responseSuppressBody start.2).1
      ∧ start.1.responseSuppressBody = tx.responseSuppressBody
      ∧ start.1.fileActive = false := by
  by_cases hw : tx.headWritten = true
  · rw [if_pos hw] at hstart
    subst hstart
    exact ⟨writeBodyData_inFlight (h.enc.inFlight h.opened hw h.running)
      h.noFile body, rfl, h.noFile⟩
  · rw [if_neg hw] at hstart
    have hunwr : tx.headWritten = false := by simpa using hw
    obtain ⟨hsup, hfile, -⟩ := writeHead_frame cfg h.opened body more rfl
    rw [h.noFile] at hfile
    subst hstart
    refine ⟨?_, hsup, hfile⟩
    cases hco : coalesces cfg tx body more with
    | false =>
      obtain ⟨hflight, hflag⟩ := (h.headReady hunwr).inFlight cfg _ _ hco
      rw [hflag, ← hsup]
      exact writeBodyData_inFlight hflight hfile body
    | true =>
      have hmore : more = false := by
        simp only [coalesces, Bool.and_eq_true, Bool.not_eq_true'] at hco
        exact hco.1.1.1
      subst hmore
      exact ((h.headReady hunwr).coalesced cfg hco (h.fits hunwr hco)).1

/-- **ONE BODY CALL** keeps the invariant. -/
theorem BodyReady.inv : TxInv (writeBodyParts cfg tx body more).1 := by
  rw [writeBodyParts]
  simp only
  generalize hstart : (if tx.headWritten then (tx, false)
    else decideFramingAndWriteHead cfg tx body more) = start
  obtain ⟨hflight, hsup, hfile⟩ := h.written hstart.symm
  obtain ⟨sent, wire, hframe⟩ := writeBodyData_frame start.1 body tx.responseSuppressBody start.2
  split
  · rename_i heq
    rw [heq] at hflight
    exact hflight.encoder.inv
  · rename_i tx' heq
    rw [heq] at hflight hframe
    split
    · exact hflight.encoder.inv
    · have hsame : tx'.responseSuppressBody = tx.responseSuppressBody
          ∧ tx'.fileActive = false := by
        rw [show tx' = _ from hframe]
        exact ⟨hsup, hfile⟩
      rw [← hsame.1]
      exact hflight.endBody hsame.2 cfg

end

end Http1Encoder
