import Mathlib.Data.List.Chain
import Wreath.Http1ConnProofs

/-! # Request boundaries — where each head begins

The boundaries of a connection are in step when every head begins exactly where the framing
of the request before it ends (`InStep`), read off the client's stream alone. The server is
in step along every run in which no task returns, with a response that keeps the connection,
while its request's body is still arriving (`BodyTaken`); otherwise the rest of the body is
read as a head (`early_response_desyncs`). -/

namespace Http1Boundary

open ByteScan HttpHead ChunkedCoding Http1Input Http1Response Http1Conn List Option
open StepSystem

/-! ## Framing, read off the stream -/

variable (maxHeaders : Nat)

/-- A text that is exactly one request head. -/
structure HeadText (text : Bytes) (head : RequestHead) : Prop where
  size : 4 ≤ text.length
  blank : findSub blankLine text = some (text.length - 4)
  parsed : httpParseRequestParts text (some (text.length - 4)) maxHeaders = .ok (some head)

/-- The octets RFC 9112 framing gives to a body. -/
def BodyText (info : RequestMeta) (wire : Bytes) : Prop :=
  match info.kind with
  | .none => wire = []
  | .fixed => wire.length = info.length
  | .chunked => ∃ payload, ChunkedBody wire payload

/-- The octets of one whole request. -/
def RequestSpan (head : RequestHead) (span : Bytes) : Prop :=
  ∃ text wire, span = text ++ wire ∧ HeadText maxHeaders text head ∧ BodyText head.info wire

/-- Where a request starts, and its head. -/
abbrev Mark := Nat × RequestHead

/-- The second request starts where the first one ends. -/
def Follows (stream : Bytes) (m m' : Mark) : Prop :=
  m'.1 ≤ stream.length ∧ RequestSpan maxHeaders m.2 ((stream.take m'.1).drop m.1)

/-- **IN STEP**: the first head begins the stream, and every later one begins where the
    framing of its predecessor ends. -/
def InStep (stream : Bytes) (marks : List Mark) : Prop :=
  (∀ m, marks.head? = some m → m.1 = 0) ∧ marks.IsChain (Follows maxHeaders stream)

/-! ## How the marks grow -/

variable {maxHeaders : Nat} {stream : Bytes}

theorem Follows.extend {m m' : Mark} (h : Follows maxHeaders stream m m') (more : Bytes) :
    Follows maxHeaders (stream ++ more) m m' := by
  obtain ⟨hle, hspan⟩ := h
  constructor
  · rw [length_append]
    exact le_trans hle (Nat.le_add_right _ _)
  · rw [take_append_of_le_length hle]
    exact hspan

/-- More octets leave the marks in step. -/
theorem InStep.extend {marks : List Mark} (h : InStep maxHeaders stream marks)
    (more : Bytes) : InStep maxHeaders (stream ++ more) marks :=
  ⟨h.1, h.2.imp (fun _ _ hf => hf.extend more)⟩

/-- A head that starts at the end of a complete request is in step. -/
theorem InStep.snoc {marks : List Mark} (h : InStep maxHeaders stream marks) (head : RequestHead)
    (hlast : ∀ m, marks.getLast? = some m → RequestSpan maxHeaders m.2 (stream.drop m.1))
    (hfirst : marks = [] → stream = []) :
    InStep maxHeaders stream (marks ++ [(stream.length, head)]) := by
  constructor
  · intro m hm
    cases marks with
    | nil =>
      cases hm
      rw [hfirst rfl]
      rfl
    | cons m₀ rest => exact h.1 m hm
  · refine isChain_append.mpr ⟨h.2, isChain_singleton _, ?_⟩
    intro m hm m' hm'
    cases hm'
    refine ⟨le_rfl, ?_⟩
    rw [take_length]
    exact hlast m hm

/-! ## Chunk lines and trailers the drivers accept -/

/-- A hexadecimal scan that succeeds read digits only and computed their value. -/
theorem hexUpTo_some {limit : Nat} (text : Bytes) (value n : Nat)
    (h : hexUpTo limit text value = some n) : (∀ b ∈ text, httpHexDigit b = true)
      ∧ text.foldl (fun v b => v * 16 + hexValue b) value = n := by
  fun_induction hexUpTo limit text value with
  | case1 => exact ⟨nofun, Option.some.inj h⟩
  | case2 b text value hb ih =>
    obtain ⟨hall, hfold⟩ := ih h
    exact ⟨forall_mem_cons.mpr ⟨hb.1, hall⟩, hfold⟩
  | case3 => cases h

theorem isValueStop_cr : isValueStop cr = true := by decide

/-- A delimiter is no carriage return. -/
theorem cr_not_mem_cons {c d : UInt8} {rest : Bytes} (hc : (c == d) = true) (hd : cr ≠ d)
    (h : cr ∉ rest) : cr ∉ c :: rest :=
  not_mem_cons_of_ne_of_not_mem (beq_iff_eq.mp hc ▸ hd) h

/-- What a quoted string skips holds no carriage return. -/
theorem quotedTail_cr (text : Bytes) {tail : Bytes} (h : quotedTail text = some tail)
    (htail : cr ∉ tail) : cr ∉ text := by
  fun_induction quotedTail text with
  | case2 c rest hquote =>
    cases h
    exact cr_not_mem_cons hquote (by decide) htail
  | case5 c _ hback d rest hd ih =>
    have hdcr : cr ≠ d := fun e => hd (e ▸ isValueStop_cr)
    refine cr_not_mem_cons hback (by decide) ?_
    exact not_mem_cons_of_ne_of_not_mem hdcr (ih h)
  | case7 c rest _ _ hstop ih =>
    have hccr : cr ≠ c := fun e => hstop (e ▸ isValueStop_cr)
    exact not_mem_cons_of_ne_of_not_mem hccr (ih h)
  | _ => cases h

variable {text : Bytes}

/-- Octets a class of non-CR octets skips leave CR-freeness to the rest. -/
theorem cr_not_mem_of_dropWhile {p : UInt8 → Bool}
    (hp : p cr = false) (h : cr ∉ text.dropWhile p) : cr ∉ text := by
  rw [← List.takeWhile_append_dropWhile (p := p) (l := text), List.mem_append, not_or]
  exact ⟨not_mem_takeWhile hp, h⟩

theorem extensionValueTail_cr {tail : Bytes}
    (h : extensionValueTail text = some tail) (htail : cr ∉ tail) : cr ∉ text := by
  unfold extensionValueTail at h
  split at h
  · rename_i hquote
    cases text with
    | nil => cases hquote
    | cons c rest =>
      exact cr_not_mem_cons (by simpa using hquote) (by decide) (quotedTail_cr rest h htail)
  split at h
  · cases h
  · cases h
    exact cr_not_mem_of_dropWhile (by decide) htail

/-- Valid chunk extensions hold no carriage return. -/
theorem chunkExtensionsLoop_cr (fuel : Nat) (text : Bytes)
    (h : chunkExtensionsLoop fuel text = true) : cr ∉ text := by
  -- name and whitespace first, then what the loop goes on with
  have hrest : ∀ {c : UInt8} {rest : Bytes}, ¬ (c != ch ';') = true →
      cr ∉ ((rest.dropWhile isOws).dropWhile asciiToken).dropWhile isOws → cr ∉ c :: rest := by
    intro c rest hsemi hafter
    refine cr_not_mem_cons (by simpa using hsemi) (by decide) ?_
    exact cr_not_mem_of_dropWhile (by decide)
      (cr_not_mem_of_dropWhile (by decide) (cr_not_mem_of_dropWhile (by decide) hafter))
  fun_induction chunkExtensionsLoop fuel text with
  | case1 => exact not_mem_nil
  | case2 | case3 | case4 | case5 => cases h
  | case6 fuel c rest name after hsemi _ heq tail hvalue ih =>
    have htail := cr_not_mem_of_dropWhile (by decide) (ih h)
    have hvaluecr := cr_not_mem_of_dropWhile (by decide) (extensionValueTail_cr hvalue htail)
    refine hrest hsemi ?_
    show cr ∉ after
    generalize after = after at heq hvaluecr
    cases after with
    | nil => exact not_mem_nil
    | cons e after => exact cr_not_mem_cons (by simpa using heq) (by decide) hvaluecr
  | case7 fuel c rest name after hsemi _ _ ih => exact hrest hsemi (ih h)

/-- A trimmed text loses only octets of the trimmed class. -/
theorem cr_not_mem_of_trim {p : UInt8 → Bool}
    (hp : p cr = false) (h : cr ∉ trim p text) : cr ∉ text := by
  refine cr_not_mem_of_dropWhile hp ?_
  rw [← mem_reverse]
  refine cr_not_mem_of_dropWhile hp ?_
  rw [← mem_reverse]
  exact h

variable {line : Bytes}

/-- An accepted chunk line announces its size. -/
theorem chunkLineSize_some {n : Nat} (h : chunkLineSize line = some n) : SizeLine line n := by
  unfold chunkLineSize at h
  simp only at h
  split at h
  · cases h
  rename_i size hhex
  split at h
  · rename_i hext
    cases h
    unfold parseHex at hhex
    split at hhex
    · cases hhex
    rename_i hne
    obtain ⟨hdigits, hvalue⟩ := hexUpTo_some _ _ _ hhex
    refine ⟨?_, hne, hdigits, hvalue⟩
    rw [← takeWhile_append_dropWhile (p := (· != ch ';')) (l := line), mem_append, not_or]
    refine ⟨cr_not_mem_of_trim (p := isOws) (by decide) ?_, chunkExtensionsLoop_cr _ _ hext⟩
    intro hmem
    have := hdigits cr hmem
    exact absurd this (by decide)
  · cases h

/-- An accepted trailer line is a non-empty line. -/
theorem trailerLineValid_line (h : trailerLineValid line = true) : line ≠ [] ∧ cr ∉ line := by
  unfold trailerLineValid at h
  simp only [Bool.and_eq_true] at h
  obtain ⟨⟨⟨hcolon, hname⟩, hvalue⟩, -⟩ := h
  constructor
  · rintro rfl
    cases hcolon
  · rw [← takeWhile_append_dropWhile (p := (· != ch ':')) (l := line), mem_append, not_or]
    constructor
    · intro hmem
      have htoken := all_eq_true.mp (Bool.and_eq_true_iff.mp hname).2 cr hmem
      exact absurd htoken (by decide)
    · have hval : cr ∉ (line.dropWhile (· != ch ':')).tail := by
        refine cr_not_mem_of_dropWhile (p := isOws) (by decide) ?_
        intro hmem
        have := all_eq_true.mp hvalue cr hmem
        exact absurd this (by decide)
      cases hd : line.dropWhile (· != ch ':') with
      | nil => exact not_mem_nil
      | cons c rest =>
        rw [hd] at hval
        have hcolon := head?_dropWhile_not (· != ch ':') line
        rw [hd] at hcolon
        exact cr_not_mem_cons (by simpa using hcolon) (by decide) hval

/-- A text has at least one piece. -/
theorem splitCrlf_ne_nil : ∀ text : Bytes, splitCrlf text ≠ []
  | [] => by simp [splitCrlf]
  | [_] => by simp [splitCrlf]
  | a :: b :: rest => by
      rw [splitCrlf]
      split
      · exact cons_ne_nil _ _
      · split <;> exact cons_ne_nil _ _

/-- The pieces of a text, CRLF between them, are the text. -/
theorem splitCrlf_cons {lines : List Bytes} (h : splitCrlf text = line :: lines) :
    (lines = [] ∧ text = line)
      ∨ ∃ rest, text = line ++ cr :: lf :: rest ∧ splitCrlf rest = lines := by
  fun_induction splitCrlf text generalizing line with
  | case1 | case2 =>
    obtain ⟨rfl, rfl⟩ := List.cons.inj h
    exact .inl ⟨rfl, rfl⟩
  | case3 a b rest hab ih =>
    obtain ⟨rfl, rfl⟩ := List.cons.inj h
    obtain ⟨rfl, rfl⟩ := hab
    exact .inr ⟨rest, rfl, rfl⟩
  | case4 a b rest hab hnil ih =>
    exact absurd hnil (splitCrlf_ne_nil _)
  | case5 a b rest hab first more hcut ih =>
    obtain ⟨rfl, rfl⟩ := List.cons.inj h
    rcases ih hcut with ⟨hnil, htext⟩ | ⟨tail, htext, htail⟩
    · exact .inl ⟨hnil, by rw [htext]⟩
    · exact .inr ⟨tail, by rw [cons_append, ← htext], htail⟩

/-- **TRAILERS**: an accepted block and the CRLF after it are a trailer section. -/
theorem trailerLinesValid_section (maxCount : Nat) :
    ∀ (lines : List Bytes) (block : Bytes) (count : Nat), splitCrlf block = lines →
      trailerLinesValid maxCount lines count = true →
      TrailerSection (block ++ crlf) := by
  intro lines
  induction lines with
  | nil =>
    intro block count hsplit _
    exact absurd hsplit (splitCrlf_ne_nil _)
  | cons line lines ih =>
    intro block count hsplit h
    rcases splitCrlf_cons hsplit with ⟨rfl, rfl⟩ | ⟨rest, rfl, hrest⟩
    · have hempty : block = [] := by
        simpa [trailerLinesValid] using h
      rw [hempty]
      exact .done
    · rw [trailerLinesValid, Bool.and_eq_true, Bool.and_eq_true] at h
      · obtain ⟨⟨-, hline⟩, hlines⟩ := h
        obtain ⟨hne, hcr⟩ := trailerLineValid_line hline
        have hsection := ih rest (count + 1) hrest hlines
        rw [append_assoc]
        exact .field hne hcr hsection
      · exact fun hnil => splitCrlf_ne_nil rest (hrest.trans hnil)

/-! ## Accepted heads -/

variable {off : Nat}

/-- The parser looks at nothing behind the head. -/
theorem httpParseRequestParts_take {data : Bytes} (h : off + 4 ≤ data.length) :
    httpParseRequestParts (data.take (off + 4)) (some off) maxHeaders
      = httpParseRequestParts data (some off) maxHeaders := by
  have htake : (data.take (off + 4)).take (off + 2) = data.take (off + 2) := by
    rw [take_take]
    congr 1
    omega
  have hlen : (data.take (off + 4)).length = off + 4 := by
    rw [length_take]
    omega
  unfold httpParseRequestParts
  simp only [htake, hlen]
  rw [if_neg (lt_irrefl _), if_neg (not_lt.mpr h)]

theorem httpParseRequestParts_consumed {data : Bytes} {head : RequestHead}
    (h : httpParseRequestParts data (some off) maxHeaders = .ok (some head)) :
    head.consumed = off + 4 ∧ off + 4 ≤ data.length := by
  unfold httpParseRequestParts at h
  simp only at h
  split at h
  · cases h
  rename_i hlen
  split at h
  · cases h
  split at h
  · cases h
  simp only [Except.ok.injEq, Option.some.injEq] at h
  subst h
  exact ⟨rfl, not_lt.mp hlen⟩

/-- What the head driver accepts is one request head. -/
theorem headText_of_parsed {p : Bytes} {head : RequestHead} (hfind : findSub blankLine p = some off)
    (hparse : httpParseRequestParts p (some off) maxHeaders = .ok (some head)) :
    HeadText maxHeaders (p.take head.consumed) head ∧ head.consumed ≤ p.length := by
  obtain ⟨hconsumed, hle⟩ := httpParseRequestParts_consumed hparse
  have hlen : (p.take (off + 4)).length = off + 4 := by
    rw [length_take]
    omega
  rw [hconsumed]
  refine ⟨⟨?_, ?_, ?_⟩, hle⟩
  · omega
  · rw [hlen, Nat.add_sub_cancel]
    obtain ⟨hpre, hbef⟩ := findSub_some hfind
    have hsplit : p = p.take (off + 4) ++ p.drop (off + 4) := (take_append_drop _ _).symm
    have hblank : blankLine.length = 4 := rfl
    refine findSub_eq_some_iff.mpr ⟨?_, ?_⟩
    · rw [hsplit] at hpre
      exact (prefix_drop_append (by omega)).mp hpre
    · intro i hi hocc
      refine hbef i hi ?_
      rw [hsplit]
      exact (prefix_drop_append (by omega)).mpr hocc
  · rw [hlen, Nat.add_sub_cancel, httpParseRequestParts_take hle]
    exact hparse

/-! ## The invariant -/

section Invariant

variable {β : Type} [ReadBuffer β]

/-- How far the current request has been read: its octets so far, by parser state. -/
def Progress (maxHeaders : Nat) (rx : Rx β) (head : RequestHead) (span : Bytes) : Prop :=
  match rx.state with
  | .readingHead => RequestSpan maxHeaders head span
  | .requestRunning => RequestSpan maxHeaders head span
  | .readingFixedBody =>
    ∃ text wire, span = text ++ wire ∧ HeadText maxHeaders text head ∧ head.info.kind = .fixed
      ∧ wire.length + rx.remaining = head.info.length
  | .readingChunkSize =>
    ∃ text wire payload, span = text ++ wire
      ∧ HeadText maxHeaders text head ∧ head.info.kind = .chunked
      ∧ Chunks wire payload
  | .readingChunkData =>
    ∃ text wire payload line data, span = text ++ (wire ++ (line ++ crlf ++ data))
      ∧ HeadText maxHeaders text head ∧ head.info.kind = .chunked
      ∧ Chunks wire payload
      ∧ SizeLine line (data.length + rx.chunkRemaining)
      ∧ 0 < data.length + rx.chunkRemaining
  | .readingChunkTrailers =>
    ∃ text wire payload line, span = text ++ (wire ++ (line ++ crlf))
      ∧ HeadText maxHeaders text head ∧ head.info.kind = .chunked
      ∧ Chunks wire payload ∧ SizeLine line 0
  | .websocket => True

/-- The boundaries so far are in step, and the octets after the last one are what the parser
    state says. -/
structure BoundaryInv (maxHeaders : Nat) (c : Conn β) : Prop where
  sound : ReadBuffer.Sound c.rx.input
  scans : c.rx.Scans
  past : InStep maxHeaders c.rx.consumed c.rx.marks
  bound : ∀ m, c.rx.marks.getLast? = some m → m.1 ≤ c.rx.consumed.length
  current : c.tx.closing = false → ∀ m, c.rx.marks.getLast? = some m →
    Progress maxHeaders c.rx m.2 (c.rx.consumed.drop m.1)
  first : c.rx.marks = [] → c.rx.consumed = [] ∧ c.rx.state = .readingHead

theorem boundaryInv_fresh (maxHeaders : Nat) {input : β} (hsound : ReadBuffer.Sound input) :
    BoundaryInv maxHeaders (Conn.fresh input) where
  sound := hsound
  scans := .reset rfl
  past := ⟨nofun, isChain_nil⟩
  bound := nofun
  current := nofun
  first := fun _ => ⟨rfl, rfl⟩

variable {c : Conn β} {c' : Conn β}

/-- What the invariant reads, but for the octets that wait. -/
def place (rx : Rx β) := (rx.marks, rx.consumed, rx.state, rx.remaining, rx.chunkRemaining)

section

variable (inv : BoundaryInv maxHeaders c) (hsound : ReadBuffer.Sound c'.rx.input) (hscans : c'.rx.Scans)
include inv hsound hscans

/-- A step that ate `more` octets of the current request's body keeps the invariant when it
    keeps the progress. -/
theorem BoundaryInv.advance {more : Bytes} {s : ParserState} (hst : c.rx.state = s)
    (hbody : decide (s = .readingHead) = false)
    (hmarks : c'.rx.marks = c.rx.marks) (hconsumed : c'.rx.consumed = c.rx.consumed ++ more)
    (hprog : c'.tx.closing = false → ∀ m, c.rx.marks.getLast? = some m →
      Progress maxHeaders c'.rx m.2 (c.rx.consumed.drop m.1 ++ more)) :
    BoundaryInv maxHeaders c' where
  sound := hsound
  scans := hscans
  past := by
    rw [hmarks, hconsumed]
    exact inv.past.extend more
  bound := by
    intro m hm
    rw [hmarks] at hm
    rw [hconsumed, length_append]
    exact le_trans (inv.bound m hm) (Nat.le_add_right _ _)
  current := by
    intro hopen m hm
    rw [hmarks] at hm
    rw [hconsumed, drop_append_of_le_length (inv.bound m hm)]
    exact hprog hopen m hm
  first := by
    intro hnone
    rw [hmarks] at hnone
    exact absurd (hst.symm.trans (inv.first hnone).2) (of_decide_eq_false hbody)

/-- A step that only waits, answers or closes keeps the invariant. -/
theorem BoundaryInv.idle (hplace : place c'.rx = place c.rx)
    (hclose : c'.tx.closing = false → c.tx.closing = false) : BoundaryInv maxHeaders c' := by
  simp only [place, Prod.mk.injEq] at hplace
  obtain ⟨hmarks, hconsumed, hst, hrem, hchunk⟩ := hplace
  refine ⟨hsound, hscans, ?_, ?_, ?_, ?_⟩
  · rw [hmarks, hconsumed]
    exact inv.past
  · rw [hmarks, hconsumed]
    exact inv.bound
  · intro hopen m hm
    rw [hmarks] at hm
    have := inv.current (hclose hopen) m hm
    unfold Progress at this ⊢
    rw [hst, hrem, hchunk, hconsumed]
    exact this
  · rw [hmarks, hconsumed, hst]
    exact inv.first

end

/-- The parts of the request half that only reading changes. -/
structure SameInput (rx rx' : Rx β) : Prop where
  input : rx'.input = rx.input
  scans : rx.Scans → rx'.Scans
  marks : rx'.marks = rx.marks
  consumed : rx'.consumed = rx.consumed

theorem sameInput {rx rx' : Rx β} (h : (rx'.input, rx'.requests, rx'.consumed, rx'.scans)
      = (rx.input, rx.requests, rx.consumed, rx.scans)) : SameInput rx rx' := by
  simp only [Prod.mk.injEq] at h
  obtain ⟨hinput, hrequests, hconsumed, hscans⟩ := h
  refine ⟨hinput, fun h => h.congr ?_, ?_, hconsumed⟩
  · rw [hinput, hscans]
  · rw [Rx.marks, hrequests, Rx.marks]

/-! ### One lemma per driver -/

/-- A refusal closes, and reads nothing more. -/
theorem BoundaryInv.refuseBody (inv : BoundaryInv maxHeaders c) (cfg : ServerConfig)
    (status : Nat) : BoundaryInv maxHeaders (c.refuseBody cfg status) :=
  inv.idle inv.sound (inv.scans.congr rfl) rfl (fun h => absurd h (by simp))

theorem BoundaryInv.refuse (inv : BoundaryInv maxHeaders c) (cfg : ServerConfig) (status : Nat)
    (asked : Asked) : BoundaryInv maxHeaders (c.refuse cfg status asked) :=
  inv.idle inv.sound (inv.scans.congr rfl) rfl (fun h => absurd h (by simp))

theorem sound_doConsume {rx : Rx β} (h : ReadBuffer.Sound rx.input)
    {n : Nat} (hn : n ≤ rx.unread.length) : ReadBuffer.Sound (rx.doConsume n).input :=
  ReadBuffer.sound_consume _ _ h hn

section

variable (inv : BoundaryInv maxHeaders c) (hopen : c.tx.closing = false)
include inv hopen

theorem driveFixedBody_inv (hst : c.rx.state = .readingFixedBody) :
    BoundaryInv maxHeaders (driveFixedBody c).1 := by
  have hprog := inv.current hopen
  unfold Progress at hprog
  simp only [hst] at hprog
  unfold driveFixedBody
  simp only
  split
  · exact inv
  have hle := min_le_right c.rx.remaining c.rx.unread.length
  generalize htake : min c.rx.remaining c.rx.unread.length = take at hle
  -- what was taken is the next part of the body
  have htaken : (c.rx.unread.take take).length = take := by
    rw [length_take]
    omega
  have hnext : ∀ m, c.rx.marks.getLast? = some m → ∃ text wire,
      c.rx.consumed.drop m.1 ++ c.rx.unread.take take = text ++ wire
        ∧ HeadText maxHeaders text m.2 ∧ m.2.info.kind = .fixed
        ∧ wire.length + (c.rx.remaining - take) = m.2.info.length := by
    intro m hm
    obtain ⟨text, wire, hspan, htext, hkind, hlen⟩ := hprog m hm
    refine ⟨text, wire ++ c.rx.unread.take take, by rw [hspan, append_assoc], htext, hkind, ?_⟩
    rw [length_append, htaken]
    omega
  split
  · refine inv.advance (sound_doConsume inv.sound hle) (.reset rfl) hst rfl
      (Rx.enqueueBody_marks _ _ _) rfl ?_
    intro _ m hm
    unfold Progress
    simp only [Rx.enqueueBody, Rx.doConsume, hst]
    exact hnext m hm
  · rename_i hdone
    refine inv.advance (sound_doConsume inv.sound hle) (.reset rfl) hst rfl
      (Rx.enqueueBody_marks _ _ _) rfl ?_
    intro _ m hm
    obtain ⟨text, wire, hspan, htext, hkind, hlen⟩ := hnext m hm
    refine ⟨text, wire, hspan, htext, ?_⟩
    unfold BodyText
    rw [hkind]
    simp only [Rx.doConsume] at hdone
    omega

variable (cfg : ServerConfig)

theorem driveChunkSize_inv (hst : c.rx.state = .readingChunkSize) :
    BoundaryInv maxHeaders (driveChunkSize cfg c).1 := by
  have hprog := inv.current hopen
  unfold Progress at hprog
  simp only [hst] at hprog
  have hfst := findSubFrom_fst crlf_ne inv.scans.chunk.scanned
  have hset := findSubFrom_settled crlf_ne inv.scans.chunk
  have hwait : BoundaryInv maxHeaders { c with rx := { c.rx with
      chunkLineScan := (findSubFrom c.rx.unread crlf c.rx.chunkLineScan).2 } } :=
    inv.idle inv.sound { inv.scans with chunk := hset } rfl id
  -- a line that is found is consumed with its CRLF
  have hfound : ∀ {lineEnd}, (findSubFrom c.rx.unread crlf c.rx.chunkLineScan).1 = some lineEnd →
      ReadBuffer.Sound (c.rx.doConsume (lineEnd + 2)).input
        ∧ c.rx.unread.take (lineEnd + 2) = c.rx.unread.take lineEnd ++ crlf := by
    intro lineEnd hline
    rw [hfst] at hline
    exact ⟨sound_doConsume inv.sound (findSub_le hline crlf_ne), findSub_take hline⟩
  fun_cases driveChunkSize cfg c with
  | case1 | case3 => exact hwait.refuseBody cfg 400
  | case2 => exact hwait
  | case4 _ _ _ lineEnd hline size hsize =>
    refine inv.advance (hfound hline).1 (.reset rfl) hst rfl rfl rfl ?_
    intro _ m hm
    obtain ⟨text, wire, payload, hspan, htext, hkind, hchunks⟩ := hprog m hm
    refine ⟨text, wire, payload, _, ?_, htext, hkind, hchunks, chunkLineSize_some hsize⟩
    rw [hspan, append_assoc]
    exact congrArg (fun t => text ++ (wire ++ t)) (hfound hline).2
  | case5 _ _ _ lineEnd hline | case6 _ _ _ lineEnd hline =>
    exact inv.advance (hfound hline).1 (.reset rfl) hst rfl rfl rfl (fun h => absurd h (by simp))
  | case7 _ _ _ lineEnd hline size hsize _ hsome =>
    refine inv.advance (hfound hline).1 (.reset rfl) hst rfl rfl rfl ?_
    intro _ m hm
    obtain ⟨text, wire, payload, hspan, htext, hkind, hchunks⟩ := hprog m hm
    refine ⟨text, wire, payload, c.rx.unread.take lineEnd, [], ?_, htext, hkind, hchunks, ?_, ?_⟩
    · rw [hspan, append_assoc, append_nil]
      exact congrArg (fun t => text ++ (wire ++ t)) (hfound hline).2
    · rw [length_nil, zero_add]
      exact chunkLineSize_some hsize
    · exact Nat.add_pos_right _ (Nat.pos_of_ne_zero hsome)

theorem driveChunkTrailers_inv (hst : c.rx.state = .readingChunkTrailers) :
    BoundaryInv maxHeaders (driveChunkTrailers cfg c).1 := by
  have hprog := inv.current hopen
  unfold Progress at hprog
  simp only [hst] at hprog
  -- either way what is consumed is a trailer section
  have hfin : ∀ n ≤ c.rx.unread.length, TrailerSection (c.rx.unread.take n) → ∀ scan,
      BoundaryInv maxHeaders { c with
        rx := finishTrailers { c.rx with trailerTerminatorScan := scan } n } := by
    intro n hn htrail scan
    refine inv.advance (sound_doConsume inv.sound hn) (.reset rfl) hst rfl
      (Rx.enqueueBody_marks _ _ _) rfl ?_
    intro _ m hm
    obtain ⟨text, wire, payload, line, hspan, htext, hkind, hchunks, hline⟩ := hprog m hm
    refine ⟨text, wire ++ (line ++ crlf ++ c.rx.unread.take n), ?_, htext, ?_⟩
    · simp only [hspan, append_assoc]
      rfl
    · unfold BodyText
      rw [hkind]
      exact ⟨payload, hchunks.close hline htrail⟩
  have hfst := findSubFrom_fst blankLine_ne inv.scans.trailer.scanned
  have hset := findSubFrom_settled blankLine_ne inv.scans.trailer
  have hwait : BoundaryInv maxHeaders { c with rx := { c.rx with trailerTerminatorScan :=
      (findSubFrom c.rx.unread blankLine c.rx.trailerTerminatorScan).2 } } :=
    inv.idle inv.sound { inv.scans with trailer := hset } rfl id
  fun_cases driveChunkTrailers cfg c with
  | case1 _ hcrlf =>
    refine hfin 2 ?_ (hcrlf ▸ .done) c.rx.trailerTerminatorScan
    have := congrArg List.length hcrlf
    simp [crlf] at this
    omega
  | case2 => exact hwait.refuseBody cfg 431
  | case3 => exact hwait
  | case4 _ _ _ _ blockEnd hfound hvalid =>
    have hfound := hfst.symm.trans hfound
    have hblock : c.rx.unread.take (blockEnd + 2) = c.rx.unread.take blockEnd ++ crlf := by
      obtain ⟨⟨rest, hrest⟩, -⟩ := findSub_some hfound
      rw [take_add, ← hrest]
      rfl
    have hsection := trailerLinesValid_section _ _ _ _ rfl hvalid
    refine hfin _ (findSub_le hfound blankLine_ne) ?_ _
    rw [findSub_take hfound]
    rw [hblock, append_assoc] at hsection
    exact hsection
  | case5 => exact hwait.refuseBody cfg 400

/-- The CRLF behind a chunk's data ends the chunk. -/
theorem chunkEnd_inv (hst : c.rx.state = .readingChunkData) (hrem : c.rx.chunkRemaining = 0) :
    BoundaryInv maxHeaders (if c.rx.unread.length < 2 then (c, false)
        else if c.rx.unread.take 2 ≠ crlf then (c.refuseBody cfg 400, false)
        else
          ({ c with rx := { c.rx.doConsume 2 with state := .readingChunkSize } }, true)).1 := by
  split
  · exact inv
  split
  · exact inv.refuseBody cfg 400
  rename_i hcrlf
  have hcrlf : c.rx.unread.take 2 = crlf := Decidable.not_not.mp hcrlf
  refine inv.advance (sound_doConsume inv.sound (by omega)) (.reset rfl) hst rfl rfl rfl ?_
  intro _ m hm
  have hprog := inv.current hopen m hm
  unfold Progress at hprog
  simp only [hst, hrem, add_zero] at hprog
  obtain ⟨text, wire, payload, line, data, hspan, htext, hkind, hchunks, hline, hdata⟩ := hprog
  refine ⟨text, wire ++ (line ++ crlf ++ data ++ crlf), payload ++ data, ?_,
    htext, hkind, hchunks.snoc hline (length_pos_iff.mp hdata)⟩
  rw [hspan, hcrlf]
  simp only [append_assoc]

theorem driveChunkData_inv (hst : c.rx.state = .readingChunkData) :
    BoundaryInv maxHeaders (driveChunkData cfg c).1 := by
  unfold driveChunkData
  simp only
  split
  · exact inv
  have hle := min_le_right c.rx.chunkRemaining c.rx.unread.length
  have hle' := min_le_left c.rx.chunkRemaining c.rx.unread.length
  generalize min c.rx.chunkRemaining c.rx.unread.length = take at hle hle' ⊢
  generalize hrx : c.rx.takeChunk take = rx
  have hframe : rx.marks = c.rx.marks ∧ rx.input = (c.rx.doConsume take).input
      ∧ rx.consumed = c.rx.consumed ++ c.rx.unread.take take
      ∧ rx.state = .readingChunkData
      ∧ rx.chunkRemaining = c.rx.chunkRemaining - take
      ∧ rx.Scans := by
    rw [← hrx, ← hst]
    unfold Rx.takeChunk
    split
    · exact ⟨rfl, rfl, rfl, rfl, rfl, .reset rfl⟩
    · exact ⟨Rx.enqueueBody_marks _ _ _, rfl, rfl, rfl, rfl, .reset rfl⟩
  obtain ⟨hmarks, hinput, hconsumed, hdata, hleft, hscans⟩ := hframe
  -- the data taken is the next part of the chunk
  have htaken : BoundaryInv maxHeaders { c with rx := rx } := by
    refine inv.advance ?_ hscans hst rfl hmarks hconsumed ?_
    · rw [hinput]
      exact sound_doConsume inv.sound hle
    intro _ m hm
    have hprog := inv.current hopen m hm
    unfold Progress at hprog ⊢
    simp only [hst] at hprog
    simp only [hdata]
    obtain ⟨text, wire, payload, line, data, hspan, htext, hkind, hchunks, hline, hpos⟩ := hprog
    have hsize : (data ++ c.rx.unread.take take).length + rx.chunkRemaining
        = data.length + c.rx.chunkRemaining := by
      rw [length_append, length_take, hleft]
      omega
    refine ⟨text, wire, payload, line, data ++ c.rx.unread.take take, ?_,
      htext, hkind, hchunks, ?_, ?_⟩
    · rw [hspan]
      simp only [append_assoc]
    · rw [hsize]
      exact hline
    · rw [hsize]
      exact hpos
  split
  · exact htaken
  · rename_i hdone
    exact chunkEnd_inv htaken hopen cfg hdata (Decidable.not_not.mp hdone)

end

variable {text : Bytes} {head : RequestHead}

/-- An accepted head starts the next request. -/
theorem BoundaryInv.accept (inv : BoundaryInv maxHeaders c) (hopen : c.tx.closing = false)
    (hst : c.rx.state = .readingHead) (hsound : ReadBuffer.Sound c'.rx.input) (hscans : c'.rx.Scans)
    (hmarks : c'.rx.marks = c.rx.marks ++ [(c.rx.consumed.length, head)])
    (hconsumed : c'.rx.consumed = c.rx.consumed ++ text)
    (hprog : c'.tx.closing = false → Progress maxHeaders c'.rx head text) :
    BoundaryInv maxHeaders c' := by
  have hlast : c'.rx.marks.getLast? = some (c.rx.consumed.length, head) := by
    rw [hmarks, getLast?_concat]
  refine ⟨hsound, hscans, ?_, ?_, ?_, ?_⟩
  · rw [hmarks, hconsumed]
    refine (inv.past.snoc head ?_ (fun h => (inv.first h).1)).extend text
    intro m hm
    have := inv.current hopen m hm
    unfold Progress at this
    rw [hst] at this
    exact this
  · intro m hm
    cases hlast.symm.trans hm
    rw [hconsumed, length_append]
    exact Nat.le_add_right _ _
  · intro hopen' m hm
    cases hlast.symm.trans hm
    rw [hconsumed, drop_left]
    exact hprog hopen'
  · intro hnone
    rw [hnone] at hlast
    cases hlast

omit [ReadBuffer β] in
/-- A request starts with none of its body read. -/
theorem startRequest_progress (htext : HeadText maxHeaders text head) (c : Conn β) :
    Progress maxHeaders (startRequest c head).rx head text := by
  have hnone : text = text ++ [] := (append_nil text).symm
  unfold startRequest bodyState Progress
  cases hkind : head.info.kind with
  | none =>
    refine ⟨text, [], hnone, htext, ?_⟩
    unfold BodyText
    rw [hkind]
  | chunked => exact ⟨text, [], [], hnone, htext, rfl, .nil⟩
  | fixed =>
    by_cases hlen : 0 < head.info.length
    · simp only [if_pos hlen]
      exact ⟨text, [], hnone, htext, trivial, zero_add _⟩
    · simp only [if_neg hlen]
      refine ⟨text, [], hnone, htext, ?_⟩
      unfold BodyText
      rw [hkind]
      show 0 = head.info.length
      omega

/-- What `begin_request` does with an accepted head: it closes, or the parser stands at the
    start of the body. -/
theorem beginRequest_spec (htext : HeadText maxHeaders text head)
    (cfg : ServerConfig) (policy : Policy) (c : Conn β) :
    SameInput c.rx (beginRequest cfg policy c head).1.rx
      ∧ ((beginRequest cfg policy c head).1.tx.closing = false →
        Progress maxHeaders (beginRequest cfg policy c head).1.rx head text) := by
  have hpol : ∀ (tx : Tx) (reply : PolicyReply),
      SameInput c.rx (sendPolicyReply cfg { c with tx := tx } head.info.keepAlive reply).rx
        ∧ ((sendPolicyReply cfg { c with tx := tx } head.info.keepAlive
            reply).tx.closing = false →
          Progress maxHeaders (sendPolicyReply cfg { c with tx := tx }
            head.info.keepAlive reply).rx head text) := by
    intro tx reply
    refine ⟨?_, fun h => ?_⟩
    · unfold sendPolicyReply
      simp only
      repeat' split
      all_goals exact sameInput rfl
    · rw [sendPolicyReply_closing] at h
      cases h
  fun_cases beginRequest cfg policy c head with
  | case1 | case4 | case5 =>
    exact ⟨sameInput rfl, fun h => absurd h (by simp)⟩
  | case2 | case3 => exact hpol _ _
  | case6 => exact ⟨sameInput rfl, fun _ => trivial⟩
  | case7 => exact ⟨sameInput rfl, fun _ => startRequest_progress htext _⟩

variable {cfg : ServerConfig}

theorem driveHead_inv (inv : BoundaryInv cfg.maxHeaderCount c) (policy : Policy)
    (hopen : c.tx.closing = false) (hst : c.rx.state = .readingHead) :
    BoundaryInv cfg.maxHeaderCount (driveHead cfg policy c).1 := by
  have hfst := findSubFrom_fst blankLine_ne inv.scans.head.scanned
  have hhead := findSubFrom_settled blankLine_ne inv.scans.head
  have hline := findSubFrom_settled crlf_ne inv.scans.line
  have hwait₁ : BoundaryInv cfg.maxHeaderCount { c with rx := { c.rx with headTerminatorScan :=
      (findSubFrom c.rx.unread blankLine c.rx.headTerminatorScan).2 } } :=
    inv.idle inv.sound { inv.scans with head := hhead } rfl id
  have hwait₂ : BoundaryInv cfg.maxHeaderCount { c with rx := { c.rx with
        headTerminatorScan := (findSubFrom c.rx.unread blankLine c.rx.headTerminatorScan).2
        requestLineScan := (findSubFrom c.rx.unread crlf c.rx.requestLineScan).2 } } :=
    inv.idle inv.sound { inv.scans with head := hhead, line := hline } rfl id
  fun_cases driveHead cfg policy c with
  | case2 | case5 | case10 => exact hwait₂
  | case6 => exact hwait₁.refuse cfg _ _
  | case12 _ _ _ _ c₂ headEnd hfound _ _ head hparse =>
    obtain ⟨htext, hroom⟩ := headText_of_parsed (hfst.symm.trans hfound) hparse
    obtain ⟨hsame, hprog⟩ := beginRequest_spec htext cfg policy
      { rx := c₂.rx.acceptHead head, tx := { c₂.tx with deadlineIsRequest := true } }
    refine inv.accept hopen hst ?_ (hsame.scans (.reset rfl)) ?_ hsame.consumed hprog
    · rw [hsame.input]
      exact sound_doConsume inv.sound hroom
    · rw [hsame.marks]
      exact map_append
  | _ => exact hwait₂.refuse cfg _ _

/-- **ONE TURN OF THE DRIVER LOOP** keeps the boundaries in step. -/
theorem driveOnce_inv (inv : BoundaryInv cfg.maxHeaderCount c) (policy : Policy) :
    BoundaryInv cfg.maxHeaderCount (driveOnce cfg policy c).1 := by
  unfold driveOnce
  split
  · exact inv
  rename_i hclose
  have hopen : c.tx.closing = false := by simpa using hclose
  cases hst : c.rx.state with
  | readingHead => exact driveHead_inv inv policy hopen hst
  | readingFixedBody => exact driveFixedBody_inv inv hopen hst
  | readingChunkSize => exact driveChunkSize_inv inv hopen cfg hst
  | readingChunkData => exact driveChunkData_inv inv hopen cfg hst
  | readingChunkTrailers => exact driveChunkTrailers_inv inv hopen cfg hst
  | requestRunning | websocket => exact inv

/-! ### The end of a task -/

/-- The task's end turns the connection over to the next request. -/
def turnsOver (tx : Tx) : Outcome → Bool
  | .returned => tx.wantNext && !tx.closing && !tx.wsMode
  | .raised =>
    tx.wantNext && !tx.closing && !tx.wsMode && !tx.responseStarted
  | .disconnected => false
  | .cancelled => false

/-- **THE CONDITION**: a task whose response keeps the connection ends after its request's
    body has been read. -/
def BodyTaken (c : Conn β) : Event → Prop
  | .done outcome =>
    turnsOver c.tx outcome = true → c.rx.state = .requestRunning
  | _ => True

instance (c : Conn β) (e : Event) : Decidable (BodyTaken c e) := by
  unfold BodyTaken
  split <;> infer_instance

/-- A response finished without keep-alive closes, or was complete. -/
theorem finishResponse_wantNext {tx : Tx} (h : ((finishResponse cfg tx false).wantNext
      && !(finishResponse cfg tx false).closing) = true) :
    tx.wantNext = true ∧ tx.closing = false := by
  cases hcomp : tx.responseComplete with
  | true =>
    rw [finishResponse, if_pos hcomp] at h
    simpa using h
  | false =>
    rw [finishResponse_closes hcomp] at h
    simp at h

/-- Only a task that turns the connection over leaves it open and wanting the next request. -/
theorem applyAppOutcome_wantNext {tx : Tx} {outcome : Outcome} (hws : tx.wsMode = false)
    (h : ((applyAppOutcome cfg tx outcome).wantNext
      && !(applyAppOutcome cfg tx outcome).closing) = true) : turnsOver tx outcome = true := by
  have herror : ((failResponse cfg tx).wantNext && !(failResponse cfg tx).closing) = true →
      tx.wantNext = true ∧ tx.closing = false := by
    obtain ⟨wire, herror⟩ := writeError_frame cfg tx 500 (.accepted tx.methodIsHead)
    rw [failResponse, herror]
    exact finishResponse_wantNext
  revert h
  fun_cases applyAppOutcome cfg tx outcome with
  | case1 | case2 | case4 => simp [Tx.protocolClose]
  | case3 hstart =>
    intro h
    obtain ⟨hwant, hopen⟩ := herror h
    have : tx.responseStarted = false := by simpa using hstart
    simp [turnsOver, hwant, hopen, hws, this]
  | case5 =>
    intro h
    simp [turnsOver, herror h, hws]
  | case6 =>
    intro h
    simp [turnsOver, finishResponse_wantNext h, hws]
  | case7 =>
    intro h
    simp [turnsOver, hws, Bool.and_eq_true_iff.mp h]

/-- The end of a task keeps the boundaries in step, if the body was taken when it turns the
    connection over. -/
theorem applyOutcome_inv {outcome : Outcome}
    (inv : BoundaryInv maxHeaders c) (htaken : BodyTaken c (.done outcome)) :
    BoundaryInv maxHeaders (applyOutcome cfg c outcome) := by
  have hclose : (applyOutcome cfg c outcome).tx.closing = false → c.tx.closing = false := by
    intro h
    cases hc : c.tx.closing with
    | false => rfl
    | true => exact h ▸ (applyOutcome_shut outcome ⟨hc, rfl⟩).1.symm
  by_cases hover : (applyOutcome cfg c outcome).rx = { c.rx with task := false }
  · refine inv.idle ?_ ?_ ?_ hclose
    all_goals rw [hover]
    · exact inv.sound
    · exact inv.scans.congr rfl
    all_goals rfl
  · -- the connection is turned over: the request was read to its end
    have hturn : (applyOutcome cfg c outcome).rx = Rx.resetRequest { c.rx with task := false }
        ∧ turnsOver c.tx outcome = true := by
      cases hws : c.tx.wsMode with
      | true =>
        refine absurd ?_ hover
        cases outcome with
        | raised | returned => simp only [applyOutcome, hws]
        | cancelled | disconnected =>
          simp [applyOutcome, hws, applyAppOutcome, Tx.protocolClose]
      | false =>
        by_cases hwant : ((applyAppOutcome cfg c.tx outcome).wantNext
            && !(applyAppOutcome cfg c.tx outcome).closing) = true
        · refine ⟨?_, applyAppOutcome_wantNext hws hwant⟩
          simp only [applyOutcome, hws, if_pos hwant]
        · refine absurd ?_ hover
          simp only [applyOutcome, hws, if_neg hwant]
    obtain ⟨hrx, hturns⟩ := hturn
    have hst : c.rx.state = .requestRunning := htaken hturns
    constructor
    all_goals rw [hrx]
    · exact inv.sound
    · exact inv.scans.congr rfl
    · exact inv.past
    · exact inv.bound
    · intro hopen m hm
      have := inv.current (hclose hopen) m hm
      unfold Progress at this
      rw [hst] at this
      exact this
    · exact fun h => ⟨(inv.first h).1, rfl⟩

/-! ## Whole runs -/

/-- **ONE EVENT** keeps the boundaries in step. -/
theorem step_inv {policy : Policy} {e : Event} (inv : BoundaryInv cfg.maxHeaderCount c)
    (htaken : BodyTaken c e) (h : step cfg policy c e = some c') :
    BoundaryInv cfg.maxHeaderCount c' := by
  have hclose : c'.tx.closing = false → c.tx.closing = false := by
    intro hopen
    cases hc : c.tx.closing with
    | false => rfl
    | true => exact hopen ▸ (step_closing hc h).symm
  -- an event that leaves the request half alone
  have hquiet : c'.rx = c.rx → BoundaryInv cfg.maxHeaderCount c' := by
    intro hrx
    refine inv.idle ?_ ?_ ?_ hclose
    all_goals rw [hrx]
    · exact inv.sound
    · exact inv.scans
  revert h
  fun_cases step cfg policy c e with
  | case2 | case5 | case8 => rintro ⟨⟩
  | case3 op _ input hin =>
    obtain ⟨hsound, hunread⟩ := ReadBuffer.ingest_unread _ _ _ inv.sound hin
    rintro ⟨⟩
    have hgrow : Rx.unread { c.rx with input := input } = c.rx.unread ++ op.payload := hunread
    refine inv.idle hsound ⟨?_, ?_, ?_, ?_⟩ rfl id
    · rw [hgrow]; exact inv.scans.head.append _
    · rw [hgrow]; exact inv.scans.line.append _
    · rw [hgrow]; exact inv.scans.chunk.append _
    · rw [hgrow]; exact inv.scans.trailer.append _
  | case4 => exact fun h => some.inj h ▸ driveOnce_inv inv policy
  | case7 => exact fun h => some.inj h ▸ applyOutcome_inv inv htaken
  | _ => exact fun h => hquiet (some.inj h ▸ rfl)

/-- The octets of a connection are the beginning of what the client sent; a closing
    connection takes no more of them. -/
theorem exec_octets {policy : Policy} (events : List Event) (inv : BoundaryInv cfg.maxHeaderCount c)
    (h : exec (guarded BodyTaken (step cfg policy)) c events = some c') :
    (c.tx.closing = true → c'.rx.octets = c.rx.octets)
      ∧ c'.rx.octets <+: c.rx.octets ++ received events := by
  fun_induction exec (guarded BodyTaken (step cfg policy)) c events with
  | case1 =>
    cases h
    exact ⟨fun _ => rfl, prefix_append _ _⟩
  | case2 => cases h
  | case3 c e events c₁ hguarded ih =>
    obtain ⟨htaken, hstep⟩ := guarded_some hguarded
    obtain ⟨hfrozen, hprefix⟩ := ih (step_inv inv htaken hstep) h
    have hoctets := step_octets inv.sound hstep
    cases hclose : c.tx.closing with
    | true =>
      rw [hclose, if_pos rfl, append_nil] at hoctets
      have := (hfrozen (step_closing hclose hstep)).trans hoctets
      exact ⟨fun _ => this, this ▸ prefix_append _ _⟩
    | false =>
      rw [hclose, if_neg Bool.false_ne_true] at hoctets
      refine ⟨(by rintro ⟨⟩), ?_⟩
      rw [hoctets, append_assoc] at hprefix
      exact hprefix

/-- **EVERY HEAD BEGINS WHERE ITS PREDECESSOR ENDS**: along every run in which each task that keeps
    the connection ends after its request's body was read, whatever the splits, the application's
    calls, the timers and the policies. -/
theorem heads_in_step (cfg : ServerConfig) (policy : Policy) (input : β)
    (hsound : ReadBuffer.Sound input) (hempty : ReadBuffer.unread input = [])
    (events : List Event) (c : Conn β)
    (hrun : exec (guarded BodyTaken (step cfg policy)) (Conn.fresh input) events = some c) :
    InStep cfg.maxHeaderCount (received events) c.rx.marks := by
  have hstart := boundaryInv_fresh cfg.maxHeaderCount hsound
  have inv : BoundaryInv cfg.maxHeaderCount c :=
    exec_guarded_invariant (fun _ _ _ ht hg hs => step_inv ht hg hs) hstart hrun
  obtain ⟨-, hprefix⟩ := exec_octets events hstart hrun
  have hnone : (Conn.fresh input).rx.octets = [] := hempty
  rw [hnone, nil_append] at hprefix
  -- the consumed octets begin the octets held, which begin the stream
  obtain ⟨later, hlater⟩ := (prefix_append c.rx.consumed c.rx.unread).trans hprefix
  rw [← hlater]
  exact inv.past.extend later

end Invariant

/-! ## The early response -/

/-- A request that announces 40 octets of body. -/
def uploadHead : Bytes := ascii "POST /upload HTTP/1.1\r\nHost: x\r\nContent-Length: 40\r\n\r\n"

/-- The 40 octets: they read as a request. -/
def uploadBody : Bytes := ascii "GET /admin HTTP/1.1\r\nHost: localhost\r\n\r\n"

def nextHead : Bytes := ascii "GET /next HTTP/1.1\r\nHost: x\r\n\r\n"

/-- The application's answer to the upload. -/
def uploadAnswer : AppCall := .response (some 200) (.items []) (ascii "ok")

/-- The body arrives before the task returns; then the next request. -/
def lateResponse : List Event := [.read (.dataReceived uploadHead), .drive,
    .read (.dataReceived (uploadBody ++ nextHead)), .drive,
    .app uploadAnswer, .done .returned, .drive]

/-- The body arrives after the task returned. -/
def earlyResponse : List Event :=
  [.read (.dataReceived uploadHead), .drive, .app uploadAnswer, .done .returned,
    .read (.dataReceived uploadBody), .drive]

/-- With the body taken the next head is found behind it. -/
theorem lateResponse_in_step : ∃ c, exec (guarded BodyTaken (step plainConfig Policy.open))
        (Conn.fresh InputBuffer.empty) lateResponse = some c
      ∧ c.rx.marks.map Prod.fst = [0, 94]
      ∧ InStep 100 (received lateResponse) c.rx.marks := by
  refine run_ends (fun c => c.rx.marks.map Prod.fst) [0, 94] (by decide +kernel)
    fun c hrun hstarts => ⟨hstarts, ?_⟩
  exact heads_in_step plainConfig Policy.open InputBuffer.empty InputBuffer.sound_empty rfl
    lateResponse c hrun

/-- **THE BODY READ AS A HEAD**: when the task returns first, the second request begins 40
    octets early, inside the first one's body. -/
theorem early_response_desyncs :
    ∃ c, exec (step plainConfig Policy.open) (Conn.fresh InputBuffer.empty) earlyResponse = some c
      ∧ c.rx.marks.map Prod.fst = [0, 54]
      ∧ ¬ InStep 100 (received earlyResponse) c.rx.marks := by
  refine run_ends (fun c => c.rx.marks.map fun m => (m.1, m.2.info.kind, m.2.info.length))
    [(0, .fixed, 40), (54, .none, 0)] (by decide +kernel) fun c _ hmarks => ?_
  -- two marks: the upload at 0, the false head at 54
  obtain ⟨m, rest, hcases, hfirst, hrest⟩ := map_eq_cons_iff.mp hmarks
  obtain ⟨m', rest, rfl, hsecond, hrest⟩ := map_eq_cons_iff.mp hrest
  obtain rfl := map_eq_nil_iff.mp hrest
  obtain ⟨hm, hkind, hlength⟩ : m.1 = 0 ∧ m.2.info.kind = .fixed ∧ m.2.info.length = 40 := by
    simpa using hfirst
  have hm' : m'.1 = 54 := congrArg Prod.fst hsecond
  constructor
  · simp [hcases, hm, hm']
  rintro ⟨-, hchain⟩
  rw [hcases, isChain_pair] at hchain
  obtain ⟨-, text, wire, hspan, htext, hbody⟩ := hchain
  rw [hm, hm', drop_zero] at hspan
  have hspan : uploadHead = text ++ wire := hspan
  -- the head's own blank line ends the span, which has no room for
  -- the announced body
  have hfound : findSub blankLine (text ++ wire) = some (text.length - 4) :=
    findSub_append htext.blank blankLine_ne
  rw [← hspan, show findSub blankLine uploadHead = some 50 from by
    decide +kernel] at hfound
  have hsize := congrArg List.length hspan
  rw [length_append, show uploadHead.length = 54 from by
    decide +kernel] at hsize
  unfold BodyText at hbody
  rw [hkind] at hbody
  have := some.inj hfound
  omega

end Http1Boundary
