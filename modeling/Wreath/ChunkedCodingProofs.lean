import Wreath.HttpHeadProofs

/-! # The chunked transfer coding, as a grammar

RFC 9112 chunked bodies as an inductive family: sized chunks, a last chunk of size zero,
a trailer section. -/

namespace ChunkedCoding

open ByteScan HttpHead

/-- The number a hexadecimal text denotes. -/
def hexNumber (text : Bytes) : Nat := text.foldl (fun value b => value * 16 + hexValue b) 0

/-- The size field of a chunk line: what stands before the extensions, without surrounding
    whitespace. -/
def sizeField (line : Bytes) : Bytes := trim isOws (line.takeWhile (· != ch ';'))

/-- A chunk line announcing `n` octets. -/
structure SizeLine (line : Bytes) (n : Nat) : Prop where
  oneLine : cr ∉ line
  present : sizeField line ≠ []
  digits : ∀ b ∈ sizeField line, httpHexDigit b = true
  value : hexNumber (sizeField line) = n

/-- Zero or more non-empty lines, then the empty line. -/
inductive TrailerSection : Bytes → Prop where
  | done : TrailerSection [cr, lf]
  | field {line rest : Bytes} : line ≠ [] → cr ∉ line →
      TrailerSection rest → TrailerSection (line ++ cr :: lf :: rest)

/-- A run of complete chunks: the wire text and the payload it carries. -/
inductive Chunks : Bytes → Bytes → Prop where
  | nil : Chunks [] []
  | cons {line data wire payload : Bytes} :
      SizeLine line data.length → data ≠ [] → Chunks wire payload →
      Chunks (line ++ cr :: lf :: (data ++ cr :: lf :: wire)) (data ++ payload)

/-- A whole chunked body: the wire text and the payload it carries. -/
inductive ChunkedBody : Bytes → Bytes → Prop where
  | last {line trailers : Bytes} : SizeLine line 0 →
      TrailerSection trailers → ChunkedBody (line ++ cr :: lf :: trailers) []
  | chunk {line data wire payload : Bytes} :
      SizeLine line data.length → data ≠ [] → ChunkedBody wire payload →
      ChunkedBody (line ++ cr :: lf :: (data ++ cr :: lf :: wire)) (data ++ payload)

theorem Chunks.append {w w' p p' : Bytes} (h : Chunks w p)
    (h' : Chunks w' p') : Chunks (w ++ w') (p ++ p') := by
  induction h with
  | nil => exact h'
  | cons hline hdata _ ih =>
    simp only [List.append_assoc, List.cons_append]
    exact .cons hline hdata ih

/-- One more chunk at the end. -/
theorem Chunks.snoc {wire payload line data : Bytes}
    (h : Chunks wire payload) (hline : SizeLine line data.length) (hdata : data ≠ []) :
    Chunks (wire ++ (line ++ crlf ++ data ++ crlf)) (payload ++ data) := by
  have hone : Chunks (line ++ cr :: lf :: (data ++ cr :: lf :: []))
      (data ++ []) := .cons hline hdata .nil
  have := h.append hone
  simpa [crlf] using this

/-- Chunks, then a last chunk and its trailers, are a body. -/
theorem Chunks.close {wire payload line trailers : Bytes}
    (h : Chunks wire payload) (hline : SizeLine line 0) (htrail : TrailerSection trailers) :
    ChunkedBody (wire ++ (line ++ crlf ++ trailers)) payload := by
  induction h with
  | nil =>
    have := ChunkedBody.last hline htrail
    simpa [crlf] using this
  | cons hsize hdata _ ih =>
    have := ChunkedBody.chunk hsize hdata ih
    simpa using this

end ChunkedCoding
