import Wreath.Http1ResponseProofs

/-! # Transcripts — a wire cut into responses

A head, and the octets up to the next head. What a head declares fixes what may follow
it (`rule`): nothing, so many octets, a chunked body, or everything until the connection
closes. The chunks the encoder writes are chunks of the grammar (`sizeLine_hexText`). -/

namespace Http1Transcript

open ByteScan HttpHead ChunkedCoding Http1Response List

/-! ## Transcripts -/

/-- A head on the wire and the octets that follow it. -/
abbrev Response := WireHead × Bytes

/-- The interim responses: `100 Continue` and `101 Switching Protocols`. -/
def interimHead (status : Nat) : WireHead :=
  { statusLine := true, status := status, fields := []
    contentLength := none, chunked := false, keepAlive := true
    asked := .accepted false }

/-- Data belongs to the last head; data before any head is no transcript. -/
def transcriptStep (rs : List Response) : Wire → Option (List Response)
  | .head h => some (rs ++ [(h, [])])
  | .data d =>
    match rs.getLast? with
    | none => none
    | some (h, body) => some (rs.dropLast ++ [(h, body ++ d)])
  | .interim => some (rs ++ [(interimHead 100, [])])
  | .switched => some (rs ++ [(interimHead 101, [])])

/-- The responses on a wire. -/
def transcript (wire : List Wire) : Option (List Response) := wire.foldlM transcriptStep []

theorem transcript_snoc {wire : List Wire} {rs : List Response} (h : transcript wire = some rs)
    (w : Wire) : transcript (wire ++ [w]) = transcriptStep rs w := by
  rw [transcript, foldlM_append]
  rw [transcript] at h
  rw [h]
  simp

theorem transcript_head {wire : List Wire} {rs : List Response} (h : transcript wire = some rs)
    (head : WireHead) : transcript (wire ++ [.head head]) = some (rs ++ [(head, [])]) :=
  transcript_snoc h _

variable {body : Bytes}

/-- Data goes to the response in progress. -/
theorem transcript_data {wire : List Wire} {past : List Response} {h : WireHead}
    (hrs : transcript wire = some (past ++ [(h, body)])) (d : Bytes) :
    transcript (wire ++ [.data d]) = some (past ++ [(h, body ++ d)]) := by
  rw [transcript_snoc hrs, transcriptStep, List.getLast?_concat]
  simp

/-! ## What a head declares -/

/-- What may follow a head. -/
inductive BodyRule where
  | nothing
  | sized (n : Nat)
  | chunked
  | untilClose
  deriving Repr, DecidableEq

/-- No body follows: the answer to a HEAD, or a status that forbids one. -/
def bodyless (h : WireHead) : Bool := h.asked == .accepted true || statusForbidsBody h.status

/-- The rule a head declares. -/
def rule (h : WireHead) : BodyRule :=
  if bodyless h then .nothing
  else
    match h.contentLength with
    | some n => .sized n
    | none => if h.chunked then .chunked else .untilClose

/-- All of what a head declares; a close-delimited body is never over. -/
def Whole : BodyRule → Bytes → Prop
  | .nothing, body => body = []
  | .sized n, body => body.length = n
  | .chunked, body => ∃ payload, ChunkedBody body payload
  | .untilClose, _ => False

/-- A beginning of what a head declares: whole chunks of a chunked body. -/
def Part : BodyRule → Bytes → Prop
  | .nothing, body => body = []
  | .sized n, body => body.length ≤ n
  | .chunked, body =>
    (∃ payload, Chunks body payload) ∨ ∃ payload, ChunkedBody body payload
  | .untilClose, _ => True

theorem Whole.part {r : BodyRule} (h : Whole r body) : Part r body := by
  cases r with
  | nothing => exact h
  | sized n => exact Nat.le_of_eq h
  | chunked => exact .inr h
  | untilClose => exact trivial

/-- A field that frames the body. -/
def framingName (name : Bytes) : Bool :=
  equalCi name nameContentLength || equalCi name nameTransferEncoding

/-- A head with a status line, and no framing field but its own. -/
structure WellFormed (h : WireHead) : Prop where
  statusLine : h.statusLine = true
  fields : ∀ f ∈ h.fields, framingName f.1 = false

/-- A finished response. -/
def Delivered (r : Response) : Prop := WellFormed r.1 ∧ Whole (rule r.1) r.2

theorem delivered_interim {status : Nat} (h : statusForbidsBody status = true) :
    Delivered (interimHead status, []) := by
  refine ⟨⟨rfl, nofun⟩, ?_⟩
  have hrule : rule (interimHead status) = .nothing := by
    rw [rule, if_pos]
    show (_ || statusForbidsBody status) = true
    rw [h, Bool.or_true]
  rw [hrule]
  rfl

/-! ## Chunks on the wire -/

theorem hexDigit_spec : ∀ d : Fin 16,
    httpHexDigit (hexDigit d) = true ∧ hexValue (hexDigit d) = d := by
  decide

/-- The digits written in front of `acc` denote the number. -/
theorem hexDigits_spec (fuel n : Nat) (acc : Bytes) (hlt : n < fuel) :
      ∃ digits, hexDigits fuel n acc = digits ++ acc ∧ digits ≠ []
        ∧ (∀ b ∈ digits, httpHexDigit b = true) ∧ hexNumber digits = n := by
  have hd : ∀ n, _ := fun n => hexDigit_spec ⟨n % 16, Nat.mod_lt n (by decide)⟩
  fun_induction hexDigits fuel n acc with
  | case1 => exact absurd hlt (Nat.not_lt_zero _)
  | case2 fuel n acc _ hsmall =>
    refine ⟨[hexDigit (n % 16)], rfl, cons_ne_nil _ _, forall_mem_singleton.mpr (hd n).1, ?_⟩
    show 0 * 16 + hexValue (hexDigit (n % 16)) = n
    rw [(hd n).2]
    simp only
    omega
  | case3 fuel n acc _ hbig ih =>
    obtain ⟨digits, heq, -, hall, hvalue⟩ := ih (by omega)
    refine ⟨digits ++ [hexDigit (n % 16)], ?_, by simp,
      forall_mem_append.mpr ⟨hall, forall_mem_singleton.mpr (hd n).1⟩, ?_⟩
    · rw [heq, append_assoc]
      rfl
    · rw [hexNumber, foldl_append]
      show hexNumber digits * 16 + hexValue (hexDigit (n % 16)) = n
      rw [hvalue, (hd n).2]
      simp only
      omega

theorem hexDigit_class {b : UInt8} (h : httpHexDigit b = true) :
    b ≠ cr ∧ (b != ch ';') = true ∧ isOws b = false := by
  refine ⟨?_, ?_, ?_⟩
  · rintro rfl
    exact absurd h (by decide)
  · rw [bne_iff_ne]
    rintro rfl
    exact absurd h (by decide)
  · rw [isOws, Bool.or_eq_false_iff, beq_eq_false_iff_ne, beq_eq_false_iff_ne]
    constructor
    · rintro rfl
      exact absurd h (by decide)
    · rintro rfl
      exact absurd h (by decide)

/-- Text that holds no octet of a class is not trimmed by it. -/
theorem trim_eq_self {p : UInt8 → Bool} {text : Bytes}
    (h : ∀ b ∈ text, p b = false) : trim p text = text := by
  have hkeep : text.dropWhile p = text := by
    cases text with
    | nil => rfl
    | cons b text => simp [h b mem_cons_self]
  rw [trim, hkeep, rdropWhile_eq_self_iff]
  intro hne
  rw [h _ (getLast_mem hne)]
  exact Bool.false_ne_true

/-- The size line of a chunk announces its size. -/
theorem sizeLine_hexText (n : Nat) : SizeLine (hexText n) n := by
  obtain ⟨digits, heq, hne, hall, hvalue⟩ := hexDigits_spec (n + 1) n [] (Nat.lt_succ_self n)
  rw [append_nil] at heq
  have hfield : sizeField digits = digits := by
    rw [sizeField, takeWhile_eq_self_iff.mpr (fun b hb => (hexDigit_class (hall b hb)).2.1)]
    exact trim_eq_self (fun b hb => (hexDigit_class (hall b hb)).2.2)
  have htext : hexText n = digits := heq
  rw [htext]
  constructor
  · intro hcr
    exact (hexDigit_class (hall cr hcr)).1 rfl
  · rw [hfield]
    exact hne
  · rw [hfield]
    exact hall
  · rw [hfield]
    exact hvalue

/-- The last chunk closes a run of chunks. -/
theorem chunkedBody_last {wire payload : Bytes} (h : Chunks wire payload) :
    ChunkedBody (wire ++ lastChunkText) payload := by
  have hline : SizeLine (ascii "0") 0 := ⟨by decide, by decide, by decide +kernel, by decide⟩
  exact h.close hline .done

end Http1Transcript
