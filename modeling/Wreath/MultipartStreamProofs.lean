import Mathlib.Data.List.Infix
import Wreath.MultipartProofs

/-! # Streaming multipart parsing — chunk boundaries do not matter

`Reads` says what the streaming parser makes of the input that is still to come. Every round
agrees with it whatever arrives later (`turn_right`), so every way of cutting a body does
(`stream_reads`), and the parser of complete bodies as well (`parse_whole`). The streaming
parser hands header blocks out as they are (`colonless_handed_out`), and padding after a
delimiter is held back until it ends; everything else is the same (`stream_agrees`). -/

namespace Multipart

open ByteScan HttpHead List Bool
open Resumable (Turn Agrees FailsRightly)

/-! ## Events, byte by byte -/

inductive Piece where
  | head (block : Bytes)
  | byte (b : UInt8)
  | fin

def Event.pieces : Event → List Piece
  | .headers block => [.head block]
  | .data bytes => bytes.map .byte
  | .finish => [.fin]

def pieces (es : List Event) : List Piece := es.flatMap Event.pieces

/-- What becomes of a body: its pieces, or a refusal. -/
abbrev Outcome := Except Refusal (List Piece)

def emit (es : List Event) (o : Outcome) : Outcome := o.map (pieces es ++ ·)

theorem pieces_append (es es' : List Event) :
    pieces (es ++ es') = pieces es ++ pieces es' := flatMap_append

theorem emit_nil (o : Outcome) : emit [] o = o := by
  cases o with
  | error | ok => rfl

theorem emit_append (es es' : List Event) (o : Outcome) :
    emit (es ++ es') o = emit es (emit es' o) := by
  cases o with
  | error e => rfl
  | ok ps =>
    show Except.ok (pieces (es ++ es') ++ ps) = Except.ok (pieces es ++ (pieces es' ++ ps))
    rw [pieces_append, append_assoc]

theorem emit_congr {es es' : List Event} (h : pieces es = pieces es')
    (o : Outcome) : emit es o = emit es' o := by
  rw [emit, emit, h]

/-- Content may be handed out in two goes. -/
theorem emit_data (a b : Bytes) (es : List Event) (o : Outcome) :
    emit [.data a] (emit (.data b :: es) o) = emit (.data (a ++ b) :: es) o := by
  rw [← emit_append]
  refine emit_congr ?_ o
  show pieces (.data a :: .data b :: es) = _
  simp only [pieces, flatMap_cons, Event.pieces, map_append, append_assoc]

/-- The parser refuses, and for the limit that counts if one does. -/
def Refuses (e : Refusal) (o : Outcome) : Prop :=
  ∃ r, o = .error r ∧ ∀ l, r = .limit l → e = .limit l

variable {e : Refusal}

theorem Refuses.emit {o : Outcome} (es : List Event) (h : Refuses e o) : Refuses e (emit es o) := by
  obtain ⟨r, rfl, hr⟩ := h
  exact ⟨r, rfl, hr⟩

theorem Refuses.of_malformed {r : Refusal} (h : ∀ l, r ≠ .limit l) : Refuses e (.error r) :=
  ⟨r, rfl, fun l hl => absurd hl (h l)⟩

/-! ## What is still to come -/

/-- `n` bytes of a part were handed out and `i` more are due. -/
def Config.fits (cfg : Config) (n i : Nat) : Prop := i = 0 ∨ (n + i : Nat) ≤ cfg.maxPartBytes

/-- **WHAT THE PARSER MAKES OF THE REST**, one case for each way it can go. -/
inductive Reads (cfg : Config) : Stream → Bytes → Outcome → Prop where
  | opens {start : Bool} {c n : Nat} {x : Bytes} {o : Outcome}
      (hstart : start = true) (hopen : opening cfg.boundary <+: x)
      (h : Reads cfg ⟨.boundary, c, n⟩ (x.drop (opening cfg.boundary).length) o) :
      Reads cfg ⟨.preamble start, c, n⟩ x o
  | skips {start : Bool} {c n i : Nat} {x : Bytes} {o : Outcome}
      (hopen : ¬(start = true ∧ opening cfg.boundary <+: x))
      (hfind : findSub cfg.delim x = some i)
      (h : Reads cfg ⟨.boundary, c, n⟩ (x.drop (i + cfg.delim.length)) o) :
      Reads cfg ⟨.preamble start, c, n⟩ x o
  | noBoundary {start : Bool} {c n : Nat} {x : Bytes}
      (hopen : ¬(start = true ∧ opening cfg.boundary <+: x))
      (hfind : findSub cfg.delim x = none) :
      Reads cfg ⟨.preamble start, c, n⟩ x (.error .boundaryNotFound)
  | closes {c n : Nat} {x : Bytes} {o : Outcome} (hdash : dashes <+: x)
      (h : Reads cfg ⟨.close, c, n⟩ (x.drop 2) o) :
      Reads cfg ⟨.boundary, c, n⟩ x o
  | line {c n : Nat} {x : Bytes} {o : Outcome} (hdash : ¬dashes <+: x)
      (hline : crlf <+: x.dropWhile isOws)
      (h : Reads cfg ⟨.headers, c, n⟩ ((x.dropWhile isOws).drop 2) o) :
      Reads cfg ⟨.boundary, c, n⟩ x o
  | badLine {c n : Nat} {x : Bytes} (hdash : ¬dashes <+: x)
      (hline : ¬crlf <+: x.dropWhile isOws) :
      Reads cfg ⟨.boundary, c, n⟩ x (.error .boundaryLine)
  | headers {c n h k : Nat} {x : Bytes} {o : Outcome}
      (hend : headerEnd x = some (h, k)) (hlong : ¬cfg.maxHeaderBytes < h)
      (hmany : ¬cfg.maxParts ≤ c) (hbody : Reads cfg ⟨.body, c + 1, 0⟩ (x.drop k) o) :
      Reads cfg ⟨.headers, c, n⟩ x (emit [.headers (x.take h)] o)
  | longHeaders {c n h k : Nat} {x : Bytes} (hend : headerEnd x = some (h, k))
      (hlong : cfg.maxHeaderBytes < h) :
      Reads cfg ⟨.headers, c, n⟩ x (.error (.limit .headers))
  | manyParts {c n h k : Nat} {x : Bytes} (hend : headerEnd x = some (h, k))
      (hlong : ¬cfg.maxHeaderBytes < h) (hmany : cfg.maxParts ≤ c) :
      Reads cfg ⟨.headers, c, n⟩ x (.error (.limit .parts))
  | noHeaders {c n : Nat} {x : Bytes} (hend : headerEnd x = none) :
      Reads cfg ⟨.headers, c, n⟩ x (.error .unterminatedHeaders)
  | content {c n m i : Nat} {x : Bytes} {o : Outcome}
      (hend : findEnd cfg.delim x = some i) (hfits : cfg.fits n i)
      (h : Reads cfg ⟨.boundary, c, m⟩ (x.drop (i + cfg.delim.length)) o) :
      Reads cfg ⟨.body, c, n⟩ x (emit [.data (x.take i), .finish] o)
  | longContent {c n i : Nat} {x : Bytes} (hend : findEnd cfg.delim x = some i)
      (hfits : ¬cfg.fits n i) :
      Reads cfg ⟨.body, c, n⟩ x (.error (.limit .size))
  | noContent {c n : Nat} {x : Bytes} (hend : findEnd cfg.delim x = none) :
      Reads cfg ⟨.body, c, n⟩ x (.error .unterminatedPart)
  | ends {c n : Nat} {x : Bytes}
      (hend : x.dropWhile isOws = [] ∨ crlf <+: x.dropWhile isOws) :
      Reads cfg ⟨.close, c, n⟩ x (.ok [])
  | badEnd {c n : Nat} {x : Bytes}
      (hend : ¬(x.dropWhile isOws = [] ∨ crlf <+: x.dropWhile isOws)) :
      Reads cfg ⟨.close, c, n⟩ x (.error .closingBoundary)
  | after {c n : Nat} {x : Bytes} : Reads cfg ⟨.epilogue, c, n⟩ x (.ok [])

variable {cfg : Config} {s s' : Stream} {data rest : Bytes} {o : Outcome}
  {c n k : Nat} {es : List Event} {e : Refusal}

/-! ## Delimiters -/

theorem delim_length (cfg : Config) : cfg.delim.length = cfg.boundary.length + 4 := by
  rw [Config.delim, delimiter, length_append, length_append]
  show 2 + 2 + _ = _
  omega

theorem delim_ne (cfg : Config) : cfg.delim ≠ [] := nofun

/-- A delimiter at a position, and after it what ends a part. -/
def EndsAt (delim x : Bytes) (i : Nat) : Prop :=
  delim <+: x.drop i ∧ accepted (x.drop (i + delim.length)) = true

/-- Where no part ends the search may skip. -/
theorem findEnd_skip {delim : Bytes} {x : Bytes} (hk : k ≤ x.length)
    (hnone : ∀ j < k, ¬EndsAt delim x j) :
    findEnd delim x = (findEnd delim (x.drop k)).map (k + ·) := by
  induction k generalizing x with
  | zero =>
    rw [drop_zero]
    cases findEnd delim x with
    | none => rfl
    | some i => exact congrArg some (zero_add i).symm
  | succ k ih =>
    cases x with
    | nil => exact absurd hk (Nat.not_succ_le_zero k)
    | cons b x =>
      have hfirst := hnone 0 (Nat.succ_pos k)
      rw [EndsAt, zero_add, drop_zero] at hfirst
      rw [findEnd, if_neg hfirst, drop_succ_cons]
      rw [ih (Nat.le_of_succ_le_succ hk) ?_]
      · cases findEnd delim (x.drop k) with
        | none => rfl
        | some i => exact congrArg some (add_right_comm k i 1)
      · intro j hj hends
        refine hnone (j + 1) (Nat.succ_lt_succ hj) ?_
        rw [EndsAt, add_right_comm]
        exact hends

variable {x : Bytes}

theorem findEnd_at {delim : Bytes} (h : EndsAt delim x 0) (hx : x ≠ []) :
    findEnd delim x = some 0 := by
  cases x with
  | nil => exact absurd rfl hx
  | cons b x =>
    rw [EndsAt, zero_add, drop_zero] at h
    rw [findEnd, if_pos h]

/-! ## Rounds -/

/-- A round goes from `s` to `s'` as `Reads` says, whatever comes later. -/
def GoesOn (cfg : Config) (s : Stream) (data : Bytes) (n : Nat)
    (es : List Event) (s' : Stream) : Prop :=
  ∀ rest o, Reads cfg s' (data.drop n ++ rest) o → Reads cfg s (data ++ rest) (emit es o)

/-- What a round does is what `Reads` says, whatever comes later. -/
def Right (cfg : Config) (s : Stream) (data : Bytes) : Turn Stream Event Refusal → Prop
  | .go n es s' | .pause n es s' => GoesOn cfg s data n es s'
  | .fail e => ∀ rest, ∃ o, Refuses e o ∧ Reads cfg s (data ++ rest) o

theorem GoesOn.waits : GoesOn cfg s data 0 [] s := by
  intro rest o h
  rw [emit_nil]
  exact h

/-- A round that consumes and emits nothing. -/
theorem GoesOn.consumes (hk : k ≤ data.length)
    (h : ∀ rest o, Reads cfg s' ((data ++ rest).drop k) o → Reads cfg s (data ++ rest) o) :
    GoesOn cfg s data k [] s' := by
  intro rest o ho
  rw [← drop_append_of_le_length hk] at ho
  rw [emit_nil]
  exact h rest o ho

/-! ### The preamble -/

variable {start : Bool}

/-- The opening is there or is not, or is still arriving. -/
theorem opening_decided (hopen : ¬(start = true ∧ opening cfg.boundary <+: data))
    (hwait : ¬(start = true ∧ data.length < (opening cfg.boundary).length ∧
      data <+: opening cfg.boundary)) (rest : Bytes) :
    ¬(start = true ∧ opening cfg.boundary <+: data ++ rest) := by
  rintro ⟨hstart, hpre⟩
  by_cases hfit : (opening cfg.boundary).length ≤ data.length
  · exact hopen ⟨hstart, (isPrefix_append_of_length hfit).mp hpre⟩
  · have hshort := Nat.lt_of_not_le hfit
    refine hwait ⟨hstart, hshort, ?_⟩
    exact prefix_of_prefix_length_le (prefix_append _ _) hpre (le_of_lt hshort)

/-- Where a needle fits and does not occur it does not occur later. -/
theorem scanned_append {needle : Bytes} (hmiss : findSub needle data = none)
    (hk : k + needle.length ≤ data.length + 1) (rest : Bytes) :
    Scanned needle (data ++ rest) k := by
  intro j hj hocc
  exact findSub_none hmiss j ((prefix_drop_append (by omega)).mp hocc)

theorem preamble_right : Right cfg ⟨.preamble start, c, n⟩ data
      (preambleTurn cfg ⟨.preamble start, c, n⟩ start data) := by
  rw [preambleTurn]
  split
  · rename_i hopen
    refine .consumes hopen.2.length_le fun rest o ho => ?_
    exact .opens hopen.1 (hopen.2.trans (prefix_append _ _)) ho
  rename_i hopen
  split
  · exact .waits
  rename_i hwait
  have hnot := opening_decided hopen hwait
  split
  · rename_i i hfind
    refine .consumes (findSub_le hfind (delim_ne cfg)) fun rest o ho => ?_
    exact .skips (hnot rest) (findSub_append hfind (delim_ne cfg)) ho
  rename_i hmiss
  split
  · have hpos := length_pos_iff.mpr (delim_ne cfg)
    have hle : data.length - cfg.delim.length + 1 ≤ data.length := by omega
    refine .consumes hle fun rest o ho => ?_
    have hskip := findSub_drop (delim_ne cfg) (by rw [length_append]; omega)
      (scanned_append hmiss (k := data.length - cfg.delim.length + 1) (by omega) rest)
    cases ho with
    | opens hstart => cases hstart
    | skips _ hfind h =>
      rw [hfind] at hskip
      refine .skips (hnot rest) hskip ?_
      rw [drop_drop] at h
      rw [add_assoc]
      exact h
    | noBoundary _ hfind =>
      rw [hfind] at hskip
      exact .noBoundary (hnot rest) hskip
  · exact .waits

/-! ### Boundary lines -/

theorem drop_takeWhile_length (p : UInt8 → Bool) (x : Bytes) :
    x.drop (x.takeWhile p).length = x.dropWhile p := by
  calc x.drop (x.takeWhile p).length
      = (x.takeWhile p ++ x.dropWhile p).drop (x.takeWhile p).length := by
        rw [takeWhile_append_dropWhile]
    _ = x.dropWhile p := drop_left

/-- The padding that has ended does not grow. -/
theorem dropWhile_append_of_ne {p : UInt8 → Bool} (h : data.dropWhile p ≠ []) (rest : Bytes) :
    (data ++ rest).dropWhile p = data.dropWhile p ++ rest := by
  rw [List.dropWhile_append, if_neg]
  rw [List.isEmpty_iff]
  exact h

/-- Two octets decide a prefix of two. -/
theorem not_prefix_append {y : Bytes} (hx : ¬y <+: x) (h : y.length ≤ x.length)
    (rest : Bytes) : ¬y <+: x ++ rest :=
  fun hpre => hx ((isPrefix_append_of_length h).mp hpre)

theorem boundary_right :
    Right cfg ⟨.boundary, c, n⟩ data (boundaryTurn ⟨.boundary, c, n⟩ data) := by
  rw [boundaryTurn]
  split
  · rename_i hdash
    refine .consumes hdash.length_le fun rest o ho => ?_
    exact .closes (hdash.trans (prefix_append _ _)) ho
  rename_i hdash
  dsimp only
  split
  · exact .waits
  have hcut := congrArg List.length (drop_takeWhile_length isOws data)
  rw [length_drop] at hcut
  have hne : data.dropWhile isOws ≠ [] := by
    intro hnil
    rw [hnil, length_nil] at hcut
    omega
  have hnot := not_prefix_append hdash (show 2 ≤ data.length by omega)
  rw [drop_takeWhile_length]
  split
  · rename_i hline
    refine .consumes (by omega) fun rest o ho => ?_
    have hpad := dropWhile_append_of_ne hne rest
    refine .line (hnot rest) ?_ ?_
    · rw [hpad]
      exact hline.trans (prefix_append _ _)
    · rw [← drop_drop, drop_append_of_le_length (by omega), drop_takeWhile_length] at ho
      rw [hpad]
      exact ho
  · rename_i hline
    intro rest
    refine ⟨.error .boundaryLine, .of_malformed nofun, .badLine (hnot rest) ?_⟩
    rw [dropWhile_append_of_ne hne]
    exact not_prefix_append hline (show 2 ≤ _ by omega) rest

/-! ### Header blocks -/

/-- What ends the headers is not moved by what arrives later. -/
theorem headerEnd_append {h : Nat} (hend : headerEnd data = some (h, k)) (rest : Bytes) :
    headerEnd (data ++ rest) = some (h, k) ∧ 0 < k ∧ k ≤ data.length ∧ h ≤ k := by
  rw [headerEnd] at hend ⊢
  split at hend
  · rename_i hcrlf
    cases hend
    rw [if_pos (hcrlf.trans (prefix_append _ _))]
    exact ⟨rfl, Nat.two_pos, hcrlf.length_le, Nat.zero_le _⟩
  · rename_i hcrlf
    obtain ⟨i, hfind, hi⟩ := Option.map_eq_some_iff.mp hend
    obtain ⟨rfl, rfl⟩ := Prod.mk.inj hi
    have hfit := findSub_le hfind nofun
    have hfour : i + 4 ≤ data.length := hfit
    rw [if_neg (not_prefix_append hcrlf (show 2 ≤ data.length by omega) rest),
      findSub_append hfind nofun]
    exact ⟨rfl, Nat.succ_pos _, hfour, Nat.le_add_right ..⟩

/-- Headers that end later than they fit are too long. -/
theorem headerEnd_late {h : Nat} (hmiss : headerEnd data = none)
    (hend : headerEnd (data ++ rest) = some (h, k)) : data.length ≤ h + 3 := by
  rw [headerEnd] at hmiss hend
  split at hmiss
  · cases hmiss
  rename_i hcrlf
  split at hend
  · rename_i hnow
    by_contra hlong
    refine not_prefix_append hcrlf (show 2 ≤ data.length by omega) rest hnow
  · obtain ⟨i, hfind, hi⟩ := Option.map_eq_some_iff.mp hend
    obtain ⟨rfl, -⟩ := Prod.mk.inj hi
    have hlate : data.length < i + 4 := findSub_append_late (Option.map_eq_none_iff.mp hmiss) hfind
    omega

variable (hroom : headerRoom cfg = cfg.maxHeaderBytes + 3)

include hroom in
theorem headers_right :
    Right cfg ⟨.headers, c, n⟩ data (headersTurn cfg ⟨.headers, c, n⟩ data) := by
  fun_cases headersTurn cfg ⟨.headers, c, n⟩ data with
  | case1 hmiss hlong =>
    intro rest
    cases hend : headerEnd (data ++ rest) with
    | none =>
      exact ⟨.error .unterminatedHeaders, .of_malformed nofun, .noHeaders hend⟩
    | some p =>
      have hlate := headerEnd_late hmiss hend
      exact ⟨_, ⟨_, rfl, fun l hl => hl⟩, .longHeaders hend (by omega)⟩
  | case2 => exact .waits
  | case3 h k hend hlong =>
    intro rest
    exact ⟨_, ⟨_, rfl, fun l hl => hl⟩, .longHeaders (headerEnd_append hend rest).1 hlong⟩
  | case4 h k hend hlong hmany =>
    intro rest
    exact ⟨_, ⟨_, rfl, fun l hl => hl⟩, .manyParts (headerEnd_append hend rest).1 hlong hmany⟩
  | case5 h k hend hlong hmany =>
    intro rest o ho
    obtain ⟨hlater, -, hk, hh⟩ := headerEnd_append hend rest
    rw [← drop_append_of_le_length hk] at ho
    have htake : (data ++ rest).take h = data.take h := take_append_of_le_length (hh.trans hk)
    rw [← htake]
    exact .headers hlater hlong hmany ho

/-! ### Content -/

/-- The first `k` bytes of what is to come are content. -/
def Content (cfg : Config) (x : Bytes) (k : Nat) : Prop :=
  findEnd cfg.delim x = (findEnd cfg.delim (x.drop k)).map (k + ·)

theorem Content.of_none (hk : k ≤ x.length)
    (h : ∀ j < k, ¬EndsAt cfg.delim x j) : Content cfg x k :=
  findEnd_skip hk h

/-- Content that was handed out is content of the whole. -/
theorem Reads.handed (hcont : Content cfg x k)
    (hfits : cfg.fits n k) (h : Reads cfg ⟨.body, c, n + k⟩ (x.drop k) o) :
    Reads cfg ⟨.body, c, n⟩ x (emit [.data (x.take k)] o) := by
  cases h with
  | @content _ _ m i _ o hend hmore h =>
    simp only [Content, hend, Option.map_some] at hcont
    rw [emit_data, ← take_add]
    refine .content (m := m) hcont ?_ ?_
    · rcases hmore with rfl | hmore
      · exact hfits
      · exact .inr (by omega)
    · rw [drop_drop] at h
      rw [add_assoc]
      exact h
  | @longContent _ _ i _ hend hmore =>
    simp only [Content, hend, Option.map_some] at hcont
    refine .longContent hcont ?_
    rintro (hzero | hall)
    · exact hmore (.inl (by omega))
    · exact hmore (.inr (by omega))
  | noContent hend =>
    rw [Content, hend] at hcont
    exact .noContent hcont

/-- Content that is too long to be handed out is refused. -/
theorem Reads.refused (hcont : Content cfg x k) (hk : k ≠ 0) (hlong : cfg.maxPartBytes - n < k) :
    ∃ o, Refuses (.limit .size) o ∧ Reads cfg ⟨.body, c, n⟩ x o := by
  rw [Content] at hcont
  cases hend : findEnd cfg.delim (x.drop k) with
  | none =>
    rw [hend] at hcont
    exact ⟨.error .unterminatedPart, .of_malformed nofun, .noContent hcont⟩
  | some i =>
    simp only [hend, Option.map_some] at hcont
    refine ⟨_, ⟨_, rfl, fun l hl => hl⟩, .longContent hcont ?_⟩
    rintro (hzero | hall)
    · omega
    · omega

variable {t : List Event → Stream → Turn Stream Event Refusal}

/-- `partData` before a round that is right for the bytes handed out. -/
theorem partData_right (hk : k ≤ data.length) (hcont : ∀ rest, Content cfg (data ++ rest) k)
    (ht : ∀ es, pieces es = pieces [.data (data.take k)] → cfg.fits n k →
      Right cfg ⟨.body, c, n⟩ data (t es ⟨.body, c, n + k⟩)) :
    Right cfg ⟨.body, c, n⟩ data (partData cfg ⟨.body, c, n⟩ (data.take k) t) := by
  have hlen : (data.take k).length = k := length_take_of_le hk
  rw [partData]
  split
  · rename_i hnil
    rw [hnil, length_nil] at hlen
    subst hlen
    exact ht [] rfl (.inl rfl)
  rename_i hne
  split
  · rename_i hlong
    rw [hlen] at hlong
    intro rest
    refine Reads.refused (hcont rest) ?_ hlong
    rintro rfl
    exact hne take_zero
  · rename_i hlong
    rw [hlen] at hlong ⊢
    have hfits : ¬cfg.maxPartBytes - n < k := hlong
    exact ht [.data (data.take k)] rfl (.inr (by omega))

theorem GoesOn.hands (hk : k ≤ data.length) (hes : pieces es = pieces [.data (data.take k)])
    (hfits : cfg.fits n k) (hcont : ∀ rest, Content cfg (data ++ rest) k) :
    GoesOn cfg ⟨.body, c, n⟩ data k es ⟨.body, c, n + k⟩ := by
  intro rest o ho
  rw [← drop_append_of_le_length hk] at ho
  rw [emit_congr hes, ← take_append_of_le_length hk]
  exact ho.handed (hcont rest) hfits

/-- Before a delimiter that is the first there is content. -/
theorem content_before {i : Nat} (hfind : findSub cfg.delim data = some i)
    (rest : Bytes) : Content cfg (data ++ rest) i := by
  have hfit := findSub_le hfind (delim_ne cfg)
  refine .of_none (by rw [length_append]; omega) fun j hj hends => ?_
  exact (findSub_some hfind).2 j hj ((prefix_drop_append (by omega)).mp hends.1)

theorem accepted_append {suffix : Bytes} (h : accepted suffix = true)
    (rest : Bytes) : accepted (suffix ++ rest) = true := by
  simp only [accepted, or_eq_true, decide_eq_true_eq] at h ⊢
  rcases h with (h | h) | h
  · exact .inl (.inl (h.trans (prefix_append _ _)))
  · exact .inl (.inr (h.trans (prefix_append _ _)))
  · cases suffix with
    | nil => cases h
    | cons b suffix => exact .inr h

/-- A suffix that is decided stays refused. -/
theorem refused_append {suffix : Bytes} (hund : undecided suffix = false)
    (h : accepted suffix = false) (rest : Bytes) : accepted (suffix ++ rest) = false := by
  match suffix, hund, h with
  | [], hund, _ => cases hund
  | [a], hund, h =>
    simp only [undecided, accepted, or_eq_false_iff, decide_eq_false_iff_not] at hund h ⊢
    obtain ⟨⟨-, hdash⟩, hcr⟩ := hund
    refine ⟨⟨fun hpre => hcr ?_, fun hpre => hdash ?_⟩, h.2⟩
    · rw [(cons_prefix_cons.mp hpre).1]
    · rw [← (cons_prefix_cons.mp hpre).1]
      rfl
  | a :: b :: suffix, _, h =>
    simp only [accepted, or_eq_false_iff, decide_eq_false_iff_not] at h ⊢
    have htwo : 2 ≤ (a :: b :: suffix).length := Nat.le_add_left ..
    exact ⟨⟨not_prefix_append h.1.1 htwo rest, not_prefix_append h.1.2 htwo rest⟩, h.2⟩

theorem body_right : Right cfg ⟨.body, c, n⟩ data (bodyTurn cfg ⟨.body, c, n⟩ data) := by
  have hpos := length_pos_iff.mpr (delim_ne cfg)
  rw [bodyTurn]
  split
  · rename_i hmiss
    have hsafe : data.length + 1 - cfg.delim.length ≤ data.length := by omega
    have hcont : ∀ rest, Content cfg (data ++ rest) (data.length + 1 - cfg.delim.length) := by
      intro rest
      refine .of_none (by rw [length_append]; omega) fun j hj hends => ?_
      exact findSub_none hmiss j ((prefix_drop_append (by omega)).mp hends.1)
    exact partData_right hsafe hcont fun es hes hfits =>
      GoesOn.hands hsafe hes hfits hcont
  · rename_i i hfind
    have hfit := findSub_le hfind (delim_ne cfg)
    have hbef := content_before hfind
    have hi : i ≤ data.length := by omega
    have hat : ∀ rest, cfg.delim <+: (data ++ rest).drop i := fun rest =>
      (prefix_drop_append hfit).mpr (findSub_some hfind).1
    dsimp only
    split
    · exact partData_right hi hbef fun es hes hfits =>
        GoesOn.hands hi hes hfits hbef
    rename_i hund
    split
    · rename_i hacc
      refine partData_right hi hbef fun es hes hfits => ?_
      intro rest o ho
      rw [← drop_append_of_le_length hfit] at ho
      have hends : findEnd cfg.delim (data ++ rest) = some i := by
        rw [hbef rest, findEnd_at]
        · rfl
        · refine ⟨hat rest, ?_⟩
          rw [zero_add, drop_drop, drop_append_of_le_length hfit]
          exact accepted_append hacc rest
        · intro hnil
          have := (hat rest).length_le
          rw [hnil, length_nil] at this
          omega
      have hev : pieces (es ++ [.finish]) = pieces [.data ((data ++ rest).take i), .finish] := by
        rw [pieces_append, hes, ← pieces_append, take_append_of_le_length hi]
        rfl
      rw [emit_congr hev]
      exact .content hends hfits ho
    · rename_i hacc
      have hone : i + 1 ≤ data.length := by omega
      have hcont : ∀ rest, Content cfg (data ++ rest) (i + 1) := by
        intro rest
        refine .of_none (by rw [length_append]; omega) fun j hj hends => ?_
        rcases lt_or_ge j i with hlt | hge
        · exact (findSub_some hfind).2 j hlt ((prefix_drop_append (by omega)).mp hends.1)
        · obtain rfl : j = i := by omega
          have href := refused_append (eq_false_iff.mpr hund) (eq_false_iff.mpr hacc) rest
          rw [← drop_append_of_le_length hfit] at href
          exact nomatch href.symm.trans hends.2
      exact partData_right hone hcont fun es hes hfits =>
        GoesOn.hands hone hes hfits hcont

/-! ### The closing boundary -/

theorem close_right : Right cfg ⟨.close, c, n⟩ data (closeTurn ⟨.close, c, n⟩ data) := by
  rw [closeTurn]
  split
  · exact .waits
  rename_i hopen
  obtain ⟨hne, hcr⟩ := not_or.mp hopen
  split
  · rename_i hcrlf
    intro rest o ho
    obtain rfl : o = .ok [] := by
      cases ho
      rfl
    refine .ends (.inr ?_)
    rw [dropWhile_append_of_ne hne]
    exact hcrlf.trans (prefix_append _ _)
  · rename_i hcrlf
    intro rest
    refine ⟨.error .closingBoundary, .of_malformed nofun, .badEnd ?_⟩
    rw [dropWhile_append_of_ne hne]
    rintro (hnil | hpre)
    · exact hne (append_eq_nil_iff.mp hnil).1
    · match h : data.dropWhile isOws with
      | [] => exact hne h
      | [a] =>
        rw [h] at hpre hcr
        refine hcr ?_
        rw [← (cons_prefix_cons.mp hpre).1]
      | a :: b :: more =>
        rw [h] at hpre hcrlf
        exact not_prefix_append hcrlf (Nat.le_add_left ..) rest hpre

include hroom in
theorem turn_right (s : Stream) (data : Bytes) : Right cfg s data (turn cfg s data) := by
  obtain ⟨phase, c, n⟩ := s
  cases phase with
  | preamble start => exact preamble_right
  | boundary => exact boundary_right
  | headers => exact headers_right hroom
  | body => exact body_right
  | close => exact close_right
  | epilogue => exact GoesOn.waits

/-! ## What is held back -/

/-- The parser waits: what it holds back, and why it does not go on. -/
inductive Rest (cfg : Config) : Held → Prop where
  | preamble {start : Bool} {c n : Nat} {x : Bytes}
      (hlen : x.length < cfg.delim.length)
      (hopen : ¬(start = true ∧ opening cfg.boundary <+: x)) :
      Rest cfg (⟨.preamble start, c, n⟩, x)
  | boundary {c n : Nat} {x : Bytes} (hdash : ¬dashes <+: x)
      (hlen : x.length < (x.takeWhile isOws).length + 2) :
      Rest cfg (⟨.boundary, c, n⟩, x)
  | headers {c n : Nat} {x : Bytes} (hend : headerEnd x = none)
      (hlen : x.length ≤ headerRoom cfg) :
      Rest cfg (⟨.headers, c, n⟩, x)
  | body {c n : Nat} {x : Bytes} (hend : findEnd cfg.delim x = none)
      (hlen : x.length ≤ cfg.delim.length + 1) : Rest cfg (⟨.body, c, n⟩, x)
  | close {c n : Nat} {x : Bytes}
      (hend : x.dropWhile isOws = [] ∨ x.dropWhile isOws = [cr]) :
      Rest cfg (⟨.close, c, n⟩, x)
  | epilogue {c n : Nat} : Rest cfg (⟨.epilogue, c, n⟩, [])

theorem Rest.init (cfg : Config) : Rest cfg (Stream.init, []) := by
  refine .preamble (length_pos_iff.mpr (delim_ne cfg)) ?_
  rintro ⟨-, hpre⟩
  exact nomatch prefix_nil.mp hpre

/-- Less than a delimiter and two bytes, with none at the start, ends no part. -/
theorem findEnd_short (hlen : x.length ≤ cfg.delim.length + 1)
    (hfirst : ¬EndsAt cfg.delim x 0) : findEnd cfg.delim x = none := by
  rw [findEnd_skip (le_refl x.length), drop_length]
  · rfl
  · intro j hj hends
    rcases Nat.eq_zero_or_pos j with rfl | hpos
    · exact hfirst hends
    · have hacc := hends.2
      rw [drop_eq_nil_of_le (by omega)] at hacc
      cases hacc

/-- What a round leaves: it goes on after consuming, or it waits. -/
def Leaves (cfg : Config) (data : Bytes) : Turn Stream Event Refusal → Prop
  | .go n _ s' => 0 < n ∧ n ≤ data.length ∧ s'.phase ≠ .epilogue
  | .pause n _ s' => Rest cfg (s', data.drop n)
  | .fail _ => True

theorem preamble_leaves : Leaves cfg data
    (preambleTurn cfg ⟨.preamble start, c, n⟩ start data) := by
  have hopening : (opening cfg.boundary).length + 2 = cfg.delim.length := by
    rw [delim_length, opening, length_append]
    show 2 + _ + 2 = _
    omega
  fun_cases preambleTurn cfg ⟨.preamble start, c, n⟩ start data with
  | case1 hopen =>
    exact ⟨by rw [opening, length_append]; exact Nat.add_pos_left Nat.two_pos _,
      hopen.2.length_le, nofun⟩
  | case2 hopen | case5 hopen => exact .preamble (by rw [drop_zero]; omega) hopen
  | case3 _ _ i hfind => exact ⟨by omega, findSub_le hfind (delim_ne cfg), nofun⟩
  | case4 =>
    refine .preamble ?_ (fun h => nomatch h.1)
    rw [length_drop]
    omega

theorem boundary_leaves : Leaves cfg data (boundaryTurn ⟨.boundary, c, n⟩ data) := by
  rw [boundaryTurn]
  split
  · rename_i hdash
    exact ⟨Nat.two_pos, hdash.length_le, nofun⟩
  rename_i hdash
  dsimp only
  split
  · rename_i hlen
    exact .boundary hdash hlen
  split
  · exact ⟨Nat.succ_pos _, by omega, nofun⟩
  · trivial

theorem headers_leaves : Leaves cfg data (headersTurn cfg ⟨.headers, c, n⟩ data) := by
  fun_cases headersTurn cfg ⟨.headers, c, n⟩ data with
  | case1 | case3 | case4 => trivial
  | case2 hmiss hlen => exact .headers hmiss (by rw [drop_zero]; omega)
  | case5 h k hend =>
    obtain ⟨-, hpos, hk, -⟩ := headerEnd_append hend []
    exact ⟨hpos, hk, nofun⟩

theorem partData_leaves {bytes : Bytes} (ht : ∀ es m, Leaves cfg data (t es ⟨.body, c, m⟩)) :
    Leaves cfg data (partData cfg ⟨.body, c, n⟩ bytes t) := by
  rw [partData]
  split
  · exact ht _ _
  split
  · trivial
  · exact ht _ _

theorem body_leaves : Leaves cfg data (bodyTurn cfg ⟨.body, c, n⟩ data) := by
  have hpos := length_pos_iff.mpr (delim_ne cfg)
  rw [bodyTurn]
  split
  · refine partData_leaves fun es m => .body ?_ ?_
    · refine findEnd_short (by rw [length_drop]; omega) fun hends => ?_
      have hle := hends.1.length_le
      rw [drop_zero, length_drop] at hle
      omega
    · rw [length_drop]
      omega
  · rename_i i hfind
    have hfit := findSub_le hfind (delim_ne cfg)
    dsimp only
    split
    · rename_i hund
      have hsuffix : (data.drop (i + cfg.delim.length)).length ≤ 1 ∧
          accepted (data.drop (i + cfg.delim.length)) = false := by
        simp only [undecided, or_eq_true, decide_eq_true_eq] at hund
        rcases hund with (hund | hund) | hund
        all_goals
          rw [hund]
          exact ⟨by decide, by decide⟩
      have hlen := hsuffix.1
      rw [length_drop] at hlen
      refine partData_leaves fun es m => .body ?_ ?_
      · refine findEnd_short (by rw [length_drop]; omega) fun hends => ?_
        have hacc := hends.2
        rw [zero_add, drop_drop] at hacc
        exact nomatch hsuffix.2.symm.trans hacc
      · rw [length_drop]
        omega
    split
    · exact partData_leaves fun es m => ⟨by omega, hfit, nofun⟩
    · exact partData_leaves fun es m => ⟨Nat.succ_pos i, by omega, nofun⟩

theorem close_leaves : Leaves cfg data (closeTurn ⟨.close, c, n⟩ data) := by
  rw [closeTurn]
  split
  · rename_i hend
    exact .close hend
  split
  · show Rest cfg (_, data.drop data.length)
    rw [drop_length]
    exact .epilogue
  · trivial

theorem turn_leaves (hs : s.phase ≠ .epilogue) : Leaves cfg data (turn cfg s data) := by
  obtain ⟨phase, c, n⟩ := s
  cases phase with
  | preamble start => exact preamble_leaves
  | boundary => exact boundary_leaves
  | headers => exact headers_leaves
  | body => exact body_leaves
  | close => exact close_leaves
  | epilogue => exact absurd rfl hs

/-! ## Feeds -/

/-- What the parser makes of the input after what it holds back. -/
def Means (cfg : Config) (h : Held) (x : Bytes) (o : Outcome) : Prop := Reads cfg h.1 (h.2 ++ x) o

variable {h h' : Held} {chunk : Bytes}

include hroom in
theorem turn_agrees : Agrees (turn cfg) emit (Reads cfg) := by
  intro s data n es s' hturn
  have hright := turn_right hroom s data
  rcases hturn with hgo | hpause
  · rw [hgo] at hright
    exact hright
  · rw [hpause] at hright
    exact hright

include hroom in
theorem turn_failsRightly : FailsRightly (turn cfg) (Reads cfg) Refuses := by
  intro s data e hfail
  have hright := turn_right hroom s data
  rw [hfail] at hright
  exact hright

theorem turn_go (hgo : turn cfg s data = .go n es s') :
    0 < n ∧ n ≤ data.length ∧ s'.phase ≠ .epilogue := by
  by_cases hs : s.phase = .epilogue
  · rw [turn, hs] at hgo
    cases hgo
  · have hleaves : Leaves cfg data (turn cfg s data) := turn_leaves hs
    rw [hgo] at hleaves
    exact hleaves

theorem reads_epilogue (hs : s.phase = .epilogue) : Reads cfg s x o ↔ o = .ok [] := by
  obtain ⟨phase, c, n⟩ := s
  obtain rfl : phase = .epilogue := hs
  constructor
  · intro h
    cases h
    rfl
  · rintro rfl
    exact .after

include hroom in
theorem feed_means (hfeed : feed cfg h chunk = .ok (es, h')) :
    ∀ rest o, Means cfg h' rest o → Means cfg h (chunk ++ rest) (emit es o) := by
  intro rest o ho
  rw [feed] at hfeed
  split at hfeed
  · rename_i hclosed
    cases hfeed
    obtain rfl := (reads_epilogue hclosed).mp ho
    exact (reads_epilogue hclosed).mpr rfl
  · have hloop := Resumable.loop_means emit_nil emit_append (turn_agrees hroom) hfeed rest o ho
    rw [append_assoc] at hloop
    exact hloop

include hroom in
theorem feed_fails (hfeed : feed cfg h chunk = .error e) :
    ∀ rest, ∃ o, Refuses e o ∧ Means cfg h (chunk ++ rest) o := by
  intro rest
  rw [feed] at hfeed
  split at hfeed
  · cases hfeed
  · obtain ⟨o, ho, hreads⟩ := Resumable.loop_fails
      (fun es e o ho => ho.emit es) (turn_agrees hroom) (turn_failsRightly hroom)
      hfeed rest
    rw [append_assoc] at hreads
    exact ⟨o, ho, hreads⟩

/-- After a feed the parser waits. -/
theorem feed_rest (hrest : Rest cfg h) (hfeed : feed cfg h chunk = .ok (es, h')) : Rest cfg h' := by
  rw [feed] at hfeed
  split at hfeed
  · cases hfeed
    exact hrest
  · rename_i hopen
    obtain ⟨s', data'⟩ := h'
    obtain ⟨s₀, data₀, m, es₀, hs₀, hpause, rfl⟩ := Resumable.loop_rests
      (fun _ _ _ _ _ hgo => turn_go hgo) (Nat.lt_succ_self _) hopen hfeed
    have hleaves : Leaves cfg data₀ (turn cfg s₀ data₀) := turn_leaves hs₀
    rw [hpause] at hleaves
    exact hleaves

/-- At the end, a parser that waits is done or has been cut short. -/
theorem finish_means (hrest : Rest cfg h) : (finish h = .ok () ∧ Means cfg h [] (.ok [])) ∨
      ∃ e o, finish h = .error e ∧ Refuses e o ∧ Means cfg h [] o := by
  simp only [Means, append_nil]
  cases hrest with
  | @preamble _ _ _ x hlen hopen =>
    refine .inr ⟨_, .error .boundaryNotFound, if_neg (by simp),
      .of_malformed nofun, .noBoundary hopen ?_⟩
    cases hfind : findSub cfg.delim x with
    | none => rfl
    | some i =>
      have := findSub_le hfind (delim_ne cfg)
      omega
  | @boundary _ _ x hdash hlen =>
    refine .inr ⟨_, .error .boundaryLine, if_neg (by simp), .of_malformed nofun, .badLine hdash ?_⟩
    intro hline
    have hle : 2 ≤ (x.dropWhile isOws).length := hline.length_le
    rw [← drop_takeWhile_length, length_drop] at hle
    omega
  | headers hend =>
    exact .inr ⟨_, .error .unterminatedHeaders, if_neg (by simp),
      .of_malformed nofun, .noHeaders hend⟩
  | body hend =>
    exact .inr ⟨_, .error .unterminatedPart, if_neg (by simp), .of_malformed nofun, .noContent hend⟩
  | @close _ _ x hend =>
    rcases hend with hnil | hcr
    · refine .inl ⟨if_pos (.inr ⟨rfl, ?_⟩), .ends (.inl hnil)⟩
      exact all_eq_true.mpr (dropWhile_eq_nil_iff.mp hnil)
    · refine .inr ⟨_, .error .closingBoundary, if_neg ?_, .of_malformed nofun, .badEnd ?_⟩
      · rintro (hph | ⟨-, hall⟩)
        · cases hph
        · rw [dropWhile_eq_nil_iff.mpr (all_eq_true.mp hall)] at hcr
          cases hcr
      · rw [hcr]
        decide
  | epilogue => exact .inl ⟨if_pos (.inl rfl), .after⟩

include hroom in
/-- **CHUNKS DO NOT MATTER**: however a body is cut, feeding it and finishing gives what
    `Reads` says of the whole. -/
theorem stream_reads (hvalid : boundaryValid cfg.boundary = true) (chunks : List Bytes) :
    (∃ es, stream cfg chunks = .ok es ∧ Reads cfg Stream.init chunks.flatten (.ok (pieces es))) ∨
    ∃ e o, stream cfg chunks = .error e ∧ Refuses e o ∧ Reads cfg Stream.init chunks.flatten o := by
  have hopen : openStream cfg = .ok (Stream.init, []) := if_pos hvalid
  simp only [stream, hopen]
  cases hfeeds : Resumable.feeds (feed cfg) (Stream.init, []) chunks with
  | error e =>
    obtain ⟨o, ho, hreads⟩ := Resumable.feeds_fails
      (fun es e o ho => Refuses.emit es ho) (fun _ _ _ _ => feed_means hroom)
      (fun _ _ _ => feed_fails hroom) hfeeds []
    rw [append_nil] at hreads
    exact .inr ⟨e, o, rfl, ho, hreads⟩
  | ok p =>
    obtain ⟨es, h⟩ := p
    have hrest : Rest cfg h := Resumable.feeds_invariant
      (fun _ _ _ _ => feed_rest) (Rest.init cfg) hfeeds
    have hmeans := Resumable.feeds_means emit_nil emit_append
      (fun _ _ _ _ => feed_means hroom) hfeeds []
    rw [append_nil] at hmeans
    rcases finish_means hrest with ⟨hdone, hreads⟩ | ⟨e, o, hcut, ho, hreads⟩
    · refine .inl ⟨es, by simp only [hdone], ?_⟩
      have hall := hmeans _ hreads
      rw [emit, Except.map, append_nil] at hall
      exact hall
    · exact .inr ⟨e, emit es o, by simp only [hcut], ho.emit es, hmeans o hreads⟩

/-! ## The complete parser -/

/-- Parts before their header lines are looked at. -/
abbrev Raw := Bytes × Bytes

def Raw.pieces (p : Raw) : List Piece := .head p.1 :: (p.2.map .byte ++ [.fin])

/-- The header lines of a part. -/
def withHeaders (p : Raw) : Except Refusal Part :=
  match parsePartHeaders p.1 with
  | .error e => .error e
  | .ok headers => .ok (headers, p.2)

def allHeaders : List Raw → Except Refusal (List Part)
  | [] => .ok []
  | p :: ps =>
    match withHeaders p with
    | .error e => .error e
    | .ok part => (allHeaders ps).map (part :: ·)

/-- Limits of the complete parser against those of the streaming one: the number of parts is
    looked at before the headers, not after. -/
def sameLimit (l l' : Limit) : Prop := l' = l ∨ (l = .parts ∧ l' = .headers)

/-- The complete parser against an outcome of the streaming one. -/
inductive Whole : Except Refusal (List Part) → Outcome → Prop where
  | parts (raw : List Raw) : Whole (allHeaders raw) (.ok (raw.flatMap Raw.pieces))
  | refused {e r : Refusal}
      (h : ∀ l, e = .limit l → ∃ l', r = .limit l' ∧ sameLimit l l') :
      Whole (.error e) (.error r)

/-- A limit for the complete parser and for the streaming one. -/
theorem exceeds_eq {limit : Int} (hlimit : 0 ≤ limit) (n : Nat) :
    exceeds limit n = decide (limit < n) := by
  rw [exceeds, decide_eq_true hlimit, Bool.true_and]

variable {l : Limit}

theorem partHeaderLine_malformed {line : Bytes}
    (h : partHeaderLine line = .error e) : e ≠ .limit l := by
  rintro rfl
  revert h
  fun_cases partHeaderLine line with
  | _ => rintro ⟨⟩

theorem mapM_error {α β : Type} {f : α → Except Refusal β} {xs : List α}
    (h : xs.mapM f = .error e) : ∃ x ∈ xs, f x = .error e := by
  induction xs with
  | nil => cases h
  | cons x xs ih =>
    rw [mapM_cons] at h
    cases hx : f x with
    | error e' =>
      rw [hx] at h
      obtain rfl : e' = e := Except.error.inj h
      exact ⟨x, mem_cons_self, hx⟩
    | ok y =>
      rw [hx] at h
      cases hxs : xs.mapM f with
      | error e' =>
        rw [hxs] at h
        obtain rfl : e' = e := Except.error.inj h
        obtain ⟨x', hmem, hx'⟩ := ih hxs
        exact ⟨x', mem_cons_of_mem _ hmem, hx'⟩
      | ok ys =>
        rw [hxs] at h
        cases h

theorem withHeaders_malformed {p : Raw} (h : withHeaders p = .error e) : e ≠ .limit l := by
  rw [withHeaders] at h
  split at h
  · rename_i hparse
    obtain ⟨line, -, hline⟩ := mapM_error hparse
    obtain rfl := Except.error.inj h
    exact partHeaderLine_malformed hline
  · cases h

theorem allHeaders_malformed {raw : List Raw} (h : allHeaders raw = .error e) : e ≠ .limit l := by
  fun_induction allHeaders raw with
  | case1 => cases h
  | case2 p raw e' hp =>
    cases h
    exact withHeaders_malformed hp
  | case3 p raw part hp ih =>
    cases hraw : allHeaders raw with
    | error e' =>
      rw [hraw] at h
      cases h
      exact ih hraw
    | ok parts =>
      rw [hraw] at h
      cases h

/-- A part before the parts after it. -/
theorem Whole.cons {r : Except Refusal (List Part)} (p : Raw) (h : Whole r o) :
    Whole (match withHeaders p with
      | .error e => .error e
      | .ok part => r.map (part :: ·))
      (emit [.headers p.1] (emit [.data p.2, .finish] o)) := by
  cases h with
  | parts raw =>
    exact .parts (p :: raw)
  | refused h =>
    cases hp : withHeaders p with
    | error e => exact .refused fun l hl => absurd hl (withHeaders_malformed hp)
    | ok part => exact .refused h

variable (hparts : 0 ≤ cfg.maxParts) (hheaders : 0 ≤ cfg.maxHeaderBytes)
  (hsize : 0 ≤ cfg.maxPartBytes)

theorem refused_limit : Whole (.error (.limit l)) (.error (.limit l)) :=
  .refused fun _ hl => ⟨l, rfl, .inl (Refusal.limit.inj hl)⟩

theorem refused_malformed {r : Refusal} (h : ∀ l, e ≠ .limit l) : Whole (.error e) (.error r) :=
  .refused fun l hl => absurd hl (h l)

include hparts hheaders hsize in
/-- From the end of a boundary line: both refuse, or both find the same part and go on from
    the same place. -/
theorem nextPart_cases {y : Bytes} (h : Reads cfg ⟨.headers, c, n⟩ y o) :
    (∃ e, nextPart cfg c y = .error e ∧ Whole (.error e) o) ∨
    ∃ (p : Raw) (m : Nat) (rest : Bytes) (o' : Outcome),
      nextPart cfg c y = (withHeaders p).map (·, rest) ∧
      rest.length < y.length ∧ Reads cfg ⟨.boundary, c + 1, m⟩ rest o' ∧
      o = emit [.headers p.1] (emit [.data p.2, .finish] o') := by
  cases h with
  | noHeaders hend =>
    refine .inl ⟨.unterminatedHeaders, ?_, refused_malformed nofun⟩
    simp only [nextPart, hend]
  | @longHeaders _ _ h k _ hend hlong =>
    cases hsome : findEnd cfg.delim (y.drop k) with
    | none =>
      refine .inl ⟨.unterminatedPart, ?_, refused_malformed nofun⟩
      simp only [nextPart, hend, hsome]
    | some i =>
      by_cases hmany : cfg.maxParts < (c + 1 : Nat)
      · refine .inl ⟨.limit .parts, ?_, .refused fun l hl => ?_⟩
        · simp only [nextPart, hend, hsome, exceeds_eq hparts, decide_eq_true hmany, if_true]
        · exact ⟨.headers, rfl, .inr ⟨(Refusal.limit.inj hl).symm, rfl⟩⟩
      · refine .inl ⟨.limit .headers, ?_, refused_limit⟩
        simp only [nextPart, hend, hsome, exceeds_eq hparts,
          exceeds_eq hheaders, decide_eq_false hmany, decide_eq_true hlong,
          if_true, false_eq_true, if_false]
  | @manyParts _ _ h k _ hend hlong hmany =>
    cases hsome : findEnd cfg.delim (y.drop k) with
    | none =>
      refine .inl ⟨.unterminatedPart, ?_, refused_malformed nofun⟩
      simp only [nextPart, hend, hsome]
    | some i =>
      have hmany' : cfg.maxParts < (c + 1 : Nat) := by omega
      refine .inl ⟨.limit .parts, ?_, refused_limit⟩
      simp only [nextPart, hend, hsome, exceeds_eq hparts, decide_eq_true hmany', if_true]
  | @headers _ _ h k _ o hend hlong hmany hbody =>
    have hmany' : ¬cfg.maxParts < (c + 1 : Nat) := by omega
    cases hbody with
    | noContent hnone =>
      refine .inl ⟨.unterminatedPart, ?_, refused_malformed nofun⟩
      simp only [nextPart, hend, hnone]
    | @longContent _ _ i _ hsome hfits =>
      have hlong' : cfg.maxPartBytes < i := by
        obtain ⟨-, hover⟩ := not_or.mp hfits
        omega
      refine .inl ⟨.limit .size, ?_, refused_limit⟩
      simp only [nextPart, hend, hsome, exceeds_eq hparts,
        exceeds_eq hheaders, exceeds_eq hsize, decide_eq_false hmany',
        decide_eq_false hlong, decide_eq_true hlong', if_true,
        false_eq_true, if_false]
    | @content _ _ m i _ o hsome hfits hrest =>
      have hlong' : ¬cfg.maxPartBytes < i := by
        rcases hfits with rfl | hfits
        · omega
        · omega
      refine .inr ⟨(y.take h, (y.drop k).take i), m, _, o, ?_, ?_, hrest, rfl⟩
      · simp only [nextPart, hend, hsome, exceeds_eq hparts,
          exceeds_eq hheaders, exceeds_eq hsize, decide_eq_false hmany',
          decide_eq_false hlong, decide_eq_false hlong',
          false_eq_true, if_false, withHeaders]
        cases parsePartHeaders (y.take h) with
        | error | ok => rfl
      · obtain ⟨-, hpos, hk, -⟩ := headerEnd_append hend []
        rw [length_drop, length_drop]
        omega

include hparts hheaders hsize in
/-- From the end of a delimiter the two parsers agree. -/
theorem parseParts_whole {f c n : Nat} (hf : x.length < f)
    (h : Reads cfg ⟨.boundary, c, n⟩ x o) : Whole (parseParts cfg f c x) o := by
  induction f generalizing c n x o with
  | zero => exact absurd hf (Nat.not_lt_zero _)
  | succ f ih =>
    cases h with
    | closes hdash h =>
      rw [parseParts, if_pos hdash]
      cases h with
      | ends hend =>
        simp only [if_pos hend]
        exact .parts []
      | badEnd hend =>
        simp only [if_neg hend]
        exact refused_malformed nofun
    | badLine hdash hline =>
      rw [parseParts, if_neg hdash]
      simp only [if_neg hline]
      exact refused_malformed nofun
    | line hdash hline h =>
      rw [parseParts, if_neg hdash]
      simp only [if_pos hline]
      have hlen : ((x.dropWhile isOws).drop 2).length ≤ x.length := by
        rw [length_drop]
        exact (Nat.sub_le _ _).trans (length_dropWhile_le ..)
      rcases nextPart_cases hparts hheaders hsize h with
        ⟨e, hnext, hwhole⟩ | ⟨p, m, rest, o', hnext, hshort, hrest, rfl⟩
      · rw [hnext]
        exact hwhole
      · have hmore := (ih (lt_of_lt_of_le hshort (by omega)) hrest).cons p
        rw [hnext]
        cases hp : withHeaders p with
        | error | ok =>
          rw [hp] at hmore
          exact hmore

include hparts hheaders hsize in
theorem parse_whole (hvalid : boundaryValid cfg.boundary = true) {body : Bytes}
    (h : Reads cfg Stream.init body o) : Whole (parse cfg body) o := by
  rw [parse, if_pos hvalid, afterPreamble]
  cases h with
  | opens _ hopen h =>
    rw [if_pos hopen]
    refine parseParts_whole hparts hheaders hsize ?_ h
    rw [length_drop]
    omega
  | skips hopen hfind h =>
    rw [if_neg fun hpre => hopen ⟨rfl, hpre⟩, hfind]
    refine parseParts_whole hparts hheaders hsize ?_ h
    rw [length_drop]
    omega
  | noBoundary hopen hfind =>
    rw [if_neg fun hpre => hopen ⟨rfl, hpre⟩, hfind]
    exact refused_malformed nofun

/-! ## Parts from events -/

/-- The parts that a consumer of the events puts together. -/
def assemble : Option Raw → List Event → List Raw
  | _, [] => []
  | _, .headers block :: es => assemble (some (block, [])) es
  | cur, .data bytes :: es =>
    assemble (cur.map fun p => (p.1, p.2 ++ bytes)) es
  | cur, .finish :: es => cur.toList ++ assemble none es

/-- The same from pieces. -/
def assemblePieces : Option Raw → List Piece → List Raw
  | _, [] => []
  | _, .head block :: ps => assemblePieces (some (block, [])) ps
  | cur, .byte b :: ps =>
    assemblePieces (cur.map fun p => (p.1, p.2 ++ [b])) ps
  | cur, .fin :: ps => cur.toList ++ assemblePieces none ps

theorem assemblePieces_bytes (bytes : Bytes) (p : Option Raw) (ps : List Piece) :
    assemblePieces p (bytes.map .byte ++ ps) =
      assemblePieces (p.map fun p => (p.1, p.2 ++ bytes)) ps := by
  induction bytes generalizing p with
  | nil => cases p <;> simp
  | cons b bytes ih =>
    rw [map_cons, cons_append, assemblePieces, ih]
    cases p <;> simp

/-- It does not matter how the content was cut into events. -/
theorem assemble_pieces (es : List Event) (p : Option Raw) :
    assemble p es = assemblePieces p (pieces es) := by
  fun_induction assemble p es with
  | case1 => rfl
  | case2 _ _ _ ih => exact ih
  | case3 p bytes es ih =>
    rw [ih]
    exact (assemblePieces_bytes bytes p (pieces es)).symm
  | case4 p es ih => exact congrArg (p.toList ++ ·) ih

theorem assemblePieces_raw :
    ∀ raw : List Raw, assemblePieces none (raw.flatMap Raw.pieces) = raw := by
  intro raw
  induction raw with
  | nil => rfl
  | cons p raw ih =>
    rw [flatMap_cons, Raw.pieces, cons_append, assemblePieces, append_assoc, assemblePieces_bytes]
    exact congrArg (p :: ·) ih

/-! ## Both parsers -/

/-- Padding after a delimiter, which may be of any length, and what is held back beside it. -/
def HeldBack (cfg : Config) (h : Held) : Prop :=
  ∃ pad held, h.2 = pad ++ held ∧ pad.all isOws = true ∧
    (pad ≠ [] → h.1.phase = .boundary ∨ h.1.phase = .close) ∧
    (held.length : Int) ≤ max (cfg.boundary.length + 5 : Int) (cfg.maxHeaderBytes + 3)

include hroom in
theorem Rest.heldBack (hrest : Rest cfg h) : HeldBack cfg h := by
  obtain ⟨s, x⟩ := h
  have hdelim := delim_length cfg
  have hplain : (x.length : Int) ≤ max (cfg.boundary.length + 5 : Int) (cfg.maxHeaderBytes + 3) →
      HeldBack cfg (s, x) :=
    fun hlen => ⟨[], x, rfl, rfl, fun hne => absurd rfl hne, hlen⟩
  have hpadded : (x.dropWhile isOws).length ≤ 1 →
      s.phase = .boundary ∨ s.phase = .close → HeldBack cfg (s, x) := by
    intro hlen hph
    refine ⟨x.takeWhile isOws, x.dropWhile isOws,
      takeWhile_append_dropWhile.symm, ?_, fun _ => hph, by omega⟩
    exact all_eq_true.mpr fun b hb => mem_takeWhile_imp hb
  cases hrest with
  | preamble | headers | body => exact hplain (by omega)
  | boundary hdash hlen =>
    refine hpadded ?_ (.inl rfl)
    rw [← drop_takeWhile_length, length_drop]
    omega
  | close hend =>
    refine hpadded ?_ (.inr rfl)
    rcases hend with hend | hend
    · rw [hend]
      exact Nat.zero_le 1
    · rw [hend]
      exact le_refl 1
  | epilogue => exact hplain (by rw [length_nil]; omega)

include hparts hheaders hsize hroom in
/-- What both parsers make of a body, however it is cut. -/
theorem both (chunks : List Bytes) : (∃ es, stream cfg chunks = .ok es ∧
      parse cfg chunks.flatten = allHeaders (assemble none es)) ∨
    ∃ e e', stream cfg chunks = .error e ∧ parse cfg chunks.flatten = .error e' ∧
      ∀ l, e' = .limit l → ∃ l', e = .limit l' ∧ sameLimit l l' := by
  by_cases hvalid : boundaryValid cfg.boundary = true
  · rcases stream_reads hroom hvalid chunks with ⟨es, hok, hreads⟩ | ⟨e, o, herr, ho, hreads⟩
    · have hwhole := parse_whole hparts hheaders hsize hvalid hreads
      generalize hp : pieces es = ps at hwhole
      generalize parse cfg chunks.flatten = r at hwhole
      cases hwhole with
      | parts raw =>
        refine .inl ⟨es, hok, ?_⟩
        rw [assemble_pieces, hp, assemblePieces_raw]
    · obtain ⟨r, rfl, hr⟩ := ho
      have hwhole := parse_whole hparts hheaders hsize hvalid hreads
      generalize parse cfg chunks.flatten = r' at hwhole
      cases hwhole with
      | refused hlimit =>
        refine .inr ⟨e, _, herr, rfl, fun l hl => ?_⟩
        obtain ⟨l', hl', hsame⟩ := hlimit l hl
        exact ⟨l', hr l' hl', hsame⟩
  · refine .inr ⟨.badBoundary, .badBoundary, ?_, ?_, nofun⟩
    · simp only [stream, openStream, if_neg hvalid]
    · rw [parse, if_neg hvalid]

/-- **STREAMING EQUALS ONE-SHOT**: for every boundary, body and way of cutting it, with limits that
    are not negative and a header limit to which three can be added, the complete parser accepts
    exactly when the streaming parser does and every header line it handed out is well formed, with
    the same parts; a limit the complete parser reports the streaming parser reports, except that of
    the parts, for which it may report that of the headers; and beside the padding after a delimiter
    no more is held back than the boundary and five bytes, or the header limit and three. -/
theorem stream_agrees (hparts : 0 ≤ cfg.maxParts) (hheaders : 0 ≤ cfg.maxHeaderBytes)
    (hfits : cfg.maxHeaderBytes + 3 < 2 ^ 63) (hsize : 0 ≤ cfg.maxPartBytes) (chunks : List Bytes) :
    (∀ parts, parse cfg chunks.flatten = .ok parts ↔ ∃ es, stream cfg chunks = .ok es ∧
        allHeaders (assemble none es) = .ok parts) ∧
    (∀ l, parse cfg chunks.flatten = .error (.limit l) →
      ∃ l', stream cfg chunks = .error (.limit l') ∧ (l' = l ∨ (l = .parts ∧ l' = .headers))) ∧
    (∀ es h, Resumable.feeds (feed cfg) (Stream.init, []) chunks = .ok (es, h) →
      HeldBack cfg h) := by
  have hroom : headerRoom cfg = cfg.maxHeaderBytes + 3 := Int.bmod_eq_of_le (by omega) (by omega)
  have hheld : ∀ es h, Resumable.feeds (feed cfg) (Stream.init, []) chunks = .ok (es, h) →
        HeldBack cfg h := fun es h hfeeds =>
    (Resumable.feeds_invariant (fun _ _ _ _ => feed_rest) (Rest.init cfg) hfeeds).heldBack hroom
  rcases both hroom hparts hheaders hsize chunks with
    ⟨es, hstream, hparse⟩ | ⟨e, e', hstream, hparse, hlimit⟩
  · refine ⟨fun parts => ?_, fun l hl => ?_, hheld⟩
    · rw [hparse]
      constructor
      · intro h
        exact ⟨es, hstream, h⟩
      · rintro ⟨es', hstream', h⟩
        obtain rfl := Except.ok.inj (hstream.symm.trans hstream')
        exact h
    · rw [hparse] at hl
      exact absurd rfl (allHeaders_malformed hl)
  · refine ⟨fun parts => ?_, fun l hl => ?_, hheld⟩
    · rw [hparse]
      constructor
      · intro h
        cases h
      · rintro ⟨es', hstream', -⟩
        exact nomatch hstream.symm.trans hstream'
    · obtain ⟨l', rfl, hsame⟩ := hlimit l (Except.error.inj (hparse.symm.trans hl))
      exact ⟨l', hstream, hsame⟩

def formConfig : Config := ⟨ascii "B", 4, 16, 16⟩

def formChunks : List Bytes :=
  [ascii "--B\r", ascii "\nA: b\r\n\r\nh", ascii "i\r\n--B-", ascii "-\r\n"]

theorem stream_agrees_form : ∃ es, stream formConfig formChunks = .ok es ∧
      allHeaders (assemble none es) = .ok [([(ascii "a", ascii "b")], ascii "hi")] := by
  have hparts : 0 ≤ formConfig.maxParts := by decide
  exact ((stream_agrees hparts (by decide) (by decide) (by decide) formChunks).1 _).mp (by rfl)

/-- A header line without a colon is handed out by the streaming parser and refused by the
    complete one; and padding after a boundary is held back, however much of it there is. -/
theorem colonless_handed_out : stream formConfig [ascii "--B\r\nA b\r\n\r\nhi\r\n--B--"] =
        .ok [.headers (ascii "A b"), .data (ascii "hi"), .finish] ∧
      parse formConfig (ascii "--B\r\nA b\r\n\r\nhi\r\n--B--") = .error .headerLine ∧
      ∃ h, Resumable.feeds (feed formConfig) (Stream.init, [])
          [ascii "--B" ++ List.replicate 60 32] = .ok ([], h) ∧
        (formConfig.boundary.length : Int) + formConfig.maxHeaderBytes + 5 < h.2.length :=
  ⟨by rfl, by rfl, (⟨.boundary, 0, 0⟩, List.replicate 60 32), by rfl, by decide⟩

end Multipart
