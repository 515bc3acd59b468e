import Mathlib.Algebra.Order.Ring.Int
import Mathlib.Data.List.Basic
import Mathlib.Data.List.DropRight
import Mathlib.Data.Nat.Basic
import Mathlib.Data.Nat.Digits.Defs
import Mathlib.Tactic.Ring

/-! # Byte strings — scanning, slicing and number formats

* `ByteScan`: ASCII literals, case folding, trimming, and the lines that CRLF ends.
* `Rope`: one string kept in pieces. `peek` copies a slice out of them and `within` finds
  one that a piece holds whole; both are slices of the string (`peek_eq`, `within_some`).
* `Frame`: fields written as length, colon, text, colon cannot run together (`frame_inj`).
* `LittleEndian`: `store w n` is `n` in `w` bytes, low byte first; `load` reads it back.
* `Base128`: groups of seven bits, low group first. `get width n` reads a number of at most
  `n` bytes into `width` bits, and the bits that do not fit are lost. -/

namespace ByteScan

open List

/-- An octet string. -/
abbrev Bytes := List UInt8

/-- The octet of an ASCII character. -/
def ch (c : Char) : UInt8 := c.toNat.toUInt8

/-- The octets of an ASCII literal. -/
def ascii (s : String) : Bytes := s.toList.map ch

/-- Carriage return. -/
def cr : UInt8 := 13

/-- Line feed. -/
def lf : UInt8 := 10

/-- The line terminator. -/
def crlf : Bytes := [cr, lf]

/-- ASCII case folding of one octet: a range test, never a bit mask. -/
def lowerByte (b : UInt8) : UInt8 := if 65 ≤ b ∧ b ≤ 90 then b + 32 else b

/-- ASCII case folding. -/
def lower (bs : Bytes) : Bytes := bs.map lowerByte

/-- Equality up to ASCII case. -/
def equalCi (a b : Bytes) : Bool := lower a == lower b

theorem lowerByte_idem (b : UInt8) : lowerByte (lowerByte b) = lowerByte b := by
  refine if_neg ?_
  rw [lowerByte]
  split
  · rename_i h
    rintro ⟨-, hle⟩
    simp only [UInt8.le_iff_toNat_le, UInt8.toNat_add] at h hle
    simp at h hle
    omega
  · assumption

/-- Folding twice is folding once. -/
theorem lower_lower (bs : Bytes) : lower (lower bs) = lower bs := by
  simp [lower, lowerByte_idem]

/-- Strip the octets satisfying `p` from both ends. -/
def trim (p : UInt8 → Bool) (bs : Bytes) : Bytes := (bs.dropWhile p).rdropWhile p

/-- The octets before the first `c`, and those after it. -/
def cutAt (c : UInt8) (bs : Bytes) : Bytes × Bytes :=
  (bs.takeWhile (· != c), (bs.dropWhile (· != c)).tail)

/-! ## Lines

`splitCrlf` cuts at every CRLF pair. A text that ends with CRLF has an empty last
piece. -/

/-- Cut a text at its CRLF pairs. -/
def splitCrlf : Bytes → List Bytes
  | [] => [[]]
  | [b] => [[b]]
  | a :: b :: rest =>
    if a = cr ∧ b = lf then [] :: splitCrlf rest
    else
      match splitCrlf (b :: rest) with
      | [] => [[a]]
      | line :: lines => (a :: line) :: lines

/-- A line without carriage return is cut off whole by the CRLF after it. -/
theorem splitCrlf_line {line rest : Bytes} (h : cr ∉ line) :
    splitCrlf (line ++ cr :: lf :: rest) = line :: splitCrlf rest := by
  induction line with
  | nil => simp [splitCrlf]
  | cons a line ih =>
    have ha : a ≠ cr := fun e => h (e ▸ mem_cons_self)
    have hline : cr ∉ line := fun m => h (mem_cons_of_mem _ m)
    have hcut := ih hline
    cases line with
    | nil =>
      show splitCrlf (a :: cr :: lf :: rest) = _
      rw [splitCrlf, if_neg (fun e => ha e.1)]
      rw [nil_append] at hcut
      rw [hcut]
    | cons b line =>
      show splitCrlf (a :: b :: (line ++ cr :: lf :: rest)) = _
      rw [splitCrlf, if_neg (fun e => ha e.1)]
      rw [cons_append] at hcut
      rw [hcut]

/-! ## Spans -/

/-- What `takeWhile` took satisfies the predicate. -/
theorem not_mem_takeWhile {p : UInt8 → Bool} {b : UInt8} {bs : Bytes}
    (h : p b = false) : b ∉ bs.takeWhile p := by
  intro hm
  have := mem_takeWhile_imp hm
  rw [h] at this
  exact nomatch this

/-- Cutting at `c` recovers the two sides of the first `c`. -/
theorem cutAt_append {c : UInt8} {before after : Bytes}
    (h : c ∉ before) : cutAt c (before ++ c :: after) = (before, after) := by
  have hall : ∀ b ∈ before, (b != c) = true := by
    intro b hb
    simp only [bne_iff_ne, ne_eq]
    exact fun e => h (e ▸ hb)
  unfold cutAt
  rw [takeWhile_append_of_pos hall, dropWhile_append_of_pos hall]
  simp

/-! ## Searching

`findSub` is the first occurrence. `findSubFrom` is the same search resumed at a saved
offset: on a miss it advances the offset to the last position that could still start a
match, so that each octet is looked at once however the text arrives. -/

/-- The first position at which `needle` occurs. -/
def findSub (needle : Bytes) : Bytes → Option Nat
  | [] => if needle = [] then some 0 else none
  | b :: hay =>
    if needle <+: b :: hay then some 0
    else (findSub needle hay).map (· + 1)

/-- The search resumed at `start`, with the offset to resume from next. -/
def findSubFrom (hay needle : Bytes) (start : Nat) : Option Nat × Nat :=
  match findSub needle (hay.drop start) with
  | some i => (some (min start hay.length + i), min start hay.length + i)
  | none => (none, hay.length - (needle.length - 1))

/-- No occurrence starts before `start`. -/
def Scanned (needle hay : Bytes) (start : Nat) : Prop := ∀ i < start, ¬ needle <+: hay.drop i

theorem scanned_zero (needle hay : Bytes) : Scanned needle hay 0 :=
  fun _ hi => absurd hi (Nat.not_lt_zero _)

variable {needle : Bytes}

/-- A hit is an occurrence, and the first one. -/
theorem findSub_some {hay : Bytes} {i : Nat} (h : findSub needle hay = some i) :
    needle <+: hay.drop i ∧ Scanned needle hay i := by
  fun_induction findSub needle hay generalizing i with
  | case1 hnil =>
    cases h
    rw [hnil]
    exact ⟨ nil_prefix, scanned_zero _ _⟩
  | case2 => cases h
  | case3 _ _ hpre =>
    cases h
    exact ⟨hpre, scanned_zero _ _⟩
  | case4 _ _ hnot ih =>
    obtain ⟨j, hj, rfl⟩ := Option.map_eq_some_iff.mp h
    obtain ⟨hpre, hbef⟩ := ih hj
    refine ⟨hpre, ?_⟩
    intro k hk
    cases k with
    | zero => exact hnot
    | succ k => exact hbef k (by omega)

/-- A miss means no occurrence at all. -/
theorem findSub_none {hay : Bytes} (h : findSub needle hay = none) (i : Nat) :
    ¬ needle <+: hay.drop i := by
  fun_induction findSub needle hay generalizing i with
  | case1 | case3 => cases h
  | case2 hne => rwa [drop_nil, prefix_nil]
  | case4 _ _ hnot ih =>
    cases i with
    | zero => exact hnot
    | succ i => exact ih (Option.map_eq_none_iff.mp h) i

variable {i : Nat} {hay : Bytes}

/-- The first occurrence is where the search ends. -/
theorem findSub_eq_some_iff :
    findSub needle hay = some i ↔ needle <+: hay.drop i ∧ Scanned needle hay i := by
  constructor
  · exact findSub_some
  · rintro ⟨hpre, hbef⟩
    cases h : findSub needle hay with
    | none => exact absurd hpre (findSub_none h i)
    | some j =>
      obtain ⟨hpre', hbef'⟩ := findSub_some h
      rcases Nat.lt_trichotomy j i with hlt | heq | hgt
      · exact absurd hpre' (hbef j hlt)
      · rw [heq]
      · exact absurd hpre (hbef' i hgt)

/-- A hit leaves room for the needle. -/
theorem findSub_le (h : findSub needle hay = some i) (hne : needle ≠ []) :
    i + needle.length ≤ hay.length := by
  obtain ⟨hpre, -⟩ := findSub_some h
  have hle := hpre.length_le
  rw [length_drop] at hle
  have hpos := length_pos_iff.mpr hne
  omega

/-- The text up to and including the first occurrence. -/
theorem findSub_take (h : findSub needle hay = some i) :
    hay.take (i + needle.length) = hay.take i ++ needle := by
  obtain ⟨⟨rest, hrest⟩, -⟩ := findSub_some h
  rw [take_add, ← hrest, take_left]

variable {more : Bytes}

/-- An occurrence that fits in a prefix is an occurrence of the prefix. -/
theorem prefix_drop_append (hfit : i + needle.length ≤ hay.length) :
    needle <+: (hay ++ more).drop i ↔ needle <+: hay.drop i := by
  have hi : i ≤ hay.length := by omega
  rw [drop_append_of_le_length hi]
  constructor
  · intro h
    refine prefix_of_prefix_length_le h (prefix_append _ _) ?_
    rw [length_drop]
    omega
  · exact fun h => h.trans (prefix_append _ _)

/-- What arrives later does not move a hit. -/
theorem findSub_append (h : findSub needle hay = some i) (hne : needle ≠ []) :
    findSub needle (hay ++ more) = some i := by
  have hfit := findSub_le h hne
  obtain ⟨hpre, hbef⟩ := findSub_some h
  refine findSub_eq_some_iff.mpr ⟨?_, ?_⟩
  · exact (prefix_drop_append hfit).mpr hpre
  · intro j hj hocc
    exact hbef j hj ((prefix_drop_append (by omega)).mp hocc)

/-- A hit that only the longer text has starts late: its needle does not fit in the shorter one. -/
theorem findSub_append_late (hmiss : findSub needle hay = none)
    (h : findSub needle (hay ++ more) = some i) : hay.length < i + needle.length := by
  by_contra hfit
  obtain ⟨hpre, -⟩ := findSub_some h
  exact findSub_none hmiss i ((prefix_drop_append (Nat.le_of_not_lt hfit)).mp hpre)

variable {start : Nat}

/-- **RESUMING IS SEARCHING**: from an offset before which nothing occurs, the resumed
    search finds what the whole search finds. -/
theorem findSubFrom_fst (hne : needle ≠ []) (hscan : Scanned needle hay start) :
    (findSubFrom hay needle start).1 = findSub needle hay := by
  unfold findSubFrom
  cases h : findSub needle (hay.drop start) with
  | some i =>
    obtain ⟨hpre, hbef⟩ := findSub_some h
    have hroom := findSub_le h hne
    have hpos := length_pos_iff.mpr hne
    rw [length_drop] at hroom
    have hmin : min start hay.length = start := by omega
    rw [drop_drop] at hpre
    rw [hmin]
    symm
    refine findSub_eq_some_iff.mpr ⟨hpre, ?_⟩
    intro j hj
    by_cases hjs : j < start
    · exact hscan j hjs
    · have := hbef (j - start) (by omega)
      rw [drop_drop] at this
      rwa [show start + (j - start) = j by omega] at this
  | none =>
    cases hfull : findSub needle hay with
    | none => rfl
    | some i =>
      obtain ⟨hpre, -⟩ := findSub_some hfull
      by_cases his : i < start
      · exact absurd hpre (hscan i his)
      · have := findSub_none h (i - start)
        rw [drop_drop, show start + (i - start) = i by omega] at this
        exact absurd hpre this

/-- No occurrence starts before `start`, however the text grows. -/
def Settled (needle hay : Bytes) (start : Nat) : Prop := ∀ more, Scanned needle (hay ++ more) start

theorem settled_zero (needle hay : Bytes) : Settled needle hay 0 := fun _ => scanned_zero _ _

theorem Settled.scanned (h : Settled needle hay start) : Scanned needle hay start := by
  have := h []
  rwa [append_nil] at this

theorem Settled.append (h : Settled needle hay start) (more : Bytes) :
    Settled needle (hay ++ more) start := by
  intro later
  rw [append_assoc]
  exact h (more ++ later)

/-- The saved offset of a search is settled. -/
theorem findSubFrom_settled (hne : needle ≠ []) (hset : Settled needle hay start) :
    Settled needle hay (findSubFrom hay needle start).2 := by
  intro more
  have hscan := hset.scanned
  have hfst := findSubFrom_fst hne hscan
  unfold findSubFrom at hfst ⊢
  cases h : findSub needle (hay.drop start) with
  | some i =>
    rw [h] at hfst
    simp only at hfst ⊢
    have hwhole := hfst.symm
    have hfit := findSub_le hwhole hne
    intro j hj hocc
    exact (findSub_some hwhole).2 j hj ((prefix_drop_append (by omega)).mp hocc)
  | none =>
    rw [h] at hfst
    simp only at hfst ⊢
    intro j hj hocc
    exact findSub_none hfst.symm j ((prefix_drop_append (by omega)).mp hocc)

/-- Where nothing occurs the search may skip. -/
theorem findSub_drop {k : Nat} (hne : needle ≠ [])
    (hk : k ≤ hay.length) (hscan : Scanned needle hay k) :
    findSub needle hay = (findSub needle (hay.drop k)).map (k + ·) := by
  rw [← findSubFrom_fst hne hscan, findSubFrom, Nat.min_eq_left hk]
  cases findSub needle (hay.drop k) with
  | none | some => rfl

end ByteScan

namespace Rope

open List

variable {α : Type}

/-- `n` elements from `off` on. -/
def slice (off n : Nat) (s : List α) : List α := (s.drop off).take n

/-- Copy a slice, piece by piece; `none` when the pieces end first. -/
def peek : List (List α) → Nat → Nat → Option (List α)
  | [], _, n => if n = 0 then some [] else none
  | w :: ws, off, n =>
    if n = 0 then some []
    else if w.length ≤ off then peek ws (off - w.length) n
    else (peek ws 0 (n - (w.length - off))).map (slice off n w ++ ·)

/-- The slice in the piece it begins in, if that piece holds all of it. -/
def within : List (List α) → Nat → Nat → Option (List α)
  | [], _, _ => none
  | w :: ws, off, n =>
    if w.length ≤ off then within ws (off - w.length) n
    else if n ≤ w.length - off then some (slice off n w)
    else none

variable {n : Nat} {s : List α} {off : Nat} {w : List α}

theorem slice_skip (h : w.length ≤ off) : slice off n (w ++ s) = slice (off - w.length) n s := by
  rw [slice, slice, drop_append, drop_eq_nil_of_le h, nil_append]

/-- A slice that the first piece holds. -/
theorem slice_inside (h : off + n ≤ w.length) : slice off n (w ++ s) = slice off n w := by
  rw [slice, slice, drop_append_of_le_length (by omega),
    take_append_of_le_length (by rw [length_drop]; omega)]

/-- A slice that begins in the first piece. -/
theorem slice_across (h : off ≤ w.length) :
    slice off n (w ++ s) = slice off n w ++ slice 0 (n - (w.length - off)) s := by
  rw [slice, slice, slice, drop_append_of_le_length h, take_append, length_drop, drop_zero]

theorem length_slice (h : off + n ≤ s.length) : (slice off n s).length = n := by
  rw [slice, length_take, length_drop]
  omega

/-- **PEEK** is the slice. -/
theorem peek_eq (ws : List (List α)) (off n : Nat) (h : off + n ≤ ws.flatten.length) :
    peek ws off n = some (slice off n ws.flatten) := by
  fun_induction peek ws off n with
  | case1 | case3 => rw [slice, take_zero]
  | case2 off n hn =>
    rw [flatten_nil, length_nil] at h
    omega
  | case4 w ws off n hn hoff ih =>
    rw [flatten_cons, length_append] at h
    rw [flatten_cons, slice_skip hoff, ih (by omega)]
  | case5 w ws off n hn hoff ih =>
    rw [flatten_cons, length_append] at h
    rw [flatten_cons, ih (by omega), slice_across (by omega)]
    rfl

/-- **WITHIN** is the slice, where there is one. -/
theorem within_some {ws : List (List α)} {x : List α}
    (h : within ws off n = some x) : x = slice off n ws.flatten := by
  fun_induction within ws off n with
  | case1 | case4 => cases h
  | case2 w ws off n hoff ih => rw [flatten_cons, slice_skip hoff, ih h]
  | case3 => rw [flatten_cons, ← Option.some.inj h, slice_inside (by omega)]

end Rope

namespace Frame

/-- One field: `len:text:`. -/
def frame (s : String) : String := toString s.utf8ByteSize ++ ":" ++ s ++ ":"

variable {r r' : String}

theorem append_inj_of_size {v v' : String}
    (hsize : v.utf8ByteSize = v'.utf8ByteSize) (h : v ++ r = v' ++ r') : v = v' ∧ r = r' := by
  have hbytes := congrArg (fun s => s.toByteArray.data.toList) h
  have hlen : v.toByteArray.data.toList.length =
      v'.toByteArray.data.toList.length := by simpa using hsize
  obtain ⟨hv, hr⟩ := List.append_inj hbytes hlen
  have hstring : ∀ a b : String,
      a.toByteArray.data.toList = b.toByteArray.data.toList → a = b := by
    intro a b hab
    exact String.toByteArray_inj.mp (ByteArray.ext (Array.ext' hab))
  exact ⟨hstring _ _ hv, hstring _ _ hr⟩

/-- The digits of a number end at the first character that is none. -/
theorem digits_takeWhile (n : Nat) {c : Char} (hc : c.isDigit = false) (cs : List Char) :
    ((toString n).toList ++ c :: cs).takeWhile Char.isDigit = (toString n).toList := by
  have hdigits : ∀ d ∈ (toString n).toList, d.isDigit = true := by
    intro d hd
    rw [show toString n = n.repr from rfl, Nat.toList_repr] at hd
    exact Nat.isDigit_of_mem_toDigits (by decide) (by decide) hd
  rw [List.takeWhile_append_of_pos hdigits, List.takeWhile_cons, hc]
  exact List.append_nil _

theorem toString_inj {n n' : Nat} (h : toString n = toString n') : n = n' := by
  have hdigits : Nat.toDigits 10 n = Nat.toDigits 10 n' := by
    rw [← Nat.toList_repr, ← Nat.toList_repr]
    exact congrArg String.toList h
  have hvalue := congrArg (fun ds => Nat.ofDigitChars 10 ds 0) hdigits
  simpa [Nat.ofDigitChars_toDigits] using hvalue

theorem number_inj {n n' : Nat} (h : toString n ++ ":" ++ r = toString n' ++ ":" ++ r') :
    n = n' ∧ r = r' := by
  have hlist := congrArg String.toList h
  simp only [String.toList_append] at hlist
  have hcolon : (":" : String).toList = [':'] := rfl
  rw [hcolon, List.append_assoc, List.append_assoc] at hlist
  have hn : toString n = toString n' := by
    have htake := congrArg (List.takeWhile Char.isDigit) hlist
    rw [List.singleton_append, List.singleton_append,
      digits_takeWhile n rfl, digits_takeWhile n' rfl] at htake
    exact String.toList_inj.mp htake
  refine ⟨toString_inj hn, ?_⟩
  rw [hn] at hlist
  exact String.toList_inj.mp (List.append_cancel_left (List.append_cancel_left hlist))

/-- **A FRAME ENDS WHERE IT SAYS**, whatever follows it. -/
theorem frame_inj {s s' : String} (h : frame s ++ r = frame s' ++ r') : s = s' ∧ r = r' := by
  have hassoc : ∀ a b : String, frame a ++ b =
      toString a.utf8ByteSize ++ ":" ++ (a ++ (":" ++ b)) := by
    intro a b
    simp only [frame, String.append_assoc]
  rw [hassoc, hassoc] at h
  obtain ⟨hsize, hrest⟩ := number_inj h
  obtain ⟨hs, hr⟩ := append_inj_of_size hsize hrest
  exact ⟨hs, (append_inj_of_size rfl hr).2⟩

end Frame

namespace LittleEndian

def store : Nat → Nat → List UInt8
  | 0, _ => []
  | w + 1, n => UInt8.ofNat n :: store w (n / 256)

def load : List UInt8 → Nat
  | [] => 0
  | b :: bs => b.toNat + 256 * load bs

variable (bs : List UInt8)

/-- The number in `w` bytes at an offset. -/
def loadAt (offset w : Nat) : Nat := load ((bs.drop offset).take w)

@[simp] theorem length_store (w n : Nat) : (store w n).length = w := by
  induction w generalizing n with
  | zero => rfl
  | succ w ih => rw [store, List.length_cons, ih]

theorem load_store (w n : Nat) : load (store w n) = n % 256 ^ w := by
  induction w generalizing n with
  | zero => rw [Nat.pow_zero, Nat.mod_one]; rfl
  | succ w ih =>
    rw [store, load, ih, Nat.pow_succ', Nat.mod_mul]
    rw [UInt8.toNat_ofNat']

theorem load_store_of_lt {w n : Nat} (h : n < 256 ^ w) : load (store w n) = n := by
  rw [load_store, Nat.mod_eq_of_lt h]

theorem load_lt : load bs < 256 ^ bs.length := by
  induction bs with
  | nil => exact Nat.one_pos
  | cons b bs ih =>
    rw [load, List.length_cons, Nat.pow_succ]
    have hb := b.toNat_lt
    omega

theorem loadAt_lt (offset w : Nat) : loadAt bs offset w < 256 ^ w := by
  refine Nat.lt_of_lt_of_le (load_lt _) ?_
  exact Nat.pow_le_pow_right (by omega) (List.length_take_le ..)

/-- A field behind another. -/
theorem loadAt_skip {w k : Nat} (h : w ≤ k) (n : Nat) (ys : List UInt8) (v : Nat) :
    loadAt (store w n ++ ys) k v = loadAt ys (k - w) v := by
  rw [loadAt, loadAt, List.drop_append, length_store,
    List.drop_eq_nil_of_le (by rw [length_store]; exact h), List.nil_append]

/-- The first field. -/
theorem loadAt_store {w n : Nat} (h : n < 256 ^ w) (ys : List UInt8) :
    loadAt (store w n ++ ys) 0 w = n := by
  rw [loadAt, List.drop_zero, List.take_left' (length_store w n), load_store_of_lt h]

/-- A field and what follows it are known from the bytes. -/
theorem store_append_inj {w m n : Nat} {xs ys : List UInt8} (hm : m < 256 ^ w) (hn : n < 256 ^ w)
    (h : store w m ++ xs = store w n ++ ys) : m = n ∧ xs = ys := by
  obtain ⟨hstore, hrest⟩ := List.append_inj h ((length_store w m).trans (length_store w n).symm)
  refine ⟨?_, hrest⟩
  rw [← load_store_of_lt hm, hstore, load_store_of_lt hn]

end LittleEndian

namespace Base128

/-- Why no number was read: the bytes end, or it has too many of them. -/
inductive Stop where
  | ends
  | long
  deriving DecidableEq

def get (width : Nat) : Nat → Nat → Nat → List UInt8 → Except Stop (Nat × List UInt8)
  | _, _, _, [] => .error .ends
  | 0, _, _, _ :: _ => .error .long
  | n + 1, shift, acc, b :: rest =>
    let acc := acc ||| (b.toNat % 128) <<< shift % 2 ^ width
    if b.toNat < 128 then .ok (acc, rest) else get width n (shift + 7) acc rest

variable {width n shift acc : Nat}

theorem get_last {b : UInt8} (rest : List UInt8) (h : b.toNat < 128) :
    get width (n + 1) shift acc (b :: rest)
      = .ok (acc ||| (b.toNat % 128) <<< shift % 2 ^ width, rest) := by
  rw [get, if_pos h]

theorem get_more {b : UInt8} (rest : List UInt8) (h : ¬ b.toNat < 128) :
    get width (n + 1) shift acc (b :: rest)
      = get width n (shift + 7) (acc ||| (b.toNat % 128) <<< shift % 2 ^ width) rest := by
  rw [get, if_neg h]

/-- **WHAT WAS READ IS A PREFIX**, not empty, that is read in the same way whatever follows it. -/
theorem get_local {v : Nat} {bs rest : List UInt8} (h : get width n shift acc bs = .ok (v, rest)) :
    ∃ used, used ≠ [] ∧ bs = used ++ rest ∧
      ∀ more, get width n shift acc (used ++ more) = .ok (v, more) := by
  induction n generalizing shift acc bs with
  | zero => cases bs <;> cases h
  | succ n ih =>
    cases bs with
    | nil => cases h
    | cons b bs =>
      by_cases hlast : b.toNat < 128
      · rw [get_last bs hlast] at h
        cases h
        exact ⟨[b], by simp, rfl, fun more => get_last more hlast⟩
      · rw [get_more bs hlast] at h
        obtain ⟨used, -, rfl, hsame⟩ := ih h
        refine ⟨b :: used, by simp, rfl, ?_⟩
        intro more
        rw [List.cons_append, get_more _ hlast]
        exact hsame more

end Base128
