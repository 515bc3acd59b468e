import Wreath.ByteStringProofs
import Wreath.SearchProofs
import Wreath.StepSystemProofs

/-! # Protocol Buffers — the wire codec

`decodeMessage` reads a message over a compiled descriptor: a row for each field, with
its number, kind and flags, and the descriptor of the messages it holds. It counts the
levels of nesting that are left, and refuses when there are none.

The decoder also gives what it has put aside: the unknown items of every message that it
has read, also of one that a later item replaces. -/

namespace Protobuf

open Drain List
open Lockstep (bind_ok)

abbrev Bytes := List UInt8

inductive Kind where
  | int32 | int64 | uint32 | uint64 | sint32 | sint64 | bool | enum
  | fixed64 | sfixed64 | double | fixed32 | sfixed32 | float
  | string | bytes | message
  deriving DecidableEq

/-- The wire types that are not refused. -/
inductive Wire where
  | varint | i64 | len | i32
  deriving DecidableEq

/-- `pb_wire_type_for`. -/
def wireTypeFor : Kind → Wire
  | .int32 | .int64 | .uint32 | .uint64 | .sint32 | .sint64 | .bool | .enum => .varint
  | .fixed64 | .sfixed64 | .double => .i64
  | .fixed32 | .sfixed32 | .float => .i32
  | .string | .bytes | .message => .len

/-- Floating-point values are their bit patterns. -/
inductive Scalar where
  | int (i : Int)
  | bool (b : Bool)
  | double (bits : BitVec 64)
  | float (bits : BitVec 32)
  | str (s : String)
  | bytes (b : Bytes)
  deriving DecidableEq

inductive Value where
  | none
  | scalar (x : Scalar)
  | message (values : List Value) (unknown : Bytes)
  | list (items : List Value)
  | dict (entries : List (Scalar × Value))

def Value.isNone : Value → Bool
  | .none => true
  | _ => false

/-- A row of the plan. `members` are the numbers of an enumeration. -/
structure Row where
  number : Nat
  kind : Kind
  repeated : Bool
  packed : Bool
  optional : Bool
  map : Bool
  mapKey : Kind
  mapValue : Kind
  members : List Int
  deriving DecidableEq

/-- The rows, each with the descriptor of what it holds, and the groups of fields of which
    at most one is set. -/
inductive Descriptor where
  | mk (fields : List (Row × Option Descriptor)) (oneofs : List (List Nat))

def Descriptor.fields : Descriptor → List (Row × Option Descriptor)
  | .mk fields _ => fields

def Descriptor.oneofs : Descriptor → List (List Nat)
  | .mk _ oneofs => oneofs

variable (D : Descriptor) (kind : Kind)

def Descriptor.numbers : List Nat := D.fields.map (·.1.number)

/-! ## Sizes and depths -/

/-- `PB_MAX_DEPTH`. -/
def maxDepth : Nat := 100

/-- `PY_SSIZE_T_MAX`. -/
def maxSize : Nat := 2 ^ 63 - 1

/-! ## Reading -/

/-- `ProtobufDecodeError`, by its texts, and the error of an enumeration that has no such member. -/
inductive Refusal where
  | varintEnds
  | varintLong
  | short
  | impossible
  | fieldZero
  | group
  | wireType
  | utf8
  | depth
  | enum
  | holder
  deriving DecidableEq

variable (bs : Bytes)

/-- `pb_get_varint`. -/
def getVarint : Except Refusal (Nat × Bytes) :=
  match Base128.get 64 10 0 0 bs with
  | .ok out => .ok out
  | .error .ends => .error .varintEnds
  | .error .long => .error .varintLong

/-- `pb_take`. -/
def take (count : Nat) (bs : Bytes) : Except Refusal (Bytes × Bytes) :=
  if bs.length < count then .error .short else .ok (bs.take count, bs.drop count)

/-- What `pb_read_len` does with a length. -/
def lenBody (length : Nat) (rest : Bytes) : Except Refusal (Bytes × Bytes) :=
  if maxSize < length then .error .impossible else take length rest

/-- `pb_read_len`. -/
def readLen : Except Refusal (Bytes × Bytes) := do
  let (length, rest) ← getVarint bs
  lenBody length rest

/-- `pb_signed_object`. -/
def signedObject (raw : BitVec 64) : Int :=
  match kind with
  | .sint32 | .sint64 => ((raw >>> 1) ^^^ (~~~(raw &&& 1) + 1)).toInt
  | .int32 | .enum => (raw.truncate 32).toInt
  | .int64 => raw.toInt
  | .uint32 => (raw.truncate 32).toNat
  | _ => raw.toNat

/-- The value of a varint field. -/
def varintScalar (raw : Nat) : Scalar :=
  if kind = .bool then .bool (raw ≠ 0)
  else .int (signedObject kind (BitVec.ofNat 64 raw))

/-- The value of a 64-bit field. -/
def i64Scalar (chunk : Bytes) : Scalar :=
  let bits := BitVec.ofNat 64 (LittleEndian.load chunk)
  match kind with
  | .double => .double bits
  | .fixed64 => .int bits.toNat
  | _ => .int bits.toInt

/-- The value of a 32-bit field. -/
def i32Scalar (chunk : Bytes) : Scalar :=
  let bits := BitVec.ofNat 32 (LittleEndian.load chunk)
  match kind with
  | .float => .float bits
  | .fixed32 => .int bits.toNat
  | _ => .int bits.toInt

/-- `pb_read_scalar`. -/
def readScalar : Except Refusal (Scalar × Bytes) :=
  match wireTypeFor kind with
  | .varint => do
      let (raw, rest) ← getVarint bs
      .ok (varintScalar kind raw, rest)
  | .i64 => do
      let (chunk, rest) ← take 8 bs
      .ok (i64Scalar kind chunk, rest)
  | _ => do
      let (chunk, rest) ← take 4 bs
      .ok (i32Scalar kind chunk, rest)

/-- `pb_skip`. -/
def skip (wire : Wire) (bs : Bytes) : Except Refusal (Unit × Bytes) :=
  match wire with
  | .varint => do
      let (_, rest) ← getVarint bs
      .ok ((), rest)
  | .i64 => do
      let (_, rest) ← take 8 bs
      .ok ((), rest)
  | .i32 => do
      let (_, rest) ← take 4 bs
      .ok ((), rest)
  | .len => do
      let (_, rest) ← readLen bs
      .ok ((), rest)

/-- The number and wire type of a tag. -/
def tagOf (tag : Nat) : Except Refusal (Nat × Wire) :=
  if tag >>> 3 = 0 then .error .fieldZero
  else match tag % 8 with
    | 0 => .ok (tag >>> 3, .varint)
    | 1 => .ok (tag >>> 3, .i64)
    | 2 => .ok (tag >>> 3, .len)
    | 5 => .ok (tag >>> 3, .i32)
    | 3 | 4 => .error .group
    | _ => .error .wireType

/-- The start of a field. -/
def readTag : Except Refusal ((Nat × Wire) × Bytes) := do
  let (tag, rest) ← getVarint bs
  .ok (← tagOf tag, rest)

/-- `PyUnicode_DecodeUTF8`. -/
def decodeUtf8 (b : Bytes) : Except Refusal String :=
  match String.fromUTF8? ⟨b.toArray⟩ with
  | some s => .ok s
  | none => .error .utf8

/-- The value of a string or bytes field with this body. -/
def textValue (body : Bytes) : Except Refusal Scalar :=
  if kind = .string then do .ok (.str (← decodeUtf8 body)) else .ok (.bytes body)

/-- `pb_read_declared_value`. -/
def readDeclaredValue : Except Refusal (Scalar × Bytes) :=
  if kind = .string ∨ kind = .bytes then do
    let (body, rest) ← readLen bs
    .ok (← textValue kind body, rest)
  else readScalar kind bs

/-- The zero of a kind that is not a message. -/
def zero : Kind → Scalar
  | .string => .str ""
  | .bytes => .bytes []
  | .bool => .bool false
  | .double => .double 0
  | .float => .float 0
  | _ => .int 0

/-- `pb_declared_default`. -/
def declaredDefault : Value := if kind = .message then .none else .scalar (zero kind)

/-- One slot of `pb_compiled_defaults`. -/
def compiledDefault (row : Row) : Value :=
  if row.map then .dict []
  else if row.repeated then .list []
  else if row.optional ∨ row.kind = .message then .none
  else .scalar (zero row.kind)

/-- `PyList_Append`. -/
def Value.append (item : Value) : Value → Value
  | .list items => .list (items ++ [item])
  | v => v

/-- `PyDict_SetItem` on the entries of a dictionary. -/
def setEntry (key : Scalar) (value : Value) : List (Scalar × Value) → List (Scalar × Value)
  | [] => [(key, value)]
  | entry :: entries =>
    if entry.1 = key then (key, value) :: entries
    else entry :: setEntry key value entries

def Value.setItem (key : Scalar) (value : Value) : Value → Value
  | .dict entries => .dict (setEntry key value entries)
  | v => v

/-- `pb_compiled_store`. -/
def compiledStore (values : List Value) (i : Nat) (repeated : Bool) (item : Value) : List Value :=
  if repeated then values.modify i (Value.append item) else values.set i item

/-- The unknown items of a message, and those of what was read within it. -/
inductive Kept where
  | mk (own : List Bytes) (within : List Kept)

/-- A message while it is read. -/
structure Build where
  values : List Value
  unknown : List Bytes
  within : List Kept

/-- A map entry while it is read. -/
structure Entry where
  key : Scalar
  value : Value
  within : List Kept

section
variable (nested : Descriptor → Bytes → Except Refusal (Value × Kept))

/-- One field of a map entry in `pb_read_compiled_map`. -/
def entryStep (row : Row) (sub : Option Descriptor) (entry : Entry) (bs : Bytes) :
    Except Refusal (Entry × Bytes) := do
  let ((number, wire), rest) ← readTag bs
  if number = 1 then
    let (key, rest) ← readDeclaredValue row.mapKey rest
    .ok ({ entry with key }, rest)
  else if number = 2 ∧ row.mapValue = .message then
    let (body, rest) ← readLen rest
    match sub with
    | none => .error .holder
    | some D =>
      let (value, kept) ← nested D body
      .ok ({ entry with value, within := entry.within ++ [kept] }, rest)
  else if number = 2 then
    let (value, rest) ← readDeclaredValue row.mapValue rest
    .ok ({ entry with value := .scalar value }, rest)
  else
    let (_, rest) ← skip wire rest
    .ok (entry, rest)

/-- `pb_read_compiled_map`, from the body of the entry. -/
def readEntry (row : Row) (sub : Option Descriptor) (body : Bytes) : Except Refusal Entry :=
  drain (entryStep nested row sub) ⟨zero row.mapKey, declaredDefault row.mapValue, []⟩ body

/-- The values of a packed body. -/
def readPacked (kind : Kind) (body : Bytes) : Except Refusal (List Value) :=
  drain (fun items bs => do
    let (x, rest) ← readScalar kind bs
    .ok (items ++ [.scalar x], rest)) [] body

/-- `pb_read_compiled_field`. -/
def readField (field : Row × Option Descriptor) (i : Nat) (wire : Wire) (b : Build)
    (bs : Bytes) : Except Refusal (Build × Bytes) :=
  let row := field.1
  if row.map then do
    let (body, rest) ← readLen bs
    let entry ← readEntry nested row field.2 body
    .ok ({ b with
      values := b.values.modify i (Value.setItem entry.key entry.value)
      within := b.within ++ [.mk [] entry.within] }, rest)
  else if row.kind = .message then do
    let (body, rest) ← readLen bs
    match field.2 with
    | none => .error .holder
    | some D =>
      let (item, kept) ← nested D body
      .ok ({ b with
        values := compiledStore b.values i row.repeated item
        within := b.within ++ [kept] }, rest)
  else if row.kind = .string ∨ row.kind = .bytes then do
    let (body, rest) ← readLen bs
    let item ← textValue row.kind body
    .ok ({ b with values := compiledStore b.values i row.repeated (.scalar item) }, rest)
  else if row.repeated ∧ wire = .len then do
    let (body, rest) ← readLen bs
    let items ← readPacked row.kind body
    .ok ({ b with
      values := items.foldl (fun vs item => vs.modify i (Value.append item)) b.values },
      rest)
  else do
    let (item, rest) ← readScalar row.kind bs
    .ok ({ b with values := compiledStore b.values i row.repeated (.scalar item) }, rest)

/-! ## Finding a field -/

/-- The lookup table: numbers in order, each with the place of its field. -/
def Descriptor.lookup (D : Descriptor) : List (Nat × Nat) :=
  D.numbers.zipIdx.mergeSort fun a b => a.1 ≤ b.1

/-- `pb_compiled_find`. -/
def compiledFind (D : Descriptor) (number : Nat) : Option Nat :=
  let count := D.fields.length
  if count ≤ 8 then D.numbers.findIdx? (· = number)
  else
    let low := BinarySearch.search (fun k => (D.lookup.getD k (0, 0)).1 < number) count 0 count
    match D.lookup[low]? with
    | some (candidate, i) => if candidate = number then some i else none
    | none => none

/-! ## A message -/

/-- One turn of the loop of `pb_decode_compiled_message`. -/
def fieldStep (D : Descriptor) (b : Build) (bs : Bytes) : Except Refusal (Build × Bytes) := do
  let ((number, wire), rest) ← readTag bs
  match (compiledFind D number).bind fun i => D.fields[i]?.map (i, ·) with
  | none =>
    let (_, rest) ← skip wire rest
    .ok ({ b with unknown := b.unknown ++ [bs.take (bs.length - rest.length)] }, rest)
  | some (i, field) => readField nested field i wire b rest

end

/-- One field of `pb_compiled_convert`: a list of an enumeration has members only; a single
    value may be any number. -/
def convertible (row : Row) (v : Value) : Bool :=
  match v with
  | .list items =>
    !(row.repeated && row.kind == .enum) || items.all fun item =>
        match item with
        | .scalar (.int i) => row.members.contains i
        | _ => false
  | _ => true

/-- One group of `pb_compiled_apply_oneofs`. -/
def applyOneof (values : List Value) (group : List Nat) : List Value :=
  match (group.filter fun i => !(values.getD i .none).isNone).getLast? with
  | none => values
  | some last => group.foldl (fun vs i => if i = last then vs else vs.set i .none) values

def applyOneofs (values : List Value) : List Value := D.oneofs.foldl applyOneof values

def Build.start : Build := ⟨D.fields.map fun field => compiledDefault field.1, [], []⟩

/-- The end of `pb_decode_compiled_message`. -/
def Build.finish (b : Build) : Except Refusal (Value × Kept) :=
  if (D.fields.zip b.values).all fun x => convertible x.1.1 x.2 then
    .ok (.message (applyOneofs D b.values) b.unknown.flatten, .mk b.unknown b.within)
  else .error .enum

/-- `pb_decode_compiled_message`, with the number of levels that are left. -/
def decodeMessage : Nat → Descriptor → Bytes → Except Refusal (Value × Kept)
  | 0, _, _ => .error .depth
  | n + 1, D, data => do
      (← drain (fieldStep (decodeMessage n) D) (.start D) data).finish D

/-- `protobuf_decode_message`, and what was put aside. -/
def read (data : Bytes) : Except Refusal (Value × Kept) := decodeMessage (maxDepth + 1) D data

/-! ## What the readers use up -/

/-- A reader that takes a prefix off its input, and looks at nothing else. -/
def Local {α : Type} (f : Bytes → Except Refusal (α × Bytes)) : Prop :=
  ∀ bs x rest, f bs = .ok (x, rest) →
    ∃ used, bs = used ++ rest ∧ ∀ more, f (used ++ more) = .ok (x, more)

/-- A reader that takes something. -/
def Takes {α : Type} (f : Bytes → Except Refusal (α × Bytes)) : Prop :=
  ∀ bs x rest, f bs = .ok (x, rest) → rest.length < bs.length

variable {α β : Type}

@[simp] theorem ok_bind {ε : Type} (a : α) (f : α → Except ε β) : (Except.ok a >>= f) = f a := rfl

variable {f : Bytes → Except Refusal (α × Bytes)}

/-- Two readers, one after the other. -/
theorem Local.bind {g : α → Bytes → Except Refusal (β × Bytes)} (hf : Local f)
    (hg : ∀ a, Local (g a)) : Local fun bs => f bs >>= fun out => g out.1 out.2 := by
  intro bs x rest h
  obtain ⟨⟨a, mid⟩, ha, hb⟩ := bind_ok.mp h
  obtain ⟨used₁, rfl, hused₁⟩ := hf bs a mid ha
  obtain ⟨used₂, rfl, hused₂⟩ := hg a mid x rest hb
  refine ⟨used₁ ++ used₂, (append_assoc ..).symm, ?_⟩
  intro more
  show f (used₁ ++ used₂ ++ more) >>= (fun out => g out.1 out.2) = .ok (x, more)
  rw [append_assoc, hused₁]
  exact hused₂ more

theorem Local.pure (x : α) : Local fun bs => .ok (x, bs) := by
  intro bs y rest h
  cases h
  exact ⟨[], rfl, fun _ => rfl⟩

theorem Local.error (e : Refusal) : Local fun _ => (.error e : Except Refusal (α × Bytes)) := nofun

variable {bs rest : Bytes}

/-- The rest after a reader is not longer than its input. -/
theorem Local.le (h : Local f) {x : α} (hread : f bs = .ok (x, rest)) :
    rest.length ≤ bs.length := by
  obtain ⟨used, rfl, -⟩ := h bs x rest hread
  simp

theorem getVarint_ok {v : Nat} :
    getVarint bs = .ok (v, rest) ↔ Base128.get 64 10 0 0 bs = .ok (v, rest) := by
  unfold getVarint
  split
  · next h => rw [h, Except.ok.injEq, Except.ok.injEq]
  · next h => rw [h]; simp
  · next h => rw [h]; simp

theorem getVarint_local : Local getVarint := by
  intro bs v rest h
  obtain ⟨used, -, rfl, hsame⟩ := Base128.get_local (getVarint_ok.mp h)
  exact ⟨used, rfl, fun more => getVarint_ok.mpr (hsame more)⟩

theorem getVarint_takes : Takes getVarint := by
  intro bs v rest h
  obtain ⟨used, hne, rfl, -⟩ := Base128.get_local (getVarint_ok.mp h)
  have := length_pos_iff.mpr hne
  simp only [length_append]
  omega

theorem take_ok {count : Nat} {chunk : Bytes} :
    take count bs = .ok (chunk, rest) ↔ chunk.length = count ∧ bs = chunk ++ rest := by
  unfold take
  constructor
  · intro h
    split at h
    · cases h
    · cases h
      exact ⟨by rw [length_take]; omega, (take_append_drop count bs).symm⟩
  · rintro ⟨hlen, rfl⟩
    rw [if_neg (by rw [length_append]; omega), take_left' hlen, drop_left' hlen]

theorem take_local (count : Nat) : Local (take count) := by
  intro bs chunk rest h
  obtain ⟨hlen, rfl⟩ := take_ok.mp h
  exact ⟨chunk, rfl, fun more => take_ok.mpr ⟨hlen, rfl⟩⟩

/-- A reader whose result is turned into another. -/
theorem Local.map (hf : Local f)
    (h : α → β) : Local fun bs => f bs >>= fun out => .ok (h out.1, out.2) :=
  hf.bind (g := fun a rest => .ok (h a, rest)) fun a => .pure (h a)

theorem lenBody_local (length : Nat) : Local (lenBody length) := by
  intro bs body rest h
  unfold lenBody at h ⊢
  split at h
  · cases h
  · next hsmall =>
      simp only [if_neg hsmall]
      exact take_local length bs body rest h

theorem readLen_local : Local readLen := getVarint_local.bind (g := lenBody) lenBody_local

theorem readScalar_local : Local (readScalar kind) := by
  unfold readScalar
  split
  · exact getVarint_local.map (varintScalar kind)
  · exact (take_local 8).map (i64Scalar kind)
  · exact (take_local 4).map (i32Scalar kind)

/-- A result that does not depend on what is left. -/
theorem Local.lift (hf : Local f) (g : α → Except Refusal β) :
    Local fun bs => f bs >>= fun out => g out.1 >>= fun x => .ok (x, out.2) := by
  refine hf.bind (g := fun a rest => g a >>= fun x => .ok (x, rest)) ?_
  intro a
  cases g a with
  | error e => exact .error e
  | ok x => exact .pure x

theorem Takes.lift (hf : Takes f) (g : α → Except Refusal β) :
    Takes fun bs => f bs >>= fun out => g out.1 >>= fun x => .ok (x, out.2) := by
  intro bs x rest hread
  obtain ⟨⟨a, mid⟩, ha, hx⟩ := bind_ok.mp hread
  obtain ⟨y, -, hy⟩ := bind_ok.mp hx
  cases hy
  exact hf bs a _ ha

theorem skip_local (wire : Wire) : Local (skip wire) := by
  cases wire with
  | varint => exact getVarint_local.map fun _ => ()
  | i64 => exact (take_local 8).map fun _ => ()
  | len => exact readLen_local.map fun _ => ()
  | i32 => exact (take_local 4).map fun _ => ()

theorem readTag_local : Local readTag := getVarint_local.lift tagOf

theorem readTag_takes : Takes readTag := getVarint_takes.lift tagOf

theorem readDeclaredValue_local : Local (readDeclaredValue kind) := by
  unfold readDeclaredValue
  by_cases htext : kind = .string ∨ kind = .bytes
  · simp only [if_pos htext]
    exact readLen_local.lift (textValue kind)
  · simp only [if_neg htext]
    exact readScalar_local kind

/-! ## The lookup table -/

theorem Descriptor.length_lookup : D.lookup.length = D.fields.length := by
  unfold lookup numbers
  simp

variable {i : Nat} {number : Nat}

theorem Descriptor.mem_lookup : (number, i) ∈ D.lookup ↔ D.numbers[i]? = some number := by
  unfold lookup
  rw [mem_mergeSort]
  exact mem_zipIdx_iff_getElem?

/-- The table is in the order of the numbers. -/
theorem Descriptor.lookup_sorted : D.lookup.Pairwise fun a b => a.1 ≤ b.1 := by
  have htrans : ∀ a b c : Nat × Nat, decide (a.1 ≤ b.1) = true →
      decide (b.1 ≤ c.1) = true → decide (a.1 ≤ c.1) = true := by
    intro a b c hab hbc
    exact decide_eq_true (Nat.le_trans (of_decide_eq_true hab) (of_decide_eq_true hbc))
  have htotal : ∀ a b : Nat × Nat, (decide (a.1 ≤ b.1) || decide (b.1 ≤ a.1)) = true := by
    intro a b
    simp only [Bool.or_eq_true, decide_eq_true_eq]
    exact Nat.le_total _ _
  have h := pairwise_mergeSort htrans htotal D.numbers.zipIdx
  exact h.imp fun hab => of_decide_eq_true hab

theorem Descriptor.lookup_le {j k : Nat} (hjk : j ≤ k) (hk : k < D.lookup.length) :
    (D.lookup.getD j (0, 0)).1 ≤ (D.lookup.getD k (0, 0)).1 := by
  rcases Nat.eq_or_lt_of_le hjk with rfl | hlt
  · exact le_rfl
  · have hle := pairwise_iff_getElem.mp D.lookup_sorted j k (by omega) hk hlt
    rw [getD_eq_getElem?_getD, getD_eq_getElem?_getD,
      getElem?_eq_getElem hk, getElem?_eq_getElem (by omega)]
    exact hle

/-- Two places of one number are the same. -/
theorem place_unique {numbers : List Nat} (hnd : numbers.Nodup) {j : Nat}
    (hi : numbers[i]? = some number) (hj : numbers[j]? = some number) : i = j := by
  obtain ⟨hi', hval⟩ := List.getElem?_eq_some_iff.mp hi
  exact (getElem?_inj hi' hnd).mp (hi.trans hj.symm)

/-- Numbers that are all different are found where they are. -/
theorem findIdx_iff {numbers : List Nat} (hnd : numbers.Nodup) :
    numbers.findIdx? (· = number) = some i ↔ numbers[i]? = some number := by
  rw [findIdx?_eq_some_iff_getElem]
  constructor
  · rintro ⟨hi, hp, -⟩
    rw [getElem?_eq_getElem hi]
    exact congrArg some (by simpa using hp)
  · intro h
    obtain ⟨hi, hval⟩ := List.getElem?_eq_some_iff.mp h
    refine ⟨hi, by simpa using hval, ?_⟩
    intro j hj hpj
    have hsame : numbers[j]? = some number := by
      rw [getElem?_eq_getElem (by omega)]
      exact congrArg some (by simpa using hpj)
    have := place_unique hnd h hsame
    omega

/-- The place that the search ends at has the number, if any place has. -/
theorem search_lookup {D : Descriptor} (number : Nat) {low : Nat}
    (hb : BinarySearch.Boundary (fun k => (D.lookup.getD k (0, 0)).1 < number) D.fields.length low)
    (hmem : (number, i) ∈ D.lookup) : ∃ j, D.lookup[low]? = some (number, j) := by
  obtain ⟨k, hk, hval⟩ := mem_iff_getElem.mp hmem
  have hlen := D.length_lookup
  have hgetk : D.lookup.getD k (0, 0) = (number, i) := by
    rw [getD_eq_getElem?_getD, getElem?_eq_getElem hk, hval]
    rfl
  have hle : low ≤ k := by
    by_contra hlt
    have hp := hb.before k (by omega)
    rw [hgetk] at hp
    simp at hp
  have hlow : low < D.lookup.length := by omega
  have hgetlow : D.lookup.getD low (0, 0) = D.lookup[low] := by
    rw [getD_eq_getElem?_getD, getElem?_eq_getElem hlow]
    rfl
  have hge := hb.after low (Nat.le_refl low) (by omega)
  have hsame := D.lookup_le hle hk
  rw [hgetk, hgetlow] at hsame
  rw [hgetlow, decide_eq_false_iff_not] at hge
  refine ⟨D.lookup[low].2, ?_⟩
  rw [getElem?_eq_getElem hlow]
  exact congrArg some (Prod.ext (by omega) rfl)

/-- **FINDING A FIELD**: the search finds the field that a scan would. -/
theorem compiledFind_eq {D : Descriptor} (hnd : D.numbers.Nodup) (number : Nat) :
    compiledFind D number = D.numbers.findIdx? (· = number) := by
  unfold compiledFind
  dsimp only
  split
  · rfl
  have hmono : ∀ j k, j ≤ k → k < D.fields.length →
      decide ((D.lookup.getD k (0, 0)).1 < number) = true →
      decide ((D.lookup.getD j (0, 0)).1 < number) = true := by
    intro j k hjk hk hp
    have hle := D.lookup_le hjk (by rw [D.length_lookup]; exact hk)
    rw [decide_eq_true_eq] at hp ⊢
    omega
  have hb := BinarySearch.search_boundary hmono
  apply Option.ext
  intro i
  rw [findIdx_iff hnd, ← D.mem_lookup]
  constructor
  · intro h
    split at h
    · next candidate j hat =>
        split at h
        · next hsame =>
            cases h
            rw [← hsame]
            exact mem_of_getElem? hat
        · cases h
    · cases h
  · intro hmem
    obtain ⟨j, hat⟩ := search_lookup number hb hmem
    have hj := D.mem_lookup.mp (mem_of_getElem? hat)
    rw [hat, place_unique hnd hj (D.mem_lookup.mp hmem)]
    simp

/-! ## Declarations -/

/-- The kinds of a map's key. -/
def mapKeyKinds : List Kind :=
  [.int32, .int64, .uint32, .uint64, .sint32, .sint64, .fixed32, .sfixed32, .fixed64,
    .sfixed64, .bool, .string]

/-- What `_resolve` and `message` make of a field. -/
structure Row.Valid (row : Row) (sub : Option Descriptor) : Prop where
  number : 1 ≤ row.number ∧ row.number ≤ 536870911
  kind : row.map = true → row.kind = .message ∧ row.repeated = false
  key : row.map = true → row.mapKey ∈ mapKeyKinds
  holder : row.map = true → (row.mapValue = .message ↔ sub.isSome = true)
  packed : row.packed = true → row.repeated = true ∧ wireTypeFor row.kind ≠ .len
  message : row.map = false → (row.kind = .message ↔ sub.isSome = true)
  presence : row.map = false → row.repeated = false → row.kind = .message → row.optional = true

/-- The groups of fields of which at most one is set: optional fields, in order, each in one
    group. -/
structure OneofsValid (fields : List (Row × Option Descriptor))
    (oneofs : List (List Nat)) : Prop where
  optional : ∀ group ∈ oneofs, ∀ i ∈ group, ∃ field, fields[i]? = some field ∧
    field.1.optional = true
  ordered : ∀ group ∈ oneofs, group.Pairwise (· < ·)
  disjoint : oneofs.Pairwise List.Disjoint

/-- A descriptor that `message` compiles. -/
inductive Descriptor.Valid : Descriptor → Prop where
  | mk {fields : List (Row × Option Descriptor)} {oneofs : List (List Nat)}
      (rows : ∀ field ∈ fields, field.1.Valid field.2)
      (numbers : (fields.map fun field => field.1.number).Nodup)
      (groups : OneofsValid fields oneofs)
      (below : ∀ field ∈ fields, ∀ D, field.2 = some D → D.Valid) :
      Valid (.mk fields oneofs)

section
variable {D : Descriptor} (h : D.Valid)
include h

theorem Descriptor.Valid.row : ∀ field ∈ D.fields, field.1.Valid field.2 := by
  cases h with
  | mk rows => exact rows

theorem Descriptor.Valid.nodup : D.numbers.Nodup := by
  cases h with
  | mk _ numbers => exact numbers

theorem Descriptor.Valid.sub {field : Row × Option Descriptor} (hfield : field ∈ D.fields)
    {D' : Descriptor} (hD' : field.2 = some D') : D'.Valid := by
  cases h with
  | mk _ _ _ below => exact below field hfield D' hD'

theorem Descriptor.Valid.key : ∀ field ∈ D.fields, field.1.map = true →
    field.1.mapKey ≠ .message := by
  intro field hfield hmap hmsg
  have hkind := (h.row field hfield).key hmap
  rw [hmsg] at hkind
  exact absurd hkind (by decide)

end


end Protobuf
