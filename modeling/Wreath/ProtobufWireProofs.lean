import Wreath.ProtobufProofs

/-! # Protocol Buffers — wire types

The reference decoder splits its input by the wire grammar alone, and gives an item to a
declared field only if its wire type is the field's own. The codec reads a declared field by
its kind, whatever the wire type of its tag, and misreads it and what follows (`misread`). On
input that decodes the two agree exactly if every item has the wire type of its field
(`decode_respects_wire_types`). -/

namespace Protobuf

open Drain List
open Lockstep (bind_ok)

/-! ## The wire grammar -/

/-- A field as the wire grammar sees it: `raw` is all of it, `payload` what is behind the
    tag, without a length. -/
structure Item where
  number : Nat
  wire : Wire
  raw : Bytes
  payload : Bytes

def payloadOf (wire : Wire) (rest : Bytes) : Except Refusal (Bytes × Bytes) :=
  match wire with
  | .varint => do
      let (_, after) ← getVarint rest
      .ok (rest.take (rest.length - after.length), after)
  | .i64 => take 8 rest
  | .i32 => take 4 rest
  | .len => readLen rest

def itemAt (bs : Bytes) : Except Refusal (Item × Bytes) := do
  let ((number, wire), rest) ← readTag bs
  let (payload, after) ← payloadOf wire rest
  .ok (⟨number, wire, bs.take (bs.length - after.length), payload⟩, after)

def splitStep (items : List Item) (bs : Bytes) : Except Refusal (List Item × Bytes) := do
  let (item, rest) ← itemAt bs
  .ok (items ++ [item], rest)

/-- The items of a message. -/
def split (data : Bytes) : Except Refusal (List Item) := drain splitStep [] data

/-! ## The reference decoder -/

/-- The wire type that a field uses. -/
def fieldWire (row : Row) : Wire := if row.map then .len else wireTypeFor row.kind

/-- A repeated scalar may also be packed. -/
def accepts (row : Row) (wire : Wire) : Bool := wire = fieldWire row ∨ (row.repeated ∧ wire = .len)

/-- The value of a kind that is not a message. -/
def valueOf (kind : Kind) (payload : Bytes) : Except Refusal Scalar :=
  if kind = .string ∨ kind = .bytes then textValue kind payload
  else do .ok (← readScalar kind payload).1

/-- The declared field of a number. -/
def declared (D : Descriptor) (number : Nat) : Option (Nat × Row × Option Descriptor) :=
  (D.numbers.findIdx? (· = number)).bind fun i => D.fields[i]?.map (i, ·)

/-- A reader of messages. -/
abbrev Nested := Descriptor → Bytes → Except Refusal (Value × Kept)

/-- A reader of map entries. -/
abbrev Entries := Row → Option Descriptor → Bytes → Except Refusal (Entry × List Bytes)

section
variable (nested : Nested) (entry : Entries)

/-- An item whose payload is a body is given to a field. -/
def assignBody (field : Row × Option Descriptor) (i : Nat) (b : Build) (body : Bytes) :
    Except Refusal Build :=
  let row := field.1
  if row.map then do
    let (e, own) ← entry row field.2 body
    .ok { b with
      values := b.values.modify i (Value.setItem e.key e.value)
      within := b.within ++ [.mk own e.within] }
  else if row.kind = .message then
    match field.2 with
    | none => .error .holder
    | some D => do
        let (item, kept) ← nested D body
        .ok { b with
          values := compiledStore b.values i row.repeated item
          within := b.within ++ [kept] }
  else if row.kind = .string ∨ row.kind = .bytes then do
    let item ← textValue row.kind body
    .ok { b with values := compiledStore b.values i row.repeated (.scalar item) }
  else do
    let items ← readPacked row.kind body
    .ok { b with values := items.foldl (fun vs item => vs.modify i (Value.append item)) b.values }

/-- An item is given to a field. -/
def assign (field : Row × Option Descriptor) (i : Nat) (b : Build) (item : Item) :
    Except Refusal Build :=
  if item.wire = .len then assignBody nested entry field i b item.payload
  else do
    let x ← valueOf field.1.kind item.payload
    .ok { b with values := compiledStore b.values i field.1.repeated (.scalar x) }

/-- An item is given to its field, or put aside. -/
def place (D : Descriptor) (b : Build) (item : Item) : Except Refusal Build :=
  match declared D item.number with
  | none => .ok { b with unknown := b.unknown ++ [item.raw] }
  | some (i, field) =>
    if accepts field.1 item.wire then assign nested entry field i b item
    else .ok { b with unknown := b.unknown ++ [item.raw] }

/-- An item of a map entry is its key, its value, or put aside. -/
def placeEntry (row : Row) (sub : Option Descriptor) (s : Entry × List Bytes)
    (item : Item) : Except Refusal (Entry × List Bytes) :=
  let (e, own) := s
  if item.number = 1 ∧ item.wire = wireTypeFor row.mapKey then do
    let key ← valueOf row.mapKey item.payload
    .ok ({ e with key }, own)
  else if item.number = 2 ∧ item.wire = wireTypeFor row.mapValue then
    if row.mapValue = .message then
      match sub with
      | none => .error .holder
      | some D => do
          let (value, kept) ← nested D item.payload
          .ok ({ e with value, within := e.within ++ [kept] }, own)
    else do
      let x ← valueOf row.mapValue item.payload
      .ok ({ e with value := .scalar x }, own)
  else .ok (e, own ++ [item.raw])

def Entry.start (row : Row) : Entry := ⟨zero row.mapKey, declaredDefault row.mapValue, []⟩

/-- A map entry, and its items that are neither key nor value. -/
def referenceEntry (row : Row) (sub : Option Descriptor) (body : Bytes) :
    Except Refusal (Entry × List Bytes) := do
  (← split body).foldlM (placeEntry nested row sub) (.start row, [])

end

/-- **THE REFERENCE DECODER**: split, then assign. -/
def referenceMessage : Nat → Descriptor → Bytes → Except Refusal (Value × Kept)
  | 0, _, _ => .error .depth
  | n + 1, D, data => do
      let nested := referenceMessage n
      let b ← (← split data).foldlM (place nested (referenceEntry nested) D) (.start D)
      b.finish D

def reference (D : Descriptor) (data : Bytes) : Except Refusal (Value × Kept) :=
  referenceMessage (maxDepth + 1) D data

/-! ## Input whose wire types are the fields' own -/

section
variable (typed : Descriptor → Bytes → Prop)

/-- Every item of a map entry is its key or its value. -/
def TypedEntry (row : Row) (sub : Option Descriptor) (body : Bytes) : Prop :=
  ∃ items, split body = .ok items ∧ ∀ item ∈ items,
    (item.number = 1 ∧ item.wire = wireTypeFor row.mapKey) ∨
    (item.number = 2 ∧ item.wire = wireTypeFor row.mapValue ∧
      (row.mapValue = .message → ∀ D, sub = some D → typed D item.payload))

/-- An item of a declared field has the field's wire type, and so have the items within it. -/
def TypedItem (field : Row × Option Descriptor) (item : Item) : Prop :=
  accepts field.1 item.wire = true ∧
  (field.1.map = true → TypedEntry typed field.1 field.2 item.payload) ∧
  (field.1.map = false → field.1.kind = .message → ∀ D, field.2 = some D → typed D item.payload)

def TypedFields (D : Descriptor) (data : Bytes) : Prop :=
  ∃ items, split data = .ok items ∧ ∀ item ∈ items, ∀ i field,
    declared D item.number = some (i, field) → TypedItem typed field item

end

/-- The items of a message, and those of what is within it to a depth, have the wire types
    of their fields. -/
def TypedMessage : Nat → Descriptor → Bytes → Prop
  | 0, _, _ => True
  | n + 1, D, data => TypedFields (TypedMessage n) D data

def Typed (D : Descriptor) (data : Bytes) : Prop := TypedMessage (maxDepth + 1) D data

/-! ## Splitting -/

variable {after payload : Bytes} {rest : Bytes}

theorem payloadOf_local (wire : Wire) (h : payloadOf wire rest = .ok (payload, after)) :
    ∃ used, rest = used ++ after ∧ ∀ more, payloadOf wire (used ++ more) = .ok (payload, more) := by
  cases wire with
  | varint =>
    obtain ⟨⟨v, mid⟩, hv, hout⟩ := bind_ok.mp h
    cases hout
    obtain ⟨used, rfl, hsame⟩ := getVarint_local _ _ _ hv
    refine ⟨used, rfl, ?_⟩
    intro more
    simp [payloadOf, hsame more, bind, Except.bind]
  | i64 => exact take_local 8 rest payload after h
  | i32 => exact take_local 4 rest payload after h
  | len => exact readLen_local rest payload after h

/-- What is skipped is the payload. -/
theorem payloadOf_skip {wire : Wire}
    (h : payloadOf wire rest = .ok (payload, after)) : skip wire rest = .ok ((), after) := by
  cases wire with
  | varint =>
    obtain ⟨⟨v, mid⟩, hv, hout⟩ := bind_ok.mp h
    cases hout
    simp [skip, hv, bind, Except.bind]
  | i64 | i32 | len =>
    rw [payloadOf] at h
    simp [skip, h, bind, Except.bind]

/-- The parts of an item. -/
theorem itemAt_parts {bs : Bytes} {item : Item} (h : itemAt bs = .ok (item, rest)) :
    ∃ mid, readTag bs = .ok ((item.number, item.wire), mid) ∧
      payloadOf item.wire mid = .ok (item.payload, rest) ∧
      item.raw = bs.take (bs.length - rest.length) := by
  obtain ⟨⟨⟨number, wire⟩, mid⟩, htag, h⟩ := bind_ok.mp h
  obtain ⟨⟨payload, after⟩, hpay, h⟩ := bind_ok.mp h
  cases h
  exact ⟨mid, htag, hpay, rfl⟩

theorem itemAt_takes : Takes itemAt := by
  intro bs item rest h
  obtain ⟨mid, htag, hpay, -⟩ := itemAt_parts h
  have hless := readTag_takes bs _ mid htag
  obtain ⟨used, rfl, -⟩ := payloadOf_local _ hpay
  simp only [length_append] at hless
  omega

theorem take_front (used rest : Bytes) :
    (used ++ rest).take ((used ++ rest).length - rest.length) = used := by
  rw [length_append, Nat.add_sub_cancel, take_left]

/-- An item names its number in its own bytes. -/
theorem itemAt_raw {bs : Bytes} {item : Item} (h : itemAt bs = .ok (item, rest)) :
    ∃ tail, readTag item.raw = .ok ((item.number, item.wire), tail) := by
  obtain ⟨mid, htag, hpay, hraw⟩ := itemAt_parts h
  obtain ⟨used, rfl, hsame⟩ := readTag_local bs _ mid htag
  obtain ⟨used', rfl, -⟩ := payloadOf_local _ hpay
  refine ⟨used', ?_⟩
  rw [hraw, ← append_assoc, take_front]
  exact hsame used'

/-- The items of an input, one after the other. -/
inductive Splits : Bytes → List Item → Prop where
  | nil : Splits [] []
  | cons {bs rest : Bytes} {item : Item} {items : List Item}
      (hitem : itemAt bs = .ok (item, rest)) (hmore : Splits rest items) :
      Splits bs (item :: items)

theorem splitStep_shrinks : Shrinks splitStep := by
  intro items bs items' rest h
  obtain ⟨⟨item, mid⟩, hitem, h⟩ := bind_ok.mp h
  cases h
  exact itemAt_takes bs item _ hitem

variable {items : List Item} {data : Bytes}

theorem splits_of_drain {acc : List Item} (h : drain splitStep acc data = .ok items) :
    ∃ more, items = acc ++ more ∧ Splits data more := by
  induction hlen : data.length using Nat.strongRecOn generalizing acc data with
  | ind n ih =>
    rcases drain_ok splitStep_shrinks h with ⟨rfl, rfl⟩ | ⟨acc', rest, hstep, hless, hmore⟩
    · exact ⟨[], (append_nil acc).symm, .nil⟩
    · obtain ⟨⟨item, mid⟩, hitem, hout⟩ := bind_ok.mp hstep
      cases hout
      obtain ⟨more, rfl, hsplits⟩ := ih rest.length (by omega) hmore rfl
      exact ⟨item :: more, by simp, .cons hitem hsplits⟩

theorem split_ok (h : split data = .ok items) : Splits data items := by
  obtain ⟨more, rfl, hsplits⟩ := splits_of_drain h
  exact hsplits

/-- **A LOOP OVER ITEMS**: a reader that makes of every item what `f` makes of it runs over
    the input as `f` runs over the items. -/
theorem drain_items {S : Type} {step : S → Bytes → Except Refusal (S × Bytes)}
    (hshrinks : Shrinks step) {f : S → Item → Except Refusal S} (h : Splits data items)
    (hagree : ∀ item ∈ items, ∀ s bs rest, itemAt bs = .ok (item, rest) →
      step s bs = f s item >>= fun s' => .ok (s', rest)) (s : S) :
    drain step s data = items.foldlM f s := by
  induction h generalizing s with
  | nil => rfl
  | @cons bs rest item items hitem hmore ih =>
    have hne : bs ≠ [] := by
      rintro rfl
      exact absurd (itemAt_takes [] item rest hitem) (by simp)
    have hstep := hagree item mem_cons_self s bs rest hitem
    rw [foldlM_cons]
    cases hf : f s item with
    | error e =>
      rw [hf] at hstep
      exact drain_error hne hstep
    | ok s' =>
      rw [hf] at hstep
      rw [drain_step hshrinks hstep]
      exact ih (fun item hin => hagree item (mem_cons_of_mem _ hin)) s'


/-! ## The codec's readers on an item of the right wire type -/

variable {kind : Kind}

theorem take_own {n : Nat} (h : take n rest = .ok (payload, after)) :
    take n payload = .ok (payload, []) :=
  take_ok.mpr ⟨(take_ok.mp h).1, (append_nil payload).symm⟩

/-- A scalar of its own wire type is its payload, and nothing else. -/
theorem readScalar_item (hkind : wireTypeFor kind ≠ .len)
    (h : payloadOf (wireTypeFor kind) rest = .ok (payload, after)) :
    ∃ x, readScalar kind rest = .ok (x, after) ∧ readScalar kind payload = .ok (x, []) := by
  unfold readScalar
  cases hw : wireTypeFor kind with
  | len => exact absurd hw hkind
  | varint =>
    rw [hw] at h
    obtain ⟨⟨v, mid⟩, hv, hout⟩ := bind_ok.mp h
    cases hout
    obtain ⟨used, rfl, hsame⟩ := getVarint_local _ _ _ hv
    have hown := hsame []
    rw [append_nil] at hown
    refine ⟨varintScalar kind v, ?_, ?_⟩
    · simp only [hv]
      rfl
    · rw [take_front]
      simp only [hown]
      rfl
  | i64 =>
    rw [hw] at h
    have hown := take_own h
    refine ⟨i64Scalar kind payload, ?_, ?_⟩
    · simp only [show take 8 rest = .ok (payload, after) from h]
      rfl
    · simp only [hown]
      rfl
  | i32 =>
    rw [hw] at h
    have hown := take_own h
    refine ⟨i32Scalar kind payload, ?_, ?_⟩
    · simp only [show take 4 rest = .ok (payload, after) from h]
      rfl
    · simp only [hown]
      rfl

theorem wireTypeFor_len :
    wireTypeFor kind = .len ↔ kind = .string ∨ kind = .bytes ∨ kind = .message := by
  cases kind <;> decide

/-- A declared value of its own wire type is what its payload says. -/
theorem readDeclaredValue_item (hkind : kind ≠ .message)
    (h : payloadOf (wireTypeFor kind) rest = .ok (payload, after)) :
    readDeclaredValue kind rest = valueOf kind payload >>= fun x => .ok (x, after) := by
  unfold readDeclaredValue valueOf
  by_cases htext : kind = .string ∨ kind = .bytes
  · have hlen : wireTypeFor kind = .len := wireTypeFor_len.mpr (by tauto)
    rw [hlen] at h
    simp only [if_pos htext, show readLen rest = .ok (payload, after) from h]
    rfl
  · have hnot : wireTypeFor kind ≠ .len := fun hlen => by
      have := wireTypeFor_len.mp hlen
      tauto
    obtain ⟨x, hrest, hpay⟩ := readScalar_item hnot h
    simp only [if_neg htext, hrest, hpay]
    rfl

/-- The codec on an entry, which puts nothing aside. -/
def codecEntry (nested : Nested) (row : Row)
    (sub : Option Descriptor) (body : Bytes) : Except Refusal (Entry × List Bytes) := do
  .ok (← readEntry nested row sub body, [])


section
variable (nested : Nested)

variable {rest : Bytes} {item : Item} {field : Row × Option Descriptor} {b : Build}

/-- **A DECLARED FIELD**: with a wire type that the field accepts, the codec makes of it
    what the item says, and stops where the item ends. -/
theorem readField_item {i : Nat} {mid : Bytes} (haccepts : accepts field.1 item.wire = true)
    (hpay : payloadOf item.wire mid = .ok (item.payload, rest)) :
    readField nested field i item.wire b mid
      = assign nested (codecEntry nested) field i b item >>= fun b' => .ok (b', rest) := by
  obtain ⟨row, sub⟩ := field
  have hwire : item.wire = fieldWire row ∨ (row.repeated = true ∧ item.wire = .len) := by
    simpa [accepts] using haccepts
  have hbody : item.wire = .len → readLen mid = .ok (item.payload, rest) := by
    intro hlen
    rw [hlen] at hpay
    exact hpay
  unfold readField assign
  by_cases hmap : row.map = true
  · have hlen : item.wire = .len := by
      rcases hwire with h | h
      · rw [h, fieldWire, if_pos hmap]
      · exact h.2
    simp only [hmap, if_true, hlen, hbody hlen, assignBody, codecEntry, ok_bind]
    cases readEntry nested row sub item.payload <;> rfl
  have hown : fieldWire row = wireTypeFor row.kind := by rw [fieldWire, if_neg hmap]
  rw [hown] at hwire
  by_cases hmsg : row.kind = .message
  · have hlen : item.wire = .len := by
      rcases hwire with h | h
      · rw [h, hmsg]
        rfl
      · exact h.2
    simp only [hmap, hmsg, if_true, if_false, hlen, hbody hlen, assignBody, ok_bind,
      Bool.false_eq_true]
    cases sub with
    | none => rfl
    | some D =>
      dsimp only
      cases nested D item.payload <;> rfl
  by_cases htext : row.kind = .string ∨ row.kind = .bytes
  · have hlen : item.wire = .len := by
      rcases hwire with h | h
      · rw [h]
        exact wireTypeFor_len.mpr (by tauto)
      · exact h.2
    simp only [hmap, hmsg, htext, if_true, if_false, hlen, hbody hlen, assignBody, ok_bind,
      Bool.false_eq_true]
    cases textValue row.kind item.payload <;> rfl
  have hscalar : wireTypeFor row.kind ≠ .len := fun hlen => by
    have := wireTypeFor_len.mp hlen
    tauto
  by_cases hlen : item.wire = .len
  · have hrepeated : row.repeated = true := by
      rcases hwire with h | h
      · exact absurd (h.symm.trans hlen) hscalar
      · exact h.1
    simp only [hmap, hmsg, htext, hrepeated, if_true, if_false, hlen, hbody hlen, assignBody,
      ok_bind, Bool.false_eq_true, and_self]
    cases readPacked row.kind item.payload <;> rfl
  · have hsame : item.wire = wireTypeFor row.kind := by
      rcases hwire with h | h
      · exact h
      · exact absurd h.2 hlen
    rw [hsame] at hpay
    obtain ⟨x, hrest, hown⟩ := readScalar_item hscalar hpay
    simp only [hmap, hmsg, htext, if_false, hlen, hrest, valueOf, hown, ok_bind,
      Bool.false_eq_true, and_false]

variable {bs : Bytes} {D : Descriptor}

/-- One turn of the message loop, on an item of the right wire type. -/
theorem fieldStep_item (hnd : D.numbers.Nodup) (hitem : itemAt bs = .ok (item, rest))
    (haccepts : ∀ i field, declared D item.number = some (i, field) →
      accepts field.1 item.wire = true) : fieldStep nested D b bs
      = place nested (codecEntry nested) D b item >>= fun b' => .ok (b', rest) := by
  obtain ⟨mid, htag, hpay, hraw⟩ := itemAt_parts hitem
  unfold fieldStep place
  rw [htag, ok_bind]
  dsimp only
  rw [compiledFind_eq hnd]
  change (match declared D item.number with | none => _ | some (i, field) => _) = _
  cases hd : declared D item.number with
  | none =>
    rw [payloadOf_skip hpay, ok_bind, hraw]
    rfl
  | some x =>
    obtain ⟨i, field⟩ := x
    dsimp only
    rw [if_pos (haccepts i field hd)]
    exact readField_item nested (haccepts i field hd) hpay

/-- What an entry's items are, if it holds nothing else. -/
def EntryItem (row : Row) (item : Item) : Prop :=
  (item.number = 1 ∧ item.wire = wireTypeFor row.mapKey) ∨
  (item.number = 2 ∧ item.wire = wireTypeFor row.mapValue)

instance (row : Row) (item : Item) : Decidable (EntryItem row item) :=
  inferInstanceAs (Decidable (_ ∨ _))

variable {sub : Option Descriptor} {row : Row}

/-- One turn of the entry loop, on an item of the right wire type. -/
theorem entryStep_item (hkey : row.mapKey ≠ .message) {e : Entry} (own : List Bytes)
    (hitem : itemAt bs = .ok (item, rest)) (htyped : EntryItem row item) :
    entryStep nested row sub e bs
      = placeEntry nested row sub (e, own) item >>= fun s => .ok (s.1, rest) := by
  obtain ⟨mid, htag, hpay, hraw⟩ := itemAt_parts hitem
  unfold entryStep placeEntry
  rw [htag, ok_bind]
  rcases htyped with ⟨hone, hwire⟩ | ⟨htwo, hwire⟩
  · rw [hwire] at hpay
    simp only [hone, hwire, and_self, if_true, readDeclaredValue_item hkey hpay]
    cases valueOf row.mapKey item.payload <;> rfl
  · rw [hwire] at hpay
    by_cases hmsg : row.mapValue = .message
    · have hlen : readLen mid = .ok (item.payload, rest) := by
        rw [hmsg] at hpay
        exact hpay
      simp only [htwo, hwire, hmsg, hlen, and_self, if_true, ok_bind]
      cases sub with
      | none => rfl
      | some D =>
        dsimp only
        cases nested D item.payload <;> rfl
    · simp only [htwo, hwire, hmsg, and_self, and_false, if_true, if_false,
        readDeclaredValue_item hmsg hpay]
      cases valueOf row.mapValue item.payload <;> rfl

variable {s s' : Entry × List Bytes}

/-- What the placing of an item in an entry does. -/
theorem placeEntry_cases (h : placeEntry nested row sub s item = .ok s') :
    (¬ EntryItem row item ∧ s'.2 = s.2 ++ [item.raw] ∧ s'.1.within = s.1.within) ∨
    (EntryItem row item ∧ s'.2 = s.2 ∧
      ((item.number = 2 ∧ row.mapValue = .message ∧ ∃ D v k, sub = some D ∧
          nested D item.payload = .ok (v, k) ∧ s'.1.within = s.1.within ++ [k]) ∨
        (¬ (item.number = 2 ∧ row.mapValue = .message) ∧ s'.1.within = s.1.within))) := by
  unfold placeEntry at h
  dsimp only at h
  split at h
  · next hkey =>
      obtain ⟨x, -, h⟩ := bind_ok.mp h
      cases h
      refine .inr ⟨.inl hkey, rfl, .inr ⟨by omega, rfl⟩⟩
  · split at h
    · next hnot hvalue =>
        split at h
        · next hmsg =>
            split at h
            · cases h
            · next D =>
                obtain ⟨⟨v, k⟩, hv, h⟩ := bind_ok.mp h
                cases h
                exact .inr ⟨.inr hvalue, rfl, .inl ⟨hvalue.1, hmsg, D, v, k, rfl, hv, rfl⟩⟩
        · next hmsg =>
            obtain ⟨x, -, h⟩ := bind_ok.mp h
            cases h
            exact .inr ⟨.inr hvalue, rfl, .inr ⟨fun hand => hmsg hand.2, rfl⟩⟩
    · next hnot hnot' =>
        cases h
        exact .inl ⟨fun hitem => hitem.elim hnot hnot', rfl, rfl⟩

theorem placeEntry_message (h : placeEntry nested row sub s item = .ok s')
    (hitem : EntryItem row item) (htwo : item.number = 2) (hmsg : row.mapValue = .message)
    (hD : sub = some D) :
    ∃ v k, nested D item.payload = .ok (v, k) ∧ s'.1.within = s.1.within ++ [k] := by
  rcases placeEntry_cases nested h with ⟨hno, -⟩ | ⟨-, -, hmessage | hother⟩
  · exact absurd hitem hno
  · obtain ⟨-, -, D', v, k, hD', hv, hw⟩ := hmessage
    cases hD.symm.trans hD'
    exact ⟨v, k, hv, hw⟩
  · exact absurd ⟨htwo, hmsg⟩ hother.1

/-- How many messages are read with an item of an entry. -/
def entrySize (row : Row) (item : Item) : Nat :=
  if EntryItem row item ∧ item.number = 2 ∧ row.mapValue = .message then 1 else 0

theorem placeEntry_logs (h : placeEntry nested row sub s item = .ok s') :
    ∃ ks, ks.length = entrySize row item ∧ s'.1.within = s.1.within ++ ks := by
  unfold entrySize
  rcases placeEntry_cases nested h with ⟨hno, -, hw⟩ | ⟨hitem, -, hmsg | hother⟩
  · rw [if_neg fun hall => hno hall.1]
    exact ⟨[], rfl, hw.trans (append_nil _).symm⟩
  · obtain ⟨htwo, hmsg, D, v, k, -, -, hw⟩ := hmsg
    rw [if_pos ⟨hitem, htwo, hmsg⟩]
    exact ⟨[k], rfl, hw⟩
  · rw [if_neg fun hall => hother.1 hall.2]
    exact ⟨[], rfl, hother.2.trans (append_nil _).symm⟩

/-- What the placing of an item in a message does. -/
theorem place_cases {entry : Entries} {b' : Build} (h : place nested entry D b item = .ok b') :
    ((∀ i field, declared D item.number = some (i, field) → accepts field.1 item.wire = false) ∧
      b'.unknown = b.unknown ++ [item.raw] ∧ b'.within = b.within) ∨
    ∃ i field, declared D item.number = some (i, field) ∧
      accepts field.1 item.wire = true ∧ b'.unknown = b.unknown ∧
      ((field.1.map = true ∧ ∃ e own, entry field.1 field.2 item.payload = .ok (e, own) ∧
          b'.within = b.within ++ [.mk own e.within]) ∨
        (field.1.map = false ∧ field.1.kind = .message ∧ ∃ D' v k, field.2 = some D' ∧
          nested D' item.payload = .ok (v, k) ∧ b'.within = b.within ++ [k]) ∨
        (field.1.map = false ∧ field.1.kind ≠ .message ∧ b'.within = b.within)) := by
  unfold place at h
  split at h
  · next hnone =>
      cases h
      exact .inl ⟨fun i field hd => (nomatch hnone.symm.trans hd), rfl, rfl⟩
  next i field hsome =>
  split at h
  swap
  · next hno =>
      cases h
      refine .inl ⟨?_, rfl, rfl⟩
      intro j field' hd
      cases hsome.symm.trans hd
      simpa using hno
  next hacc =>
  refine .inr ⟨i, field, hsome, hacc, ?_⟩
  obtain ⟨row, sub⟩ := field
  unfold assign at h
  split at h
  · unfold assignBody at h
    dsimp only at h
    split at h
    · next hmap =>
        obtain ⟨⟨e, own⟩, he, h⟩ := bind_ok.mp h
        cases h
        exact ⟨rfl, .inl ⟨hmap, e, own, he, rfl⟩⟩
    next hmap =>
    have hmap : row.map = false := by simpa using hmap
    split at h
    · next hmsg =>
        split at h
        · cases h
        · next D' =>
            obtain ⟨⟨v, k⟩, hv, h⟩ := bind_ok.mp h
            cases h
            exact ⟨rfl, .inr (.inl ⟨hmap, hmsg, D', v, k, rfl, hv, rfl⟩)⟩
    next hmsg =>
    split at h
    · obtain ⟨x, -, h⟩ := bind_ok.mp h
      cases h
      exact ⟨rfl, .inr (.inr ⟨hmap, hmsg, rfl⟩)⟩
    · obtain ⟨xs, -, h⟩ := bind_ok.mp h
      cases h
      exact ⟨rfl, .inr (.inr ⟨hmap, hmsg, rfl⟩)⟩
  · next hlen =>
      -- an item that is not length-delimited is a scalar's
      have hwire : item.wire = fieldWire row := by
        have : item.wire = fieldWire row ∨ (row.repeated = true ∧ item.wire = .len) := by
          simpa [accepts] using hacc
        tauto
      have hmap : row.map = false := by
        by_contra hmap
        rw [fieldWire, if_pos (by simpa using hmap)] at hwire
        exact hlen hwire
      have hmsg : row.kind ≠ .message := by
        intro hmsg
        rw [fieldWire, hmap, hmsg] at hwire
        exact hlen hwire
      obtain ⟨x, -, h⟩ := bind_ok.mp h
      cases h
      exact ⟨rfl, .inr (.inr ⟨hmap, hmsg, rfl⟩)⟩

/-- Every turn of the entry loop uses something up. -/
theorem entryStep_shrinks (row : Row) (sub : Option Descriptor) :
    Shrinks (entryStep nested row sub) := by
  intro e bs e' rest h
  obtain ⟨⟨⟨number, wire⟩, mid⟩, htag, h⟩ := bind_ok.mp h
  have hmid := readTag_takes bs _ mid htag
  dsimp only at h
  split at h
  · obtain ⟨⟨x, after⟩, hx, h⟩ := bind_ok.mp h
    cases h
    exact Nat.lt_of_le_of_lt ((readDeclaredValue_local row.mapKey).le hx) hmid
  split at h
  · obtain ⟨⟨body, after⟩, hbody, h⟩ := bind_ok.mp h
    split at h
    · cases h
    · obtain ⟨⟨v, k⟩, -, h⟩ := bind_ok.mp h
      cases h
      exact Nat.lt_of_le_of_lt (readLen_local.le hbody) hmid
  split at h
  · obtain ⟨⟨x, after⟩, hx, h⟩ := bind_ok.mp h
    cases h
    exact Nat.lt_of_le_of_lt ((readDeclaredValue_local row.mapValue).le hx) hmid
  · obtain ⟨⟨_, after⟩, hskip, h⟩ := bind_ok.mp h
    cases h
    exact Nat.lt_of_le_of_lt ((skip_local wire).le hskip) hmid

/-- A declared field is taken from the front, and is not put aside. -/
theorem readField_takes {i : Nat} {wire : Wire} {b' : Build}
    (h : readField nested field i wire b bs = .ok (b', rest)) :
    rest.length ≤ bs.length ∧ b'.unknown = b.unknown := by
  unfold readField at h
  dsimp only at h
  split at h
  · obtain ⟨⟨body, after⟩, hbody, h⟩ := bind_ok.mp h
    obtain ⟨e, -, h⟩ := bind_ok.mp h
    cases h
    exact ⟨readLen_local.le hbody, rfl⟩
  split at h
  · obtain ⟨⟨body, after⟩, hbody, h⟩ := bind_ok.mp h
    split at h
    · cases h
    · obtain ⟨out, -, h⟩ := bind_ok.mp h
      cases h
      exact ⟨readLen_local.le hbody, rfl⟩
  split at h
  · obtain ⟨⟨body, after⟩, hbody, h⟩ := bind_ok.mp h
    obtain ⟨x, -, h⟩ := bind_ok.mp h
    cases h
    exact ⟨readLen_local.le hbody, rfl⟩
  split at h
  · obtain ⟨⟨body, after⟩, hbody, h⟩ := bind_ok.mp h
    obtain ⟨xs, -, h⟩ := bind_ok.mp h
    cases h
    exact ⟨readLen_local.le hbody, rfl⟩
  · obtain ⟨⟨x, after⟩, hx, h⟩ := bind_ok.mp h
    cases h
    exact ⟨(readScalar_local field.1.kind).le hx, rfl⟩

/-- Every turn of the message loop uses something up. -/
theorem fieldStep_shrinks (D : Descriptor) : Shrinks (fieldStep nested D) := by
  intro b bs b' rest h
  obtain ⟨⟨⟨number, wire⟩, mid⟩, htag, h⟩ := bind_ok.mp h
  have hmid := readTag_takes bs _ mid htag
  dsimp only at h
  split at h
  · obtain ⟨⟨_, after⟩, hskip, h⟩ := bind_ok.mp h
    cases h
    exact Nat.lt_of_le_of_lt ((skip_local wire).le hskip) hmid
  · have := (readField_takes nested h).1
    omega

/-- The codec on an entry all of whose items are its key or its value. -/
theorem codecEntry_items (sub : Option Descriptor) (hkey : row.mapKey ≠ .message) {body : Bytes}
    (hsplits : Splits body items) (htyped : ∀ item ∈ items, EntryItem row item) :
    codecEntry nested row sub body = items.foldlM (placeEntry nested row sub) (.start row, []) := by
  have hloop : readEntry nested row sub body
      = items.foldlM (fun e item => placeEntry nested row sub (e, []) item >>= fun s =>
          .ok s.1) (.start row) := by
    refine drain_items (entryStep_shrinks nested row sub) hsplits ?_ _
    intro item hin e bs rest hitem
    rw [entryStep_item nested hkey [] hitem (htyped item hin)]
    cases placeEntry nested row sub (e, []) item <;> rfl
  unfold codecEntry
  rw [hloop]
  clear hloop hsplits
  generalize Entry.start row = e
  induction items generalizing e with
  | nil => rfl
  | cons item items ih =>
    rw [foldlM_cons, foldlM_cons]
    cases hplace : placeEntry nested row sub (e, []) item with
    | error err => rfl
    | ok s =>
      have hown : s.2 = [] := by
        rcases placeEntry_cases nested hplace with ⟨hnot, -⟩ | ⟨-, hown, -⟩
        · exact absurd (htyped item mem_cons_self) hnot
        · exact hown
      obtain ⟨e', own⟩ := s
      cases hown
      exact ih (fun x hx => htyped x (mem_cons_of_mem item hx)) e'

/-- The codec on a message all of whose items have wire types that their fields accept. -/
theorem fields_items (hnd : D.numbers.Nodup) (hsplits : Splits data items)
    (haccepts : ∀ item ∈ items, ∀ i field, declared D item.number = some (i, field) →
      accepts field.1 item.wire = true) (b : Build) :
    drain (fieldStep nested D) b data = items.foldlM (place nested (codecEntry nested) D) b := by
  refine drain_items (fieldStep_shrinks nested D) hsplits ?_ b
  intro item hin b bs rest hitem
  exact fieldStep_item nested hnd hitem (haccepts item hin)

end

/-! ## One level -/

section
variable {f g : Nested}
variable {typed : Descriptor → Bytes → Prop}

variable {row : Row} {sub : Option Descriptor} {s' : Entry × List Bytes} {item : Item}

variable {s : Entry × List Bytes}

theorem placeEntry_same (hsame : item.number = 2 → row.mapValue = .message → ∀ D r, sub = some D →
      f D item.payload = .ok r → g D item.payload = .ok r)
    (h : placeEntry f row sub s item = .ok s') : placeEntry g row sub s item = .ok s' := by
  unfold placeEntry at h ⊢
  dsimp only at h ⊢
  split at h
  · next hkey =>
      rw [if_pos hkey]
      exact h
  next hkey =>
  rw [if_neg hkey]
  split at h
  · next hvalue =>
      rw [if_pos hvalue]
      split at h
      · next hmsg =>
          rw [if_pos hmsg]
          cases sub with
          | none => cases h
          | some D =>
            obtain ⟨r, hr, h⟩ := bind_ok.mp h
            dsimp only
            rw [hsame hvalue.1 hmsg D r rfl hr]
            exact h
      · next hmsg =>
          rw [if_neg hmsg]
          exact h
  · next hvalue =>
      rw [if_neg hvalue]
      exact h

/-- What is typed is read alike. -/
def Agrees (typed : Descriptor → Bytes → Prop) (f g : Nested) (sub : Option Descriptor) : Prop :=
  ∀ D body r, sub = some D → typed D body → f D body = .ok r → g D body = .ok r

/-- **A TYPED ENTRY** is read as the reference reads it. -/
theorem entry_same {body : Bytes} {e : Entry} (hkey : row.mapKey ≠ .message)
    (hsame : Agrees typed f g sub) (htyped : TypedEntry typed row sub body)
    (h : readEntry f row sub body = .ok e) : referenceEntry g row sub body = .ok (e, []) := by
  obtain ⟨items, hsplit, hitems⟩ := htyped
  have hloop := codecEntry_items f sub hkey (split_ok hsplit)
    (fun item hin => (hitems item hin).imp_right fun hv => ⟨hv.1, hv.2.1⟩)
  unfold codecEntry at hloop
  rw [h] at hloop
  unfold referenceEntry
  rw [hsplit]
  refine foldlM_of_steps ?_ hloop.symm
  intro item hin s s' hplace
  refine placeEntry_same ?_ hplace
  intro htwo hmsg D r hD hr
  rcases hitems item hin with ⟨hone, -⟩ | ⟨-, -, hbelow⟩
  · exact absurd (hone.symm.trans htwo) (by decide)
  · exact hsame D item.payload r hD (hbelow hmsg D hD) hr

variable {items : List Item}

/-- An entry for which the reference puts nothing aside has no other items. -/
theorem entry_items (h : items.foldlM (placeEntry g row sub) s = .ok s')
    (hnone : s'.2 = []) : s.2 = [] ∧ ∀ item ∈ items, EntryItem row item := by
  induction items generalizing s with
  | nil =>
    cases h
    exact ⟨hnone, nofun⟩
  | cons item items ih =>
    obtain ⟨mid, hplace, h⟩ := bind_ok.mp h
    obtain ⟨hmid, hitems⟩ := ih h
    rcases placeEntry_cases g hplace with ⟨-, hadd, -⟩ | ⟨hitem, hown, -⟩
    · rw [hmid] at hadd
      exact absurd hadd.symm (by simp)
    · exact ⟨hown.symm.trans hmid, forall_mem_cons.mpr ⟨hitem, hitems⟩⟩

/-- **AN ENTRY READ LIKE THE REFERENCE IS TYPED.** -/
theorem entry_typed {body : Bytes} {e e' : Entry} (hkey : row.mapKey ≠ .message)
    (htyped : ∀ D body v v' k, sub = some D → f D body = .ok (v, k) →
      g D body = .ok (v', k) → typed D body) (h : readEntry f row sub body = .ok e)
    (href : referenceEntry g row sub body = .ok (e', [])) (hwith : e.within = e'.within) :
    TypedEntry typed row sub body := by
  obtain ⟨items, hsplit, href⟩ := bind_ok.mp href
  obtain ⟨-, hitems⟩ := entry_items href rfl
  have hloop := codecEntry_items f sub hkey (split_ok hsplit) hitems
  unfold codecEntry at hloop
  rw [h, ok_bind] at hloop
  -- both loops log one part for every value that is a message
  have hends : ((e, []) : Entry × List Bytes).1.within
      = ((e', []) : Entry × List Bytes).1.within := hwith
  have hsize : ∀ (nested : Nested) s x s',
      placeEntry nested row sub s x = .ok s' →
      ∃ ks, ks.length = entrySize row x ∧ s'.1.within = s.1.within ++ ks :=
    fun nested _ _ _ hplace => placeEntry_logs nested hplace
  have hlogs := foldlM_logs (fun s : Entry × List Bytes => s.1.within) (hsize f) (hsize g)
    hloop.symm href hends
  refine ⟨items, hsplit, ?_⟩
  intro item hin
  refine (hitems item hin).imp_right ?_
  rintro ⟨htwo, hwire⟩
  refine ⟨htwo, hwire, ?_⟩
  intro hmsg D hD
  obtain ⟨s₁, s₂, r₁, r₂, ks, hf, hg, hlogf, hlogg⟩ := hlogs item hin
  obtain ⟨v, k, hv, hk⟩ := placeEntry_message f hf (hitems item hin) htwo hmsg hD
  obtain ⟨v', k', hv', hk'⟩ := placeEntry_message g hg (hitems item hin) htwo hmsg hD
  have hsame : k = k' := by
    have hks := append_cancel_left (hk.symm.trans hlogf)
    have hks' := append_cancel_left (hk'.symm.trans hlogg)
    exact (List.cons.inj (hks.trans hks'.symm)).1
  exact htyped D item.payload v v' k hD hv (hsame ▸ hv')

variable {D : Descriptor} {b' : Build} {b : Build}

/-- An item that is typed, with what is below it, is placed as the reference places it. -/
theorem place_same (hitem : ∀ i field, declared D item.number = some (i, field) →
      TypedItem typed field item ∧ (field.1.map = true → field.1.mapKey ≠ .message) ∧
      Agrees typed f g field.2)
    (h : place f (codecEntry f) D b item = .ok b') :
    place g (referenceEntry g) D b item = .ok b' := by
  unfold place at h ⊢
  split at h
  · exact h
  next i field hsome =>
  obtain ⟨⟨hacc, hentry, hmessage⟩, hkey, hsame⟩ := hitem i field hsome
  rw [if_pos hacc] at h ⊢
  unfold assign at h ⊢
  split at h
  swap
  · next hlen =>
      rw [if_neg hlen]
      exact h
  next hlen =>
  rw [if_pos hlen]
  unfold assignBody at h ⊢
  dsimp only at h ⊢
  split at h
  · next hmap =>
      rw [if_pos hmap]
      obtain ⟨⟨e, own⟩, he, h⟩ := bind_ok.mp h
      obtain ⟨e', he', hown⟩ := bind_ok.mp he
      cases hown
      rw [entry_same (hkey hmap) hsame (hentry hmap) he']
      exact h
  next hmap =>
  rw [if_neg hmap]
  split at h
  · next hmsg =>
      rw [if_pos hmsg]
      split at h
      · cases h
      · next D' hD' =>
          obtain ⟨r, hr, h⟩ := bind_ok.mp h
          rw [hsame D' item.payload r hD' (hmessage (by simpa using hmap) hmsg D' hD') hr]
          exact h
  next hmsg =>
  rw [if_neg hmsg]
  exact h

/-- How many messages and entries are read with an item. -/
def placeSize (D : Descriptor) (item : Item) : Nat :=
  match declared D item.number with
  | none => 0
  | some (_, field) =>
    if accepts field.1 item.wire ∧ (field.1.map ∨ field.1.kind = .message) then 1 else 0

variable {entry : Entries}

theorem place_logs {nested : Nested} (h : place nested entry D b item = .ok b') :
    ∃ ks, ks.length = placeSize D item ∧ b'.within = b.within ++ ks := by
  unfold placeSize
  rcases place_cases nested h with ⟨hno, -, hw⟩ | ⟨i, field, hsome, hacc, -, hmap | hmsg | hother⟩
  · refine ⟨[], ?_, hw.trans (append_nil _).symm⟩
    split
    · rfl
    · next i field hsome =>
        rw [if_neg]
        · rfl
        · rintro ⟨hacc, -⟩
          exact absurd (hno i field hsome) (by simp [hacc])
  · obtain ⟨hmap, e, own, -, hw⟩ := hmap
    refine ⟨[_], ?_, hw⟩
    rw [hsome]
    simp [hacc, hmap]
  · obtain ⟨-, hmsg, D', v, k, -, -, hw⟩ := hmsg
    refine ⟨[k], ?_, hw⟩
    rw [hsome]
    simp [hacc, hmsg]
  · obtain ⟨hmap, hmsg, hw⟩ := hother
    refine ⟨[], ?_, hw.trans (append_nil _).symm⟩
    rw [hsome]
    simp [hmap, hmsg]

section

variable {nested : Nested} {i : Nat} {field : Row × Option Descriptor}
  (h : place nested entry D b item = .ok b') (hd : declared D item.number = some (i, field))
  (hacc : accepts field.1 item.wire = true)
include h hd hacc

theorem place_entry (hmap : field.1.map = true) :
    ∃ e own, entry field.1 field.2 item.payload = .ok (e, own) ∧
      b'.within = b.within ++ [.mk own e.within] := by
  rcases place_cases nested h with ⟨hno, -⟩ | ⟨j, field', hd', -, -, hentry | ⟨hnot, -⟩ | ⟨hnot, -⟩⟩
  · exact absurd (hno i field hd) (by simp [hacc])
  all_goals cases hd.symm.trans hd'
  · exact hentry.2
  · exact absurd hmap (by simp [hnot])
  · exact absurd hmap (by simp [hnot])

theorem place_message (hmap : field.1.map = false)
    (hmsg : field.1.kind = .message) {D' : Descriptor} (hD' : field.2 = some D') :
    ∃ v k, nested D' item.payload = .ok (v, k) ∧ b'.within = b.within ++ [k] := by
  rcases place_cases nested h with
    ⟨hno, -⟩ | ⟨j, field', hd', -, -, ⟨hnot, -⟩ | hmessage | ⟨-, hnot, -⟩⟩
  · exact absurd (hno i field hd) (by simp [hacc])
  all_goals cases hd.symm.trans hd'
  · exact absurd hnot (by simp [hmap])
  · obtain ⟨-, -, D'', v, k, hD'', hv, hw⟩ := hmessage
    cases hD'.symm.trans hD''
    exact ⟨v, k, hv, hw⟩
  · exact absurd hmsg hnot

end

variable {data : Bytes}

def Undeclared (D : Descriptor) (b : Build) : Prop := ∀ raw ∈ b.unknown, ∃ number wire tail,
  readTag raw = .ok ((number, wire), tail) ∧ declared D number = none

/-- What the codec puts aside is not declared. -/
theorem unknown_undeclared (hnd : D.numbers.Nodup) (h : drain (fieldStep f D) b data = .ok b')
    (hb : Undeclared D b) : Undeclared D b' := by
  refine drain_invariant (P := Undeclared D) (fieldStep_shrinks f D) ?_ hb h
  intro b bs b' rest hold hstep
  obtain ⟨⟨⟨number, wire⟩, mid⟩, htag, hstep⟩ := bind_ok.mp hstep
  dsimp only at hstep
  rw [compiledFind_eq hnd] at hstep
  split at hstep
  · next hnone =>
      obtain ⟨⟨_, after⟩, hskip, hstep⟩ := bind_ok.mp hstep
      cases hstep
      intro raw hraw
      rcases mem_append.mp hraw with hin | hlast
      · exact hold raw hin
      · obtain ⟨used, rfl, hsame⟩ := readTag_local bs _ mid htag
        obtain ⟨used', rfl, -⟩ := skip_local wire _ _ _ hskip
        rw [mem_singleton.mp hlast, ← append_assoc, take_front]
        exact ⟨number, wire, used', hsame used', hnone⟩
  · rw [Undeclared, (readField_takes f hstep).2]
    exact hold

/-- The field of a declared number is one of the descriptor's. -/
theorem declared_mem {number i : Nat} {field : Row × Option Descriptor}
    (h : declared D number = some (i, field)) : field ∈ D.fields := by
  obtain ⟨j, -, hj⟩ := Option.bind_eq_some_iff.mp h
  obtain ⟨field', hat, hsame⟩ := Option.map_eq_some_iff.mp hj
  cases hsame
  exact mem_of_getElem? hat

/-- **A TYPED MESSAGE** is read as the reference reads it. -/
theorem fields_same (hnd : D.numbers.Nodup)
    (hkey : ∀ field ∈ D.fields, field.1.map = true → field.1.mapKey ≠ .message)
    (hsame : ∀ field ∈ D.fields, Agrees typed f g field.2) (htyped : TypedFields typed D data)
    (h : drain (fieldStep f D) b data = .ok b') :
    ∃ items, split data = .ok items ∧ items.foldlM (place g (referenceEntry g) D) b = .ok b' := by
  obtain ⟨items, hsplit, hitems⟩ := htyped
  have hloop := fields_items f hnd (split_ok hsplit)
    (fun item hin i field hd => (hitems item hin i field hd).1) b
  refine ⟨items, hsplit, foldlM_of_steps ?_ (hloop.symm.trans h)⟩
  intro item hin s s' hplace
  exact place_same (fun i field hd => ⟨hitems item hin i field hd, hkey field (declared_mem hd),
    hsame field (declared_mem hd)⟩) hplace

/-- Items that the codec would not put aside have accepted wire types. -/
theorem items_accepted (hsplits : Splits data items) (h : items.foldlM (place g entry D) b = .ok b')
    (hraw : Undeclared D b') :
    (∀ raw ∈ b.unknown, raw ∈ b'.unknown) ∧
    ∀ item ∈ items, ∀ i field, declared D item.number = some (i, field) →
      accepts field.1 item.wire = true := by
  induction hsplits generalizing b with
  | nil =>
    cases h
    exact ⟨fun _ => id, nofun⟩
  | @cons bs rest item items hitem hmore ih =>
    obtain ⟨mid, hplace, h⟩ := bind_ok.mp h
    obtain ⟨hgrows, hitems⟩ := ih h
    rcases place_cases g hplace with ⟨hno, hadd, -⟩ | ⟨i, field, hd, hacc, hown, -⟩
    · refine ⟨fun raw hin => hgrows raw (by rw [hadd]; simp [hin]), ?_⟩
      refine forall_mem_cons.mpr ⟨?_, hitems⟩
      intro i field hd
      -- it is put aside, so its number would be undeclared
      obtain ⟨number, wire, tail, htag, hnone⟩ :=
        hraw item.raw (hgrows item.raw (by rw [hadd]; simp))
      obtain ⟨tail', htag'⟩ := itemAt_raw hitem
      cases htag.symm.trans htag'
      exact nomatch hnone.symm.trans hd
    · refine ⟨fun raw hin => hgrows raw (by rw [hown]; exact hin), ?_⟩
      refine forall_mem_cons.mpr ⟨?_, hitems⟩
      intro j field' hd'
      cases hd.symm.trans hd'
      exact hacc

/-- **A MESSAGE READ LIKE THE REFERENCE IS TYPED**: the same is put aside by both, so no
    item of a declared field is. -/
theorem fields_typed (hnd : D.numbers.Nodup)
    (hkey : ∀ field ∈ D.fields, field.1.map = true → field.1.mapKey ≠ .message)
    (htyped : ∀ field ∈ D.fields, ∀ D' body v v' k, field.2 = some D' →
      f D' body = .ok (v, k) → g D' body = .ok (v', k) → typed D' body)
    (h : drain (fieldStep f D) (.start D) data = .ok b) (hsplit : split data = .ok items)
    (href : items.foldlM (place g (referenceEntry g) D) (.start D) = .ok b')
    (hunknown : b.unknown = b'.unknown) (hwith : b.within = b'.within) :
    TypedFields typed D data := by
  have hsplits := split_ok hsplit
  have hraw := unknown_undeclared hnd h nofun
  rw [Undeclared, hunknown] at hraw
  obtain ⟨-, haccepts⟩ := items_accepted hsplits href hraw
  have hloop := (fields_items f hnd hsplits haccepts (.start D)).symm.trans h
  have hsize : ∀ (nested : Nested) entry s x s',
      place nested entry D s x = .ok s' →
      ∃ ks, ks.length = placeSize D x ∧ s'.within = s.within ++ ks :=
    fun _ _ _ _ _ hplace => place_logs hplace
  have hlogs := foldlM_logs Build.within (hsize f (codecEntry f))
    (hsize g (referenceEntry g)) hloop href hwith
  refine ⟨items, hsplit, ?_⟩
  intro item hin i field hd
  have hmem := declared_mem hd
  have hacc := haccepts item hin i field hd
  obtain ⟨s₁, s₂, r₁, r₂, ks, hf, hg, hlogf, hlogg⟩ := hlogs item hin
  refine ⟨hacc, ?_, ?_⟩
  · intro hmap
    obtain ⟨e, own, he, hk⟩ := place_entry hf hd hacc hmap
    obtain ⟨e₀, hcode, hown⟩ := bind_ok.mp he
    cases hown
    obtain ⟨e', own', he', hk'⟩ := place_entry hg hd hacc hmap
    have hks := append_cancel_left (hk.symm.trans hlogf)
    have hks' := append_cancel_left (hk'.symm.trans hlogg)
    obtain ⟨rfl, hents⟩ := Kept.mk.inj (List.cons.inj (hks.trans hks'.symm)).1
    exact entry_typed (hkey field hmem hmap) (htyped field hmem) hcode he' hents
  · intro hmap hmsg D' hD'
    obtain ⟨v, k, hv, hk⟩ := place_message hf hd hacc hmap hmsg hD'
    obtain ⟨v', k', hv', hk'⟩ := place_message hg hd hacc hmap hmsg hD'
    have hks := append_cancel_left (hk.symm.trans hlogf)
    have hks' := append_cancel_left (hk'.symm.trans hlogg)
    have hsame : k = k' := (List.cons.inj (hks.trans hks'.symm)).1
    exact htyped field hmem D' item.payload v v' k hD' hv (hsame ▸ hv')

end

/-! ## Whole messages -/

variable {D : Descriptor}

theorem finish_kept {b : Build} {v : Value} {k : Kept}
    (h : b.finish D = .ok (v, k)) : k = .mk b.unknown b.within := by
  unfold Build.finish at h
  split at h
  · cases h
    rfl
  · cases h

theorem message_same {n : Nat} (hD : D.Valid) {m : Value × Kept} (htyped : TypedMessage n D data)
    (h : decodeMessage n D data = .ok m) : referenceMessage n D data = .ok m := by
  induction n generalizing D data m with
  | zero => cases h
  | succ n ih =>
    obtain ⟨b, hloop, hfin⟩ := bind_ok.mp h
    obtain ⟨items, hsplit, hplaced⟩ := fields_same hD.nodup hD.key
      (fun field hfield D' body r hD' ht hr => ih (hD.sub hfield hD') ht hr)
      htyped hloop
    simp only [referenceMessage]
    rw [hsplit, ok_bind, hplaced]
    exact hfin

theorem message_typed {n : Nat} (hD : D.Valid)
    {v v' : Value} {k : Kept} (h : decodeMessage n D data = .ok (v, k))
    (href : referenceMessage n D data = .ok (v', k)) : TypedMessage n D data := by
  induction n generalizing D data v v' k with
  | zero => cases h
  | succ n ih =>
    obtain ⟨b, hloop, hfin⟩ := bind_ok.mp h
    obtain ⟨items, hsplit, href⟩ := bind_ok.mp href
    obtain ⟨b', hplaced, hfin'⟩ := bind_ok.mp href
    have hkept := (finish_kept hfin).symm.trans (finish_kept hfin')
    obtain ⟨hunknown, hwith⟩ := Kept.mk.inj hkept
    exact fields_typed hD.nodup hD.key
      (fun field hfield D' body v v' k hD' hc hr => ih (hD.sub hfield hD') hc hr)
      hloop hsplit hplaced hunknown hwith

/-- **WIRE TYPES**: an input that decodes gives the message of the reference decoder, and
    puts aside what that puts aside, exactly if every item, also within messages and map
    entries, has the wire type of its field. -/
theorem decode_respects_wire_types {D : Descriptor} (hD : D.Valid) {data : Bytes}
    {m : Value × Kept} (h : read D data = .ok m) : reference D data = .ok m ↔ Typed D data := by
  constructor
  · intro href
    exact message_typed hD h href
  · intro htyped
    exact message_same hD htyped h

/-! ## A field that arrives with another wire type -/

/-- An `int32` field. -/
def intRow (number : Nat) : Row := ⟨number, .int32, false, false, false, false, .int32, .int32, []⟩

def twoInts : Descriptor := .mk [(intRow 1, none), (intRow 2, none)] []

theorem twoInts_valid : twoInts.Valid := by
  have hrow : ∀ n, 1 ≤ n ∧ n ≤ 2 → (intRow n).Valid none := fun n hn =>
    ⟨⟨hn.1, Nat.le_trans hn.2 (by decide)⟩, nofun, nofun, nofun, nofun, fun _ => ⟨nofun, nofun⟩, fun _ _ => nofun⟩
  refine .mk ?_ (by decide) ⟨nofun, nofun, List.Pairwise.nil⟩ ?_
  · intro field hfield
    rcases mem_cons.mp hfield with rfl | hfield
    · exact hrow 1 (by decide)
    · rw [mem_singleton.mp hfield]
      exact hrow 2 (by decide)
  · intro field hfield D hD
    rcases mem_cons.mp hfield with rfl | hfield
    · cases hD
    · rw [mem_singleton.mp hfield] at hD
      cases hD

/-- Two fields of the right wire type. -/
theorem decode_respects_wire_types_varints : read twoInts [0x08, 5, 0x10, 7]
        = .ok (.message [.scalar (.int 5), .scalar (.int 7)] [], .mk [] []) ∧
      Typed twoInts [0x08, 5, 0x10, 7] := by
  have hread : read twoInts [0x08, 5, 0x10, 7]
      = .ok (.message [.scalar (.int 5), .scalar (.int 7)] [], .mk [] []) := by rfl
  exact ⟨hread, (decode_respects_wire_types twoInts_valid hread).mp (by rfl)⟩

/-- **MISREAD**: field 1 arrives as a 32-bit item with four bytes of payload. The codec
    reads its first byte as the field's value and goes on behind it, inside the payload,
    where it finds a field 2. -/
theorem misread : twoInts.Valid ∧ read twoInts [0x0D, 5, 0x10, 0x87, 1]
      = .ok (.message [.scalar (.int 5), .scalar (.int 135)] [], .mk [] []) ∧
    reference twoInts [0x0D, 5, 0x10, 0x87, 1]
      = .ok (.message [.scalar (.int 0), .scalar (.int 0)] [0x0D, 5, 0x10, 0x87, 1],
          .mk [[0x0D, 5, 0x10, 0x87, 1]] []) :=
  ⟨twoInts_valid, by rfl, by rfl⟩


end Protobuf
