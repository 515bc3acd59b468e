import Wreath.PgSlabProofs
import Wreath.StepSystemProofs

/-! # Message reassembly — from slabs to messages

`parse_messages` takes one message after another off the slabs: a kind byte, a length, a
payload. The operations in flight, which decide the branch a message goes through, are a
parameter (`Operations`). What they see of the wire is the sequence of messages the backend
sent, when each payload that is looked at is in reach (`stream_reassembled`). -/

namespace PgMessage

open ByteScan Rope PgSlab List StepSystem
open Option (some.inj)

/-! ## Messages -/

structure Message where
  kind : UInt8
  payload : Bytes
  deriving Repr, DecidableEq

/-- A big-endian integer. -/
def readUInt (bytes : Bytes) : Nat := bytes.foldl (fun n b => n * 256 + b.toNat) 0

def be32 (n : Nat) : Bytes :=
  [UInt8.ofNat (n / 2 ^ 24), UInt8.ofNat (n / 2 ^ 16), UInt8.ofNat (n / 2 ^ 8), UInt8.ofNat n]

/-- A message on the wire; the length counts itself and the payload. -/
def Message.wire (m : Message) : Bytes := m.kind :: be32 (m.payload.length + 4) ++ m.payload

/-- The longest length the driver accepts. -/
def maxLength : Nat := 64 * 1024 * 1024

def Message.WellFormed (m : Message) : Prop := m.payload.length + 4 ≤ maxLength

theorem readUInt_be32 {n : Nat} (h : n < 2 ^ 32) : readUInt (be32 n) = n := by
  simp only [readUInt, be32, foldl_cons, foldl_nil, UInt8.toNat_ofNat']
  omega

theorem length_wire (m : Message) : m.wire.length = m.payload.length + 5 := by
  rw [Message.wire, length_append]
  show 5 + m.payload.length = _
  omega

/-! ## What the operations decide -/

/-- `direct_data_row`: 0, or 1 with the row dropped unread, or 1 with the row decoded or put
    on the tape. -/
inductive RowUse where
  | python
  | drop
  | decode
  deriving Repr, DecidableEq

/-- The operations in flight as `parse_messages` consults them: the tests that choose a
    branch, and what the branches do. `none` is a raised exception. -/
structure Operations (σ : Type) where
  /-- `operations_count > 0` -/
  busy : σ → Bool
  /-- `cold_native_operation` -/
  describes : σ → Bool
  rowUse : σ → RowUse × σ
  /-- a `ReadyForQuery` may complete the head natively -/
  direct : σ → Bool
  /-- `install_parameter_description`, `install_row_description` -/
  install : σ → UInt8 → Bytes → Option σ
  command : σ → Bytes → Option σ
  row : σ → Bytes → Option σ
  /-- `wreath_pg_pipeline_complete_cached` -/
  complete : σ → Bytes → Option (Bool × σ)
  /-- the message goes to Python -/
  queue : σ → UInt8 → Bytes → Option σ

variable {σ : Type}

/-- Kinds that need no answer: `1`, `2`, `n`, `s`. -/
def quiet (kind : UInt8) : Bool :=
  kind == ch '1' || kind == ch '2' || kind == ch 'n' || kind == ch 's'

def isDescription (kind : UInt8) : Bool := kind == ch 't' || kind == ch 'T'

variable (ops : Operations σ) (st : Store)

/-- What a message does to the operations. -/
def Operations.act (o : σ) (m : Message) : Option σ :=
  if quiet m.kind then some o
  else if isDescription m.kind && ops.busy o && ops.describes o then
    ops.install o m.kind m.payload
  else if m.kind == ch 'C' && ops.busy o then ops.command o m.payload
  else if m.kind == ch 'D' then
    match ops.rowUse o with
    | (.drop, o) => some o
    | (.decode, o) => ops.row o m.payload
    | (.python, o) => ops.queue o m.kind m.payload
  else if m.kind == ch 'Z' && m.payload.length == 1 && ops.direct o then
    match ops.complete o m.payload with
    | none => none
    | some (true, o) => some o
    | some (false, o) => ops.queue o m.kind m.payload
  else ops.queue o m.kind m.payload

/-- A branch looks at the payload: the message is not quiet, and no row that is dropped. -/
def Operations.reads (o : σ) (kind : UInt8) : Bool :=
  !quiet kind && !(kind == ch 'D' && (ops.rowUse o).1 == .drop)

/-! ## The parser -/

/-- The protocol object, with every byte read and every message acted on so far. -/
structure Protocol (σ : Type) where
  store : Store
  ops : σ
  received : Bytes
  acted : List Message
  failed : Bool

variable (p : Protocol σ)

def Protocol.fail : Protocol σ := { p with failed := true }

/-- The five bytes of the next header: by pointer when the first slab holds them, copied
    otherwise; `none` while there are fewer. -/
def headBytes : Option Bytes :=
  if 5 ≤ st.first.length then some (slice 0 5 st.first)
  else if st.unreadBytes < 5 then none
  else peekBytes st 0 5

/-- What `consume_bytes` drops unread. -/
def skipped (n : Nat) : Bytes := slice 5 n st.unread

/-- A payload read by pointer where it is contiguous. -/
def payloadBytes (n : Nat) (contiguous : Bool) : Option Bytes :=
  if contiguous then some (slice 5 n st.first) else payloadObject st 5 n

/-- `direct_data_row` looks for a slab that holds the row before it copies it. -/
def rowBytes (n : Nat) (contiguous : Bool) : Option Bytes :=
  if contiguous then some (slice 5 n st.first)
  else
    match locateContiguous st 5 n with
    | some payload => some payload
    | none => payloadObject st 5 n

/-- The message is queued for Python. -/
def queueMessage (o : σ) (kind : UInt8) (n : Nat) : Option (σ × Message) := do
  let payload ← payloadObject st 5 n
  let o ← ops.queue o kind payload
  some (o, ⟨kind, payload⟩)

/-- The branches of `parse_messages` for a message that is there whole, with the payload
    each of them read. -/
def dispatch (o : σ) (kind : UInt8) (n : Nat) (contiguous : Bool) : Option (σ × Message) :=
  if quiet kind then some (o, ⟨kind, skipped st n⟩)
  else if isDescription kind && ops.busy o && ops.describes o then do
    let payload ← payloadBytes st n contiguous
    let o ← ops.install o kind payload
    some (o, ⟨kind, payload⟩)
  else if kind == ch 'C' && ops.busy o then do
    let payload ← payloadObject st 5 n
    let o ← ops.command o payload
    some (o, ⟨kind, payload⟩)
  else if kind == ch 'D' then
    match ops.rowUse o with
    | (.drop, o) => some (o, ⟨kind, skipped st n⟩)
    | (.decode, o) => do
        let payload ← rowBytes st n contiguous
        let o ← ops.row o payload
        some (o, ⟨kind, payload⟩)
    | (.python, o) => queueMessage ops st o kind n
  else if kind == ch 'Z' && n == 1 && ops.direct o then do
    let status ← payloadBytes st 1 contiguous
    match ← ops.complete o status with
    | (true, o) => some (o, ⟨kind, status⟩)
    | (false, o) => queueMessage ops st o kind n
  else queueMessage ops st o kind n

/-- One turn of the loop of `parse_messages`; it asks for another when it took a message. -/
def parseTurn : Protocol σ × Bool :=
  match headBytes p.store with
  | none => (p, false)
  | some head =>
    let kind := head.headD 0
    let length := readUInt (head.drop 1)
    if length < 4 ∨ maxLength < length then
      -- "invalid PostgreSQL message length"
      (p.fail, false)
    else
      let contiguous := decide (length + 1 ≤ p.store.first.length)
      if !contiguous && decide (p.store.unreadBytes < length + 1) then
        (p, false)
      else
        match dispatch ops p.store p.ops kind (length - 4) contiguous with
        | none => (p.fail, false)
        | some (o, m) =>
          match consumeBytes p.store (length + 1) with
          | none => (p.fail, false)
          | some store =>
            ({ p with store, ops := o, acted := p.acted ++ [m] }, true)

/-- `parse_messages`. -/
def parseMessages : Protocol σ := TurnLoop.settle (parseTurn ops) (p.store.unreadBytes + 1) p

/-! ## Reading off the slabs -/

theorem unread_first : st.unread = st.first ++ st.windows.tail.flatten := by
  rw [Store.unread, Store.first]
  cases st.windows with
  | nil | cons => rfl

theorem length_first_le : st.first.length ≤ st.unread.length := by
  rw [unread_first, length_append]
  omega

/-- What the first slab holds whole is a slice of the string. -/
theorem slice_first {st : Store} {offset n : Nat} (h : offset + n ≤ st.first.length) :
    slice offset n st.first = slice offset n st.unread := by
  rw [unread_first, slice_inside h]

theorem headBytes_eq {st : Store} (hst : st.Sound) (h : 5 ≤ st.unread.length) :
    headBytes st = some (slice 0 5 st.unread) := by
  rw [headBytes]
  by_cases hfirst : 5 ≤ st.first.length
  · rw [if_pos hfirst, slice_first (by omega)]
  · rw [if_neg hfirst, if_neg (by rw [hst.count]; omega)]
    exact peekBytes_eq (by omega)

theorem headBytes_none {st : Store} (hst : st.Sound)
    (h : st.unread.length < 5) : headBytes st = none := by
  have hfirst := length_first_le st
  rw [headBytes, if_neg (by omega), if_pos (by rw [hst.count]; exact h)]

section Whole

variable {st : Store} {n : Nat} {contiguous : Bool}
  (hbound : 5 + n ≤ st.unread.length) (hreach : Reachable st 5 n)
  (hcontiguous : contiguous = true → n + 5 ≤ st.first.length)

include hbound hreach hcontiguous

theorem payloadBytes_eq : payloadBytes st n contiguous = some (slice 5 n st.unread) := by
  rw [payloadBytes]
  split
  · rename_i h
    rw [slice_first (by have := hcontiguous h; omega)]
  · exact payloadObject_eq hbound hreach

theorem rowBytes_eq : rowBytes st n contiguous = some (slice 5 n st.unread) := by
  rw [rowBytes]
  split
  · rename_i h
    rw [slice_first (by have := hcontiguous h; omega)]
  · split
    · rename_i payload hlocated
      exact congrArg some (within_some hlocated)
    · exact payloadObject_eq hbound hreach

/-- **EVERY BRANCH READS THE PAYLOAD**: the branches differ in how they get at it, not in
    what they get. -/
theorem dispatch_reached (o : σ) (kind : UInt8) :
    dispatch ops st o kind n contiguous = (ops.act o ⟨kind, slice 5 n st.unread⟩).map
          fun o => (o, ⟨kind, slice 5 n st.unread⟩) := by
  have hpay := payloadBytes_eq hbound hreach hcontiguous
  have hrow := rowBytes_eq hbound hreach hcontiguous
  have hobj := payloadObject_eq hbound hreach
  have hlen : (slice 5 n st.unread).length = n := length_slice hbound
  have hqueue : ∀ o, queueMessage ops st o kind n = (ops.queue o kind (slice 5 n st.unread)).map
          fun o => (o, ⟨kind, slice 5 n st.unread⟩) := by
    intro o
    rw [queueMessage, hobj]
    exact Option.map_eq_bind.symm
  rw [dispatch, Operations.act]
  simp only [hlen, hpay, hrow, hobj, hqueue, skipped]
  split
  · rfl
  split
  · exact Option.map_eq_bind.symm
  split
  · exact Option.map_eq_bind.symm
  split
  · rcases ops.rowUse o with ⟨use, o⟩
    cases use with
    | drop | python => rfl
    | decode => exact Option.map_eq_bind.symm
  split
  · rename_i hstat
    have hone : n = 1 := by
      simp only [Bool.and_eq_true, beq_iff_eq] at hstat
      exact hstat.1.2
    subst hone
    rw [hpay]
    show (ops.complete o _).bind _ = _
    cases ops.complete o (slice 5 1 st.unread) with
    | none => rfl
    | some result =>
      obtain ⟨done, o⟩ := result
      cases done <;> rfl
  · rfl

omit hreach in
/-- A payload that no branch looks at need not be in reach. -/
theorem dispatch_eq (o : σ) (kind : UInt8) (hreach : ops.reads o kind = true → Reachable st 5 n) :
    dispatch ops st o kind n contiguous = (ops.act o ⟨kind, slice 5 n st.unread⟩).map
          fun o => (o, ⟨kind, slice 5 n st.unread⟩) := by
  cases hreads : ops.reads o kind with
  | true => exact dispatch_reached ops hbound (hreach hreads) hcontiguous o kind
  | false =>
    rw [Operations.reads, Bool.and_eq_false_iff, Bool.not_eq_false', Bool.not_eq_false',
      Bool.and_eq_true, beq_iff_eq, beq_iff_eq] at hreads
    rcases hreads with hquiet | ⟨rfl, hdrop⟩
    · rw [dispatch, Operations.act, if_pos hquiet, if_pos hquiet]
      rfl
    · rcases huse : ops.rowUse o with ⟨use, o'⟩
      rw [huse] at hdrop
      cases hdrop
      have hquiet : quiet (ch 'D') = false := rfl
      have hdescribes : isDescription (ch 'D') = false := rfl
      have hcommand : (ch 'D' == ch 'C') = false := rfl
      simp only [dispatch, Operations.act, huse, hquiet, hdescribes, hcommand, Bool.false_and,
        Bool.false_eq_true, if_false, beq_self_eq_true, if_true, skipped, Option.map_some]

end Whole

/-! ## One turn -/

variable {ops : Operations σ} {p : Protocol σ}

/-- The header of a message that begins the string. -/
theorem wire_header {m : Message} (hm : m.WellFormed) {u : Bytes}
    (hu : 5 ≤ u.length) (hpre : u <+: m.wire ∨ m.wire <+: u) :
    (slice 0 5 u).headD 0 = m.kind ∧ readUInt ((slice 0 5 u).drop 1) = m.payload.length + 4 := by
  have hhead : slice 0 5 m.wire = m.kind :: be32 (m.payload.length + 4) := rfl
  have hwire := length_wire m
  have hslice : slice 0 5 u = slice 0 5 m.wire := by
    rcases hpre with ⟨t, ht⟩ | ⟨t, ht⟩
    · rw [← ht, slice_inside (by omega)]
    · rw [← ht, slice_inside (by omega)]
  rw [hslice, hhead]
  have hbound : m.payload.length + 4 ≤ maxLength := hm
  refine ⟨rfl, readUInt_be32 ?_⟩
  rw [maxLength] at hbound
  omega

/-- Too little is there: the loop stops and nothing changes. -/
theorem parseTurn_wait (hst : p.store.Sound) {m : Message}
    (hm : m.WellFormed) (hpre : p.store.unread <+: m.wire)
    (hshort : p.store.unread.length < m.wire.length) : parseTurn ops p = (p, false) := by
  rw [parseTurn]
  by_cases hfive : 5 ≤ p.store.unread.length
  · obtain ⟨-, hlen⟩ := wire_header hm hfive (.inl hpre)
    have hbound : m.payload.length + 4 ≤ maxLength := hm
    have hfirst := length_first_le p.store
    rw [length_wire] at hshort
    rw [headBytes_eq hst hfive]
    simp only [hlen]
    rw [if_neg (by omega), if_pos]
    rw [decide_eq_false (by omega), hst.count]
    exact decide_eq_true hshort
  · rw [headBytes_none hst (by omega)]

/-- Without a header the loop stops. -/
theorem parseTurn_short (hst : p.store.Sound) (h : p.store.unread.length < 5) :
    parseTurn ops p = (p, false) := by
  rw [parseTurn, headBytes_none hst h]

theorem parseTurn_empty (hst : p.store.Sound) (h : p.store.unread = []) :
    parseTurn ops p = (p, false) :=
  parseTurn_short hst (by rw [h]; decide)

/-- The protocol after a message. -/
def Protocol.took (p : Protocol σ) (store : Store) (o : σ) (m : Message) : Protocol σ :=
  { p with store, ops := o, acted := p.acted ++ [m] }

theorem slice_payload (m : Message) (rest : Bytes) :
    slice 5 m.payload.length (m.wire ++ rest) = m.payload := by
  exact take_left

/-- A message that is there whole goes through the branches. -/
theorem parseTurn_whole (hst : p.store.Sound) {m : Message} (hm : m.WellFormed) {rest : Bytes}
    (hunread : p.store.unread = m.wire ++ rest) :
    ∃ contiguous : Bool, (contiguous = true → m.payload.length + 5 ≤ p.store.first.length)
      ∧ parseTurn ops p = match dispatch ops p.store p.ops m.kind m.payload.length contiguous,
            consumeBytes p.store m.wire.length with
          | some (o, m), some store => (p.took store o m, true)
          | _, _ => (p.fail, false) := by
  have hwire := length_wire m
  have hlen : p.store.unread.length = m.payload.length + 5 + rest.length := by
    rw [hunread, length_append, hwire]
  obtain ⟨hkind, hlength⟩ := wire_header hm (show 5 ≤ p.store.unread.length by
    omega) (.inr ⟨rest, hunread.symm⟩)
  have hbound : m.payload.length + 4 ≤ maxLength := hm
  refine ⟨_, fun h => of_decide_eq_true h, ?_⟩
  rw [parseTurn, headBytes_eq hst (by omega)]
  simp only [hkind, hlength]
  rw [if_neg (by omega), if_neg]
  · rw [show m.payload.length + 4 - 4 = m.payload.length by omega, hwire]
    cases dispatch ops p.store p.ops m.kind m.payload.length
        (decide (m.payload.length + 5 ≤ p.store.first.length)) with
    | none => rfl
    | some taken =>
      cases consumeBytes p.store (m.payload.length + 5) <;> rfl
  · rw [hst.count, decide_eq_false (show ¬ p.store.unread.length
      < m.payload.length + 4 + 1 by omega), Bool.and_false]
    exact nofun

/-- **A MESSAGE IS TAKEN** as it was sent, when its payload is in reach. -/
theorem parseTurn_message (hst : p.store.Sound) {m : Message} (hm : m.WellFormed) {rest : Bytes}
    (hunread : p.store.unread = m.wire ++ rest)
    (hreach : ops.reads p.ops m.kind = true → Reachable p.store 5 m.payload.length) :
    parseTurn ops p = match ops.act p.ops m, consumeBytes p.store m.wire.length with
        | some o, some store => (p.took store o m, true)
        | _, _ => (p.fail, false) := by
  obtain ⟨contiguous, hcontiguous, hturn⟩ := parseTurn_whole hst hm hunread
  have hbound : 5 + m.payload.length ≤ p.store.unread.length := by
    rw [hunread, length_append, length_wire]
    omega
  rw [hturn, dispatch_eq ops hbound hcontiguous _ _ hreach, hunread, slice_payload]
  cases ops.act p.ops m with
  | none => rfl
  | some o => cases consumeBytes p.store m.wire.length <;> rfl

/-! ## The loop -/

/-- A turn keeps the store sound, and one that asks for another has read something. -/
theorem parseTurn_sound (hst : p.store.Sound) :
    (parseTurn ops p).1.store.Sound ∧ ((parseTurn ops p).2 = true →
        (parseTurn ops p).1.store.unreadBytes < p.store.unreadBytes) := by
  have hfirst := length_first_le p.store
  rw [parseTurn]
  split
  · exact ⟨hst, nofun⟩
  rename_i head _
  simp only
  split
  · exact ⟨hst, nofun⟩
  split
  · exact ⟨hst, nofun⟩
  rename_i hwhole
  generalize readUInt (head.drop 1) = length at hwhole ⊢
  split
  · exact ⟨hst, nofun⟩
  -- whichever test let the message pass, its bytes are there
  have hbound : length + 1 ≤ p.store.unread.length := by
    have hcount := hst.count
    by_cases hcontiguous : length + 1 ≤ p.store.first.length
    · omega
    · rw [decide_eq_false hcontiguous] at hwhole
      by_contra hshort
      exact hwhole (decide_eq_true (by omega))
  obtain ⟨st', hconsume, hunread, hsound⟩ := consumeBytes_spec hst hbound
  rw [hconsume]
  refine ⟨hsound, fun _ => ?_⟩
  rw [hsound.count, hunread, length_drop, hst.count]
  omega

/-- The loop takes one turn, then loops on. -/
theorem parseMessages_turn (hst : p.store.Sound) : parseMessages ops p
      = if (parseTurn ops p).2 then parseMessages ops (parseTurn ops p).1
        else (parseTurn ops p).1 :=
  TurnLoop.settle_turn (fun p : Protocol σ => p.store.unreadBytes)
    (fun p (h : p.store.Sound) => (parseTurn_sound h).1)
    (fun _ h => (parseTurn_sound h).2) hst

/-- The payload of a message that is there whole is in reach, if it is looked at. -/
def Clear (ops : Operations σ) (p : Protocol σ) : Prop :=
  ∀ head, headBytes p.store = some head → readUInt (head.drop 1) + 1 ≤ p.store.unreadBytes →
    ops.reads p.ops (head.headD 0) = true → Reachable p.store 5 (readUInt (head.drop 1) - 4)

instance (ops : Operations σ) (p : Protocol σ) : Decidable (Clear ops p) :=
  match h : headBytes p.store with
  | none => isTrue fun _ hhead => nomatch h.symm.trans hhead
  | some head => decidable_of_iff
      (readUInt (head.drop 1) + 1 ≤ p.store.unreadBytes →
        ops.reads p.ops (head.headD 0) = true →
        Reachable p.store 5 (readUInt (head.drop 1) - 4))
      ⟨fun hc _ hhead => some.inj (h.symm.trans hhead) ▸ hc, fun hc => hc head h⟩

/-- Every turn of the loop finds the payload in reach. -/
def ClearParse (ops : Operations σ) (p : Protocol σ) : Prop :=
  TurnLoop.Along (parseTurn ops) (Clear ops) (p.store.unreadBytes + 1) p

instance (ops : Operations σ) (p : Protocol σ) : Decidable (ClearParse ops p) :=
  inferInstanceAs (Decidable (TurnLoop.Along _ _ _ _))

theorem clearParse_turn (hst : p.store.Sound) : ClearParse ops p
      ↔ Clear ops p ∧ ((parseTurn ops p).2 = true → ClearParse ops (parseTurn ops p).1) :=
  TurnLoop.along_turn (fun p : Protocol σ => p.store.unreadBytes)
    (fun p (h : p.store.Sound) => (parseTurn_sound h).1)
    (fun _ h => (parseTurn_sound h).2) hst

/-- Without a header there is no payload to look at. -/
theorem clearParse_short (hst : p.store.Sound) (h : p.store.unread.length < 5) :
    ClearParse ops p := by
  refine (clearParse_turn hst).mpr ⟨fun _ hhead => ?_, ?_⟩
  · cases (headBytes_none hst h).symm.trans hhead
  · rw [parseTurn_short hst h]
    exact nofun

def wires (ms : List Message) : Bytes := ms.flatMap Message.wire

/-- What was acted on is what was sent so far, and the rest is unread. -/
structure Follows (ms : List Message) (p : Protocol σ) : Prop where
  sound : p.store.Sound
  acted : p.acted <+: ms
  bytes : p.received = wires p.acted ++ p.store.unread

/-- After a parse: nothing that is there whole is left, unless the operations raised at it. -/
structure Settled (ops : Operations σ) (ms : List Message) (p : Protocol σ) : Prop where
  waits : p.failed = false → ∀ m rest, ms = p.acted ++ m :: rest →
    p.store.unread.length < m.wire.length
  refused : p.failed = true → ∃ m rest, ms = p.acted ++ m :: rest ∧ ops.act p.ops m = none

theorem wires_append (xs ys : List Message) :
    wires (xs ++ ys) = wires xs ++ wires ys := flatMap_append

variable {ms : List Message}

/-- The unread bytes begin what is still to come. -/
theorem Follows.unread_prefix (h : Follows ms p) (hrecv : p.received <+: wires ms)
    {rest : List Message} (hrest : ms = p.acted ++ rest) : p.store.unread <+: wires rest := by
  rw [h.bytes, hrest, wires_append] at hrecv
  exact (prefix_append_right_inj _).mp hrecv

/-- What holds before every turn of a parse. -/
structure Reading (ms : List Message) (p : Protocol σ) : Prop extends Follows ms p where
  incoming : p.received <+: wires ms
  live : p.failed = false

/-- **ONE TURN** acts on the next message as it was sent, or is the last one: the message is
    not there whole, or the operations raise at it. -/
theorem Reading.turn (hms : ∀ m ∈ ms, m.WellFormed) (h : Reading ms p) (hclear : Clear ops p) :
    if (parseTurn ops p).2 then Reading ms (parseTurn ops p).1
      ∧ (parseTurn ops p).1.store.unreadBytes < p.store.unreadBytes
    else Follows ms (parseTurn ops p).1 ∧ Settled ops ms (parseTurn ops p).1 := by
  obtain ⟨rest, hrest⟩ := h.acted
  have hpre := h.unread_prefix h.incoming hrest.symm
  have hfall : (parseTurn ops p).2 = true → _ := (parseTurn_sound h.sound).2
  cases rest with
  | nil =>
    -- the stream is at its end
    rw [parseTurn_empty h.sound (prefix_nil.mp hpre)]
    refine ⟨h.toFollows, fun _ m rest hsplit => ?_, fun hf => nomatch h.live.symm.trans hf⟩
    rw [← hrest] at hsplit
    exact nomatch append_cancel_left hsplit
  | cons m rest =>
    have hm : m.WellFormed := hms m (by
      rw [← hrest]
      exact mem_append_right _ mem_cons_self)
    by_cases hshort : p.store.unread.length < m.wire.length
    · rw [parseTurn_wait h.sound hm (prefix_of_prefix_length_le hpre
          (prefix_append ..) hshort.le) hshort]
      refine ⟨h.toFollows, fun _ m' rest' hsplit => ?_, fun hf => nomatch h.live.symm.trans hf⟩
      rw [← hrest] at hsplit
      rw [← (List.cons.inj (append_cancel_left hsplit)).1]
      exact hshort
    · -- the whole message is there
      obtain ⟨tail, htail⟩ : m.wire <+: p.store.unread :=
        prefix_of_prefix_length_le (prefix_append ..) hpre (by omega)
      have hwire := length_wire m
      have hfive : 5 ≤ p.store.unread.length := by omega
      obtain ⟨hkind, hlength⟩ := wire_header hm hfive (.inr ⟨tail, htail⟩)
      have hreach : ops.reads p.ops m.kind = true → Reachable p.store 5 m.payload.length := by
        have := hclear _ (headBytes_eq h.sound hfive)
        rw [hkind, hlength, h.sound.count] at this
        exact this (by omega)
      obtain ⟨st', hconsume, hunread, hsound⟩ := consumeBytes_spec h.sound (not_lt.mp hshort)
      have hturn : parseTurn ops p = _ := parseTurn_message h.sound hm htail.symm hreach
      rw [hconsume] at hturn
      cases hact : ops.act p.ops m with
      | none =>
        rw [hact] at hturn
        rw [hturn]
        exact ⟨{ h with }, nofun, fun _ => ⟨m, rest, hrest.symm, hact⟩⟩
      | some o =>
        rw [hact] at hturn
        rw [hturn] at hfall ⊢
        refine ⟨⟨⟨hsound, ⟨rest, ?_⟩, ?_⟩, h.incoming, h.live⟩, hfall rfl⟩
        · show p.acted ++ [m] ++ rest = ms
          rw [append_assoc]
          exact hrest
        · show p.received = wires (p.acted ++ [m]) ++ st'.unread
          rw [h.bytes, wires_append, hunread, ← htail, drop_left, append_assoc]
          congr 2
          exact (append_nil _).symm

/-- **THE LOOP** acts on every message that is there, and stops at the first that is not
    there whole, or where the operations raise. -/
theorem parseMessages_follows (hms : ∀ m ∈ ms, m.WellFormed) (h : Reading ms p)
    (hclear : ClearParse ops p) :
    Follows ms (parseMessages ops p) ∧ Settled ops ms (parseMessages ops p) :=
  TurnLoop.settle_rule (μ := fun p : Protocol σ => p.store.unreadBytes)
    (Q := fun p => Follows ms p ∧ Settled ops ms p)
    (fun _ hq hclear => hq.turn hms hclear) _ p h (Nat.lt_succ_self _) hclear

/-! ## Reads -/

/-- The ways bytes come in: the buffer of the event loop, the offer of the fused transport, and
    bytes the transport already holds. `getBuffer` is a buffer that was asked for and not filled. -/
inductive Read where
  | getBuffer
  | bufferUpdated (bytes : Bytes)
  | commitRead (bytes : Bytes)
  | feedExternal (bytes : Bytes)
  deriving Repr, DecidableEq

/-- The protocol with `chunk` in its current slab. -/
def Protocol.filled (p : Protocol σ) (chunk : Bytes) : Protocol σ :=
  { p with store := p.store.ready.fill chunk, received := p.received ++ chunk }

/-- The loop of `stream_feed_external`: slab by slab, parsing after each fill. -/
def feed (ops : Operations σ) : Nat → Protocol σ → Bytes → Protocol σ
  | 0, p, _ => p
  | fuel + 1, p, data =>
    if data = [] ∨ p.failed = true then p
    else
      let space := p.store.ready.space
      feed ops fuel (parseMessages ops (p.filled (data.take space))) (data.drop space)

/-- Every parse of the feed finds its payloads in reach. -/
def ClearFeed (ops : Operations σ) : Nat → Protocol σ → Bytes → Prop
  | 0, _, _ => True
  | fuel + 1, p, data =>
    data = [] ∨ p.failed = true ∨ (ClearParse ops (p.filled (data.take p.store.ready.space))
        ∧ ClearFeed ops fuel (parseMessages ops (p.filled (data.take p.store.ready.space)))
          (data.drop p.store.ready.space))

instance ClearFeed.decidable (ops : Operations σ) :
    ∀ fuel p data, Decidable (ClearFeed ops fuel p data)
  | 0, _, _ => isTrue trivial
  | fuel + 1, p, data =>
    have := ClearFeed.decidable ops fuel
      (parseMessages ops (p.filled (data.take p.store.ready.space)))
      (data.drop p.store.ready.space)
    inferInstanceAs (Decidable (_ ∨ _ ∨ _ ∧ _))

/-- One read; `none` where the transport is at fault, or the connection is gone. -/
def step (ops : Operations σ) (p : Protocol σ) (read : Read) : Option (Protocol σ) :=
  if p.failed then none
  else
    match read with
    | .getBuffer => some { p with store := p.store.ready }
    | .bufferUpdated bytes =>
      if p.store.ready.space < bytes.length then none
      else some (parseMessages ops (p.filled bytes))
    | .commitRead bytes =>
      if p.store.ready.space < bytes.length then none
      else if bytes = [] then some { p with store := p.store.ready }
      else some (parseMessages ops (p.filled bytes))
    | .feedExternal bytes => some (feed ops bytes.length p bytes)

/-- The condition on a read: all its payloads are in reach. -/
def ClearRead (ops : Operations σ) (p : Protocol σ) : Read → Prop
  | .getBuffer => True
  | .bufferUpdated bytes => ClearParse ops (p.filled bytes)
  | .commitRead bytes => bytes = [] ∨ ClearParse ops (p.filled bytes)
  | .feedExternal bytes => ClearFeed ops bytes.length p bytes

instance (ops : Operations σ) (p : Protocol σ) : ∀ read, Decidable (ClearRead ops p read)
  | .getBuffer => isTrue trivial
  | .bufferUpdated bytes =>
    inferInstanceAs (Decidable (ClearParse ops (p.filled bytes)))
  | .commitRead _ => inferInstanceAs (Decidable (_ ∨ _))
  | .feedExternal bytes =>
    inferInstanceAs (Decidable (ClearFeed ops bytes.length p bytes))

/-- A connection nothing was read from. -/
def Protocol.fresh (o : σ) : Protocol σ := ⟨.empty, o, [], [], false⟩

/-- A turn reads nothing in. -/
theorem parseTurn_received : (parseTurn ops p).1.received = p.received := by
  rw [parseTurn]
  split
  · rfl
  simp only
  split
  · rfl
  split
  · rfl
  split
  · rfl
  split <;> rfl

theorem parseMessages_received : (parseMessages ops p).received = p.received :=
  TurnLoop.settle_inv (fun q : Protocol σ => q.received = p.received)
    (fun _ h => parseTurn_received.trans h) _ p rfl

theorem parseMessages_sound (h : p.store.Sound) : (parseMessages ops p).store.Sound :=
  TurnLoop.settle_inv (fun q : Protocol σ => q.store.Sound)
    (fun _ hq => (parseTurn_sound hq).1) _ p h

theorem filled_sound (h : p.store.Sound) {chunk : Bytes}
    (hroom : chunk.length ≤ p.store.ready.space) : (p.filled chunk).store.Sound :=
  (Store.fill_spec h.ready (Store.ready_ne_nil) hroom).2

/-- The invariant between reads, for a stream of messages. -/
def Between (ops : Operations σ) (ms : List Message) (p : Protocol σ) : Prop :=
  p.received <+: wires ms → Follows ms p ∧ Settled ops ms p

theorem Follows.filled (h : Follows ms p)
    {chunk : Bytes} (hroom : chunk.length ≤ p.store.ready.space) : Follows ms (p.filled chunk) := by
  obtain ⟨hunread, hsound⟩ := Store.fill_spec h.sound.ready (Store.ready_ne_nil) hroom
  refine ⟨hsound, h.acted, ?_⟩
  show p.received ++ chunk = wires p.acted ++ (p.store.ready.fill chunk).unread
  rw [hunread, Store.ready_unread, ← append_assoc, ← h.bytes]

theorem Between.ready (h : Between ops ms p) :
    Between ops ms { p with store := p.store.ready } := by
  intro hrecv
  obtain ⟨hfollows, hset⟩ := h hrecv
  refine ⟨⟨hfollows.sound.ready, hfollows.acted,
    hfollows.bytes.trans (by rw [Store.ready_unread])⟩, ?_, hset.refused⟩
  intro hfail m rest hsplit
  rw [Store.ready_unread]
  exact hset.waits hfail m rest hsplit

/-- **A CHUNK** that arrives and is parsed keeps the invariant. -/
theorem Between.chunk (hms : ∀ m ∈ ms, m.WellFormed)
    (h : Between ops ms p) (hfail : p.failed = false) {chunk : Bytes}
    (hroom : chunk.length ≤ p.store.ready.space) (hclear : ClearParse ops (p.filled chunk)) :
    Between ops ms (parseMessages ops (p.filled chunk)) := by
  intro hrecv
  rw [parseMessages_received] at hrecv
  have hbef : p.received <+: wires ms := (prefix_append p.received chunk).trans hrecv
  exact parseMessages_follows hms ⟨(h hbef).1.filled hroom, hrecv, hfail⟩ hclear

theorem Between.feed (hms : ∀ m ∈ ms, m.WellFormed) (fuel : Nat) {data : Bytes}
    (h : Between ops ms p) (hclear : ClearFeed ops fuel p data) :
    Between ops ms (feed ops fuel p data) := by
  fun_induction PgMessage.feed ops fuel p data with
  | case1 | case2 => exact h
  | case3 _ _ _ hstop _ ih =>
    rw [not_or, Bool.not_eq_true] at hstop
    rcases hclear with hnil | hfail | ⟨hparse, hrest⟩
    · exact absurd hnil hstop.1
    · exact nomatch hstop.2.symm.trans hfail
    · exact ih (h.chunk hms hstop.2 (length_take_le ..) hparse) hrest

/-- The bytes of a read. -/
def Read.bytes : Read → Bytes
  | .getBuffer => []
  | .bufferUpdated bytes => bytes
  | .commitRead bytes => bytes
  | .feedExternal bytes => bytes

/-- What a read does: it makes room, it fills the slab and parses, or it feeds. -/
theorem step_cases {read : Read} {p' : Protocol σ} (hstep : step ops p read = some p') :
    p.failed = false ∧ (read.bytes = [] ∧ p' = { p with store := p.store.ready }
      ∨ read.bytes.length ≤ p.store.ready.space
        ∧ p' = parseMessages ops (p.filled read.bytes)
        ∧ (ClearRead ops p read → ClearParse ops (p.filled read.bytes))
      ∨ ∃ bytes, read = .feedExternal bytes ∧ p' = feed ops bytes.length p bytes) := by
  rw [step.eq_def] at hstep
  split at hstep
  · cases hstep
  rename_i hfail
  refine ⟨Bool.not_eq_true _ ▸ hfail, ?_⟩
  cases read with
  | getBuffer => exact .inl ⟨rfl, (some.inj hstep).symm⟩
  | bufferUpdated bytes =>
    simp only at hstep
    split at hstep
    · cases hstep
    rename_i hroom
    exact .inr (.inl ⟨not_lt.mp hroom, (some.inj hstep).symm, id⟩)
  | commitRead bytes =>
    simp only at hstep
    split at hstep
    · cases hstep
    rename_i hroom
    split at hstep
    · rename_i hnil
      exact .inl ⟨hnil, (some.inj hstep).symm⟩
    · rename_i hbytes
      exact .inr (.inl ⟨not_lt.mp hroom, (some.inj hstep).symm, fun h => h.resolve_left hbytes⟩)
  | feedExternal bytes => exact .inr (.inr ⟨bytes, rfl, (some.inj hstep).symm⟩)

/-- **ONE READ**, in any of the ways, keeps the invariant. -/
theorem Between.step (hms : ∀ m ∈ ms, m.WellFormed)
    {read : Read} {p' : Protocol σ} (h : Between ops ms p) (hclear : ClearRead ops p read)
    (hstep : PgMessage.step ops p read = some p') : Between ops ms p' := by
  obtain ⟨hfail, ⟨-, rfl⟩ | ⟨hroom, rfl, hparse⟩ | ⟨bytes, rfl, rfl⟩⟩ := step_cases hstep
  · exact h.ready
  · exact h.chunk hms hfail hroom (hparse hclear)
  · exact h.feed hms _ hclear

/-! ## All that was read is received -/

theorem feed_received (fuel : Nat) {data : Bytes}
    (hst : p.store.Sound) (hfuel : data.length ≤ fuel) :
    (feed ops fuel p data).store.Sound ∧ ((feed ops fuel p data).failed = false →
        (feed ops fuel p data).received = p.received ++ data)
      ∧ (feed ops fuel p data).received <+: p.received ++ data := by
  fun_induction feed ops fuel p data with
  | case1 p data =>
    obtain rfl := length_eq_zero_iff.mp (Nat.le_zero.mp hfuel)
    rw [append_nil]
    exact ⟨hst, fun _ => rfl, prefix_rfl⟩
  | case2 fuel p data hstop =>
    refine ⟨hst, fun hfail => ?_, prefix_append ..⟩
    rcases hstop with hnil | hfail'
    · rw [hnil, append_nil]
    · exact nomatch hfail.symm.trans hfail'
  | case3 fuel p data hstop space ih =>
    have hspace := Store.ready_space hst
    have hfed := ih (parseMessages_sound (filled_sound hst (length_take_le ..))) (by
      rw [length_drop]
      omega)
    rw [parseMessages_received] at hfed
    rwa [Protocol.filled, append_assoc, take_append_drop] at hfed

theorem step_received {p' : Protocol σ} {read : Read} (hst : p.store.Sound)
    (hstep : step ops p read = some p') : p.failed = false ∧ p'.store.Sound
      ∧ (p'.failed = false → p'.received = p.received ++ read.bytes)
      ∧ p'.received <+: p.received ++ read.bytes := by
  obtain ⟨hfail, hcases⟩ := step_cases hstep
  refine ⟨hfail, ?_⟩
  rcases hcases with ⟨hnil, rfl⟩ | ⟨hroom, rfl, -⟩ | ⟨bytes, rfl, rfl⟩
  · rw [hnil, append_nil]
    exact ⟨hst.ready, fun _ => rfl, prefix_rfl⟩
  · rw [parseMessages_received]
    exact ⟨parseMessages_sound (filled_sound hst hroom), fun _ => rfl, prefix_rfl⟩
  · exact feed_received _ hst le_rfl

/-- Along a run everything read is received, unless the run failed. -/
theorem exec_received (reads : List Read) {p p' : Protocol σ} (hst : p.store.Sound)
    (h : exec (step ops) p reads = some p') :
    (p'.failed = false → p'.received = p.received ++ reads.flatMap Read.bytes)
      ∧ p'.received <+: p.received ++ reads.flatMap Read.bytes := by
  induction reads generalizing p p' with
  | nil =>
    cases h
    rw [flatMap_nil, append_nil]
    exact ⟨fun _ => rfl, prefix_rfl⟩
  | cons read reads ih =>
    rw [exec] at h
    split at h
    · cases h
    rename_i p₁ hstep
    obtain ⟨-, hsound, hwhole, hpre⟩ := step_received hst hstep
    rw [flatMap_cons, ← append_assoc]
    cases reads with
    | nil =>
      cases h
      rw [flatMap_nil, append_nil]
      exact ⟨hwhole, hpre⟩
    | cons next reads =>
      -- another read follows, so this one did not fail
      have hfail : p₁.failed = false := by
        rw [exec] at h
        split at h
        · cases h
        · rename_i hnext
          exact (step_received hsound hnext).1
      rw [← hwhole hfail]
      exact ih hsound h

theorem exec_of_guarded {guard : Protocol σ → Read → Prop} [∀ p read, Decidable (guard p read)]
    (reads : List Read) {p p' : Protocol σ}
    (h : exec (guarded guard (step ops)) p reads = some p') :
    exec (step ops) p reads = some p' := by
  fun_induction exec (guarded guard (step ops)) p reads with
  | case1 => exact h
  | case2 => cases h
  | case3 _ _ _ _ hstep ih =>
    rw [exec, (guarded_some hstep).2]
    exact ih h

/-- **EXACT REASSEMBLY**: in every run whose reads find their payloads in reach, the
    messages acted on are the messages sent, as far as they have arrived, each with its
    payload; the run fails only at a message the operations raise at. -/
theorem stream_reassembled (ops : Operations σ) (o : σ)
    (ms : List Message) (hms : ∀ m ∈ ms, m.WellFormed) (reads : List Read)
    (hreads : reads.flatMap Read.bytes <+: wires ms) (p : Protocol σ)
    (hrun : exec (guarded (ClearRead ops) (step ops)) (.fresh o) reads = some p) :
    p.acted <+: ms ∧ (p.failed = false →
        reads.flatMap Read.bytes = wires p.acted ++ p.store.unread
        ∧ (∀ m rest, ms = p.acted ++ m :: rest → p.store.unread.length < m.wire.length)
        ∧ (reads.flatMap Read.bytes = wires ms → p.acted = ms))
      ∧ (p.failed = true → ∃ m rest, ms = p.acted ++ m :: rest ∧ ops.act p.ops m = none) := by
  have hfresh : Between ops ms (.fresh o) := by
    intro _
    refine ⟨⟨Store.sound_empty, nil_prefix, rfl⟩, fun _ m _ _ => ?_, nofun⟩
    exact Nat.succ_pos _
  have hbetween : Between ops ms p := exec_guarded_invariant
      (fun q read q' hq hclear hstep => hq.step hms hclear hstep) hfresh hrun
  obtain ⟨hwhole, hpre⟩ := exec_received reads
    (Store.sound_empty : (Protocol.fresh o).store.Sound)
    (exec_of_guarded reads hrun)
  obtain ⟨hfollows, hsettled⟩ := hbetween (hpre.trans hreads)
  refine ⟨hfollows.acted, fun hfailed => ⟨?_, hsettled.waits hfailed, ?_⟩, hsettled.refused⟩
  · rw [← hfollows.bytes]
    exact (hwhole hfailed).symm
  · intro hall
    obtain ⟨rest, hrest⟩ := hfollows.acted
    have hunread := hfollows.bytes.symm.trans ((hwhole hfailed).trans hall)
    rw [← hrest, wires_append] at hunread
    have htail := append_cancel_left hunread
    cases rest with
    | nil => rw [← hrest, append_nil]
    | cons m rest =>
      -- a message whose bytes are all there was not left
      have hshort := hsettled.waits hfailed m rest hrest.symm
      rw [htail, show wires (m :: rest) = m.wire ++ wires rest from
        flatMap_cons, length_append] at hshort
      omega

instance (m : Message) : Decidable m.WellFormed := inferInstanceAs (Decidable (_ ≤ _))

/-- Operations that leave every message to Python. -/
def queueAll : Operations Unit where
  busy _ := false
  describes _ := false
  rowUse o := (.python, o)
  direct _ := false
  install o _ _ := some o
  command o _ := some o
  row o _ := some o
  complete o _ := some (false, o)
  queue o _ _ := some o

/-- The end of a start-up: a parameter, then ready for queries. -/
def greeting : List Message :=
  [⟨ch 'S', ascii "TimeZone" ++ [0] ++ ascii "UTC" ++ [0]⟩, ⟨ch 'Z', ascii "I"⟩]

/-- The greeting in three reads of the three kinds. -/
def greetingReads : List Read :=
  [.bufferUpdated ((wires greeting).take 3), .commitRead (((wires greeting).drop 3).take 17),
    .feedExternal ((wires greeting).drop 20)]

/-! ## A header across a slab's end -/

section Straddling

variable {pad body tail : Bytes} (hpad : pad.length = 65528)
  (hbody : body.length = 65534) (htail : tail.length = 2)

/-- The part of the large message's header that ends the first slab. -/
def largeStart : Bytes := [ch 'S', 0, 1]

def largeRest : Bytes := [0, 4]

include hbody htail in
theorem large_wire : Message.wire ⟨ch 'S', body ++ tail⟩
    = largeStart ++ (largeRest ++ body) ++ tail := by
  rw [Message.wire, length_append, hbody, htail, largeStart, largeRest]
  rw [show be32 65540 = [0, 1, 0, 4] by decide]
  simp only [cons_append, nil_append]

include hbody in
theorem length_largeRest : (largeRest ++ body).length = 65536 := by
  rw [length_append, hbody]
  rfl

/-- The first read: a message, and three bytes of the next. -/
def firstRead (pad : Bytes) : Bytes := Message.wire ⟨ch 'S', pad⟩ ++ largeStart

include hpad in
theorem length_firstRead : (firstRead pad).length = 65536 := by
  rw [firstRead, length_append, length_wire, hpad]
  rfl

/-- A full first slab, read up to the last three bytes, and what follows. -/
def straddling (pad : Bytes) (rest : List Bytes) : Store :=
  ⟨⟨firstRead pad, 65533⟩ :: rest.map fun data => ⟨data, 0⟩, 3 + rest.flatten.length⟩

include hpad in
theorem straddling_windows (rest : List Bytes) :
    (straddling pad rest).windows = largeStart :: rest := by
  have hwire : (Message.wire ⟨ch 'S', pad⟩).length = 65533 := by
    rw [length_wire, hpad]
  rw [straddling, Store.windows, map_cons, map_map]
  congr 1
  · rw [Slab.unread, ← hwire]
    exact drop_left
  · exact map_id _

include hpad in
theorem straddling_unread (rest : List Bytes) :
    (straddling pad rest).unread = largeStart ++ rest.flatten := by
  rw [Store.unread, straddling_windows hpad]
  rfl

include hpad in
theorem straddling_sound {rest : List Bytes} (hrest : ∀ data ∈ rest, data.length ≤ slabSize) :
    (straddling pad rest).Sound := by
  refine ⟨fun s hs => ?_, ?_⟩
  · rcases mem_cons.mp hs with rfl | hs
    · refine ⟨?_, (length_firstRead hpad).le⟩
      rw [length_firstRead hpad]
      show 65533 ≤ 65536
      omega
    · obtain ⟨data, hdata, rfl⟩ := mem_map.mp hs
      exact ⟨Nat.zero_le _, hrest data hdata⟩
  · rw [straddling_unread hpad, length_append]
    rfl

include hpad in
theorem straddling_full (s : Slab) (hs : (straddling pad []).slabs.getLast? = some s) :
    s.data.length = slabSize := by
  obtain rfl : (⟨firstRead pad, 65533⟩ : Slab) = s := some.inj hs
  exact length_firstRead hpad

/-- The protocol between the reads. -/
def straddled (pad : Bytes) (rest : List Bytes) : Protocol Unit :=
  ⟨straddling pad rest, (), firstRead pad ++ rest.flatten, [⟨ch 'S', pad⟩], false⟩

theorem large_wellFormed (hpad : pad.length ≤ 65536) : Message.WellFormed ⟨ch 'S', pad⟩ := by
  show pad.length + 4 ≤ 67108864
  omega

include hpad hbody htail in
/-- Before its last bytes are there the large message waits. -/
theorem straddled_waits : parseMessages queueAll (straddled pad [largeRest ++ body])
    = straddled pad [largeRest ++ body] := by
  have hst : (straddled pad [largeRest ++ body]).store.Sound :=
    straddling_sound hpad (forall_mem_singleton.mpr (length_largeRest hbody).le)
  have hunread : (straddled pad [largeRest ++ body]).store.unread
      = largeStart ++ (largeRest ++ body) := by
    rw [straddled, straddling_unread hpad, flatten_singleton]
  rw [parseMessages_turn hst, parseTurn_wait (m := ⟨ch 'S', body ++ tail⟩) hst]
  · rfl
  · exact large_wellFormed (by rw [length_append]; omega)
  · rw [hunread, large_wire hbody htail]
    exact prefix_append ..
  · show _ < (Message.wire ⟨ch 'S', body ++ tail⟩).length
    rw [hunread, large_wire hbody htail]
    simp only [length_append, htail]
    omega

include hpad in
/-- The first read: the filler is taken, and three bytes of the next header are left. -/
theorem straddled_first : parseTurn queueAll ((Protocol.fresh ()).filled (firstRead pad))
      = (straddled pad [], true)
    ∧ ClearRead queueAll (.fresh ()) (.bufferUpdated (firstRead pad))
    ∧ step queueAll (.fresh ()) (.bufferUpdated (firstRead pad)) = some (straddled pad []) := by
  have hwire : (Message.wire ⟨ch 'S', pad⟩).length = 65533 := by
    rw [length_wire, hpad]
  have hlen := length_firstRead hpad
  have hleft : (straddled pad []).store.Sound ∧ (straddled pad []).store.unread.length < 5 := by
    refine ⟨straddling_sound hpad nofun, ?_⟩
    rw [straddled, straddling_unread hpad]
    decide
  generalize hdata : firstRead pad = data at hlen
  have hst : ((Protocol.fresh ()).filled data).store.Sound :=
    filled_sound Store.sound_empty (show data.length ≤ 65536 by omega)
  have hunread : ((Protocol.fresh ()).filled data).store.unread = data := append_nil data
  have hreach : ∀ n, Reachable ((Protocol.fresh ()).filled data).store 5 n :=
    fun n => .inr (.inl ⟨data, [], rfl, by omega⟩)
  have hturn : parseTurn queueAll ((Protocol.fresh ()).filled data) = (straddled pad [], true) := by
    have hconsume : consumeBytes ((Protocol.fresh ()).filled data).store 65533
        = some (straddling pad []) := by
      have hfill : ((Protocol.fresh ()).filled data).store = ⟨[⟨data, 0⟩], 0 + data.length⟩ := rfl
      rw [hfill, consumeBytes_inside (by omega)
        (show 65533 < data.length - 0 by omega), straddling, hdata, hlen,
        zero_add, zero_add, map_nil, flatten_nil,
        length_nil]
    rw [parseTurn_message (m := ⟨ch 'S', pad⟩) hst (large_wellFormed (by omega))
      (hunread.trans hdata.symm) fun _ => hreach _, hwire, hconsume, straddled, hdata,
      flatten_nil, append_nil]
    rfl
  refine ⟨hturn, (clearParse_turn hst).mpr ⟨fun _ _ _ _ => hreach _, fun _ => ?_⟩, ?_⟩
  · rw [hturn]
    exact clearParse_short hleft.1 hleft.2
  · have hspace : (Protocol.fresh ()).store.ready.space = 65536 := rfl
    rw [step.eq_def, if_neg nofun]
    simp only
    rw [if_neg (by rw [hspace]; omega), parseMessages_turn hst, hturn]
    show some (parseMessages queueAll (straddled pad [])) = _
    rw [parseMessages_turn hleft.1, parseTurn_short hleft.1 hleft.2]
    rfl

/-- A read into a new slab, the current one being full. -/
theorem straddled_filled (pad : Bytes) (rest : List Bytes) (data : Bytes)
    (hlast : ∀ s, (straddling pad rest).slabs.getLast? = some s → s.data.length = slabSize) :
    (straddling pad rest).ready.space = slabSize
      ∧ (straddled pad rest).filled data = straddled pad (rest ++ [data]) := by
  have hready : (straddling pad rest).ready = { straddling pad rest with
          slabs := (straddling pad rest).slabs ++ [.fresh] } := by
    rw [Store.ready]
    split
    · rfl
    · rename_i s hs
      rw [if_pos (hlast s hs)]
  have hfill : ∀ slabs : List Slab, fillLast data (slabs ++ [.fresh]) = slabs ++ [⟨data, 0⟩] := by
    intro slabs
    induction slabs with
    | nil => rfl
    | cons s slabs ih =>
      cases slabs with
      | nil => rfl
      | cons t slabs => exact congrArg (s :: ·) ih
  constructor
  · rw [hready, Store.space, getLast?_concat]
    rfl
  · show Protocol.mk ((straddling pad rest).ready.fill data) _ _ _ _ = _
    rw [hready, Store.fill, hfill, straddled, straddling]
    simp only [straddled, straddling, map_append, map_cons,
      map_nil, flatten_append, flatten_cons, flatten_nil,
      append_nil, length_append, cons_append,
      append_assoc, add_assoc]

theorem straddled_step (pad : Bytes) (rest : List Bytes) {data : Bytes}
    (hlast : ∀ s, (straddling pad rest).slabs.getLast? = some s → s.data.length = slabSize)
    (hdata : data.length ≤ slabSize) :
    step queueAll (straddled pad rest) (.bufferUpdated data)
      = some (parseMessages queueAll (straddled pad (rest ++ [data]))) := by
  obtain ⟨hspace, hfill⟩ := straddled_filled pad rest data hlast
  rw [step.eq_def, if_neg nofun]
  simp only
  rw [if_neg, hfill]
  show ¬ (straddling pad rest).ready.space < data.length
  omega

theorem fitting_wire {payload : Bytes} (hpay : payload.length = 65532) :
    Message.wire ⟨ch 'S', payload⟩ = largeStart ++ ([0, 0] ++ payload) := by
  rw [Message.wire, hpay, show be32 (65532 + 4) = [0, 1, 0, 0] by decide]
  rfl

include hpad in
/-- The second slab holds the payload whole. -/
theorem straddled_parse {payload : Bytes} (hpay : payload.length = 65532) :
    ClearParse queueAll (straddled pad [[0, 0] ++ payload]) := by
  have hsecond : ([0, 0] ++ payload).length = 65534 := by
    rw [length_append, hpay]
    rfl
  have hst : (straddled pad [[0, 0] ++ payload]).store.Sound :=
    straddling_sound hpad (forall_mem_singleton.mpr (by rw [hsecond]; decide))
  have hunread : (straddled pad [[0, 0] ++ payload]).store.unread
      = Message.wire ⟨ch 'S', payload⟩ ++ [] := by
    rw [straddled, straddling_unread hpad, flatten_singleton, append_nil, fitting_wire hpay]
  have hfive : 5 ≤ (straddled pad [[0, 0] ++ payload]).store.unread.length := by
    rw [hunread, append_nil, length_wire]
    exact Nat.le_add_left ..
  have hm : Message.WellFormed ⟨ch 'S', payload⟩ := large_wellFormed (by omega)
  have hreach : Reachable (straddled pad [[0, 0] ++ payload]).store 5 payload.length := by
    refine .inr (.inr ?_)
    rw [locateContiguous, straddled, straddling_windows hpad, within, if_pos (by decide), within,
      if_neg (by rw [hsecond]; decide), if_pos (by rw [hsecond, hpay]; decide)]
    rfl
  obtain ⟨st', hconsume, hrest, hsound⟩ := consumeBytes_spec hst
    (show (Message.wire ⟨ch 'S', payload⟩).length ≤ _ by rw [hunread, append_nil])
  refine (clearParse_turn hst).mpr ⟨fun head hhead _ _ => ?_, fun _ => ?_⟩
  · obtain rfl := some.inj ((headBytes_eq hst hfive).symm.trans hhead)
    rw [(wire_header hm hfive (.inr ⟨[], hunread.symm⟩)).2]
    exact hreach
  · rw [parseTurn_message hst hm hunread fun _ => hreach, hconsume]
    refine clearParse_short hsound ?_
    show st'.unread.length < 5
    rw [hrest, hunread, append_nil, drop_length]
    decide

include hpad in
/-- A message that begins in the last three bytes of a slab and ends in the next one has its
    payload in reach. -/
theorem straddled_clear {payload : Bytes} (hpay : payload.length = 65532) :
    ∃ p, exec (guarded (ClearRead queueAll) (step queueAll)) (.fresh ())
      [.bufferUpdated (firstRead pad), .bufferUpdated ([0, 0] ++ payload)] = some p := by
  have hsecond : ([0, 0] ++ payload).length = 65534 := by
    rw [length_append, hpay]
    rfl
  obtain ⟨-, hfirst, hstep⟩ := straddled_first hpad
  have hlast := straddling_full hpad
  have hnext := straddled_step pad [] hlast (show ([0, 0] ++ payload).length ≤ slabSize by
    rw [hsecond]; decide)
  have hread : ClearRead queueAll (straddled pad []) (.bufferUpdated ([0, 0] ++ payload)) := by
    rw [ClearRead, (straddled_filled pad [] _ hlast).2]
    exact straddled_parse hpad hpay
  refine ⟨parseMessages queueAll (straddled pad [[0, 0] ++ payload]), ?_⟩
  rw [exec, guarded, if_pos hfirst, hstep]
  show exec _ (straddled pad []) _ = _
  rw [exec, guarded, if_pos hread, hnext]
  rfl

include hpad hbody htail in
/-- The payload handed to Python begins inside the header. -/
theorem straddled_misread : ∃ p payload, parseMessages queueAll
        (straddled pad [largeRest ++ body, tail]) = p
      ∧ p.failed = false
      ∧ p.acted = [⟨ch 'S', pad⟩, ⟨ch 'S', 1 :: payload⟩] := by
  obtain ⟨reads, hreads⟩ : ∃ reads, reads = [largeRest ++ body, tail] := ⟨_, rfl⟩
  rw [← hreads]
  have hfits : ∀ data ∈ reads, data.length ≤ slabSize := by
    have hrest : largeRest.length = 2 := rfl
    rw [hreads, slabSize, forall_mem_cons, forall_mem_singleton, length_append]
    omega
  have hst := straddling_sound hpad hfits
  have hwindows := straddling_windows hpad reads
  have hunread := straddling_unread hpad reads
  rw [congrArg flatten hreads, flatten_cons, flatten_singleton, ← append_assoc,
    ← large_wire hbody htail] at hunread
  have hlen : (body ++ tail).length = 65536 := by
    rw [length_append, hbody, htail]
  obtain ⟨contiguous, hcontiguous, hturn⟩ := @parseTurn_whole Unit queueAll
    (straddled pad reads) hst ⟨ch 'S', body ++ tail⟩
    (large_wellFormed hlen.le) [] (hunread.trans (append_nil _).symm)
  -- the first slab holds three bytes, so the pointer path is out
  have hchained : contiguous = false := by
    rw [← Bool.not_eq_true]
    intro h
    have hfirst := hcontiguous h
    rw [hlen] at hfirst
    have hthree : (straddling pad reads).first.length = 3 := by
      rw [Store.first, hwindows]
      rfl
    have hle : 65536 + 5 ≤ (straddling pad reads).first.length := hfirst
    omega
  -- the search lowers the offset by three and finds no slab
  have hsearch : payloadSearch (straddling pad reads).windows 5 65536 = .inr 2 := by
    have hsecond := length_largeRest hbody
    rw [hwindows, hreads, payloadSearch, if_pos (by decide), payloadSearch,
      if_neg (by rw [hsecond]; decide), if_neg (by rw [hsecond]; decide)]
    rfl
  have hpay : payloadObject (straddling pad reads) 5 65536
        = some (1 :: slice 3 65535 (Message.wire ⟨ch 'S', body ++ tail⟩)) := by
    rw [payloadObject, hsearch]
    show peekBytes _ 2 65536 = _
    rw [peekBytes_eq (by rw [hunread, length_wire, hlen]; decide), hunread, large_wire hbody htail]
    rfl
  have hdispatch : dispatch queueAll (straddled pad reads).store
      (straddled pad reads).ops (ch 'S') 65536 false
        = some ((), ⟨ch 'S', 1 :: slice 3 65535 (Message.wire ⟨ch 'S', body ++ tail⟩)⟩) := by
    show (payloadObject (straddling pad _) 5 65536).bind _ = _
    rw [hpay]
    rfl
  obtain ⟨st', hconsume, hrest, hsound⟩ :
      ∃ st', consumeBytes (straddled pad reads).store
          (Message.wire ⟨ch 'S', body ++ tail⟩).length = some st'
        ∧ st'.unread = _ ∧ st'.Sound :=
    consumeBytes_spec hst (by rw [hunread])
  rw [hunread, drop_length] at hrest
  simp only [hchained, hlen, hdispatch, hconsume] at hturn
  rw [parseMessages_turn hst, hturn]
  have hdone : parseMessages queueAll
      ((straddled pad reads).took st' () ⟨ch 'S',
        1 :: slice 3 65535 (Message.wire ⟨ch 'S', body ++ tail⟩)⟩) = _ :=
    parseMessages_turn hsound
  rw [parseTurn_empty hsound hrest] at hdone
  exact ⟨_, _, hdone, rfl, rfl⟩

end Straddling

/-- A parameter that leaves three bytes of the first slab. -/
def filler : Message := ⟨ch 'S', List.replicate 65528 0⟩

/-- A parameter that fits in a slab behind two bytes of its header. -/
def fitting : Message := ⟨ch 'S', List.replicate 65532 0⟩

def fittingReads : List Read := [.bufferUpdated (firstRead filler.payload),
    .bufferUpdated ([0, 0] ++ List.replicate 65532 0)]

theorem queueAll_acts (m : Message) : queueAll.act () m = some () := by
  simp [Operations.act, queueAll]

/-- Three reads of the three kinds, and a message across two slabs. -/
theorem greeting_reassembled : (∃ p, exec (guarded (ClearRead queueAll)
        (step queueAll)) (.fresh ()) greetingReads = some p
      ∧ p.acted = greeting)
    ∧ ∃ p, exec (guarded (ClearRead queueAll) (step queueAll)) (.fresh ()) fittingReads = some p
      ∧ p.acted = [filler, fitting] := by
  refine ⟨⟨_, rfl, ((stream_reassembled queueAll () greeting (by decide)
    greetingReads (by decide) _ rfl).2.1 rfl).2.2 (by decide)⟩, ?_⟩
  have hpad : (List.replicate 65528 (0 : UInt8)).length = 65528 := length_replicate
  have hpay : (List.replicate 65532 (0 : UInt8)).length = 65532 := length_replicate
  rw [fittingReads, filler, fitting]
  generalize List.replicate 65528 (0 : UInt8) = pad at hpad ⊢
  generalize List.replicate 65532 (0 : UInt8) = payload at hpay ⊢
  obtain ⟨p, hrun⟩ := straddled_clear hpad hpay
  have hbytes : [Read.bufferUpdated (firstRead pad), .bufferUpdated ([0, 0] ++ payload)].flatMap
      Read.bytes = wires [⟨ch 'S', pad⟩, ⟨ch 'S', payload⟩] := by
    show _ ++ largeStart ++ ([0, 0] ++ payload ++ []) = _ ++ (Message.wire ⟨_, payload⟩ ++ [])
    rw [fitting_wire hpay, append_nil, append_nil, append_assoc]
  have hformed : ∀ m ∈ [⟨ch 'S', pad⟩, ⟨ch 'S', payload⟩], Message.WellFormed m := by
    rw [forall_mem_cons, forall_mem_singleton]
    exact ⟨large_wellFormed (by omega), large_wellFormed (by omega)⟩
  obtain ⟨-, hwhole, hraised⟩ := stream_reassembled queueAll () _ hformed _
    ⟨[], (append_nil _).trans hbytes⟩ p hrun
  refine ⟨p, hrun, (hwhole ?_).2.2 hbytes⟩
  cases hfailed : p.failed with
  | false => rfl
  | true =>
    obtain ⟨m, -, -, hnone⟩ := hraised hfailed
    exact nomatch (queueAll_acts m).symm.trans hnone

/-- A parameter longer than a slab. -/
def large : Message := ⟨ch 'S', List.replicate 65534 0 ++ List.replicate 2 0⟩

def straddlingReads : List Read := [.bufferUpdated (firstRead filler.payload),
    .bufferUpdated (largeRest ++ List.replicate 65534 0),
    .bufferUpdated (List.replicate 2 0)]

/-- **A PAYLOAD MISREAD**: the three bytes of the header that fill the first slab lower the
    offset, and the second payload is read from inside its own header. -/
theorem payload_misread : filler.WellFormed ∧ large.WellFormed
      ∧ straddlingReads.flatMap Read.bytes = wires [filler, large]
      ∧ ∃ p, exec (step queueAll) (.fresh ()) straddlingReads = some p
        ∧ p.failed = false ∧ p.acted ≠ [filler, large] := by
  have hpad : (List.replicate 65528 (0 : UInt8)).length = 65528 := length_replicate
  have hbody : (List.replicate 65534 (0 : UInt8)).length = 65534 := length_replicate
  have htail : (List.replicate 2 (0 : UInt8)).length = 2 := length_replicate
  rw [straddlingReads, filler, large]
  generalize List.replicate 65528 (0 : UInt8) = pad at hpad ⊢
  have hzero : (List.replicate 65534 (0 : UInt8)).head? = some 0 := rfl
  generalize List.replicate 65534 (0 : UInt8) = body at hbody hzero ⊢
  generalize List.replicate 2 (0 : UInt8) = tail at htail ⊢
  have hsecond := length_largeRest hbody
  refine ⟨large_wellFormed (by omega), large_wellFormed ?_, ?_, ?_⟩
  · rw [length_append]
    omega
  · show (Message.wire _ ++ largeStart) ++ ((largeRest ++ body) ++ (tail ++ [])) = _ ++ (_ ++ [])
    rw [large_wire hbody htail]
    simp only [append_assoc, append_nil]
  have hfirst := (straddled_first hpad).2.2
  have hnext : step queueAll (straddled pad []) (.bufferUpdated (largeRest ++ body))
        = some (straddled pad [largeRest ++ body]) := by
    rw [straddled_step pad [] (straddling_full hpad) hsecond.le, nil_append,
      straddled_waits hpad hbody htail]
  have hlast := straddled_step pad [largeRest ++ body] (fun s hs => by
      cases hs
      exact hsecond) (show tail.length ≤ slabSize by rw [htail]; decide)
  obtain ⟨p, payload, hp, hfailed, hacted⟩ := straddled_misread hpad hbody htail
  refine ⟨p, ?_, hfailed, ?_⟩
  · rw [exec, hfirst]
    show exec _ (straddled pad []) _ = _
    rw [exec, hnext]
    show exec _ (straddled pad [largeRest ++ body]) _ = _
    rw [exec, hlast, ← hp]
    rfl
  · intro heq
    rw [hacted] at heq
    have hpayload := congrArg Message.payload (List.cons.inj (List.cons.inj heq).2).1
    have hhead : some (1 : UInt8) = (body ++ tail).head? := congrArg List.head? hpayload
    rw [head?_append, hzero] at hhead
    exact absurd (some.inj hhead) (by decide)

end PgMessage
