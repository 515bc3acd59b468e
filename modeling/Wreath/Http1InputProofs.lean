import Wreath.ByteStringProofs

/-! # The connection's input buffer — every read path is an append

One C-owned buffer with a cursor, three ways in: a copy (`data_received`), a write into an
offered tail (`get_buffer`/`buffer_updated`), and a borrowed slice (`feed_external`) whose
residue is copied back. Seen through `unread`, consuming drops from the front and every read
path appends its payload (`ReadBuffer`). -/

namespace Http1Input

open ByteScan List Option

/-- How octets reach the buffer. `prepareRead` and `release` are the two ends of an offer,
    `settle` the end of a borrowed slice. -/
inductive ReadOp where
  | dataReceived (data : Bytes)
  | prepareRead (exported : Bool)
  | commitRead (data : Bytes)
  | release
  | feedExternal (data : Bytes)
  | settle
  deriving Repr, DecidableEq

/-- The octets a read brings. -/
def ReadOp.payload : ReadOp → Bytes
  | .dataReceived data => data
  | .commitRead data => data
  | .feedExternal data => data
  | .prepareRead _ => []
  | .release => []
  | .settle => []

/-- What a parser may rely on: the unread octets, consuming from their front, and reads that
    append. -/
class ReadBuffer (β : Type) where
  unread : β → Bytes
  consume : β → Nat → β
  ingest : β → ReadOp → Option β
  Sound : β → Prop
  unread_consume : ∀ b n, unread (consume b n) = (unread b).drop n
  sound_consume : ∀ b n, Sound b → n ≤ (unread b).length → Sound (consume b n)
  ingest_unread : ∀ b b' op, Sound b → ingest b op = some b' →
    Sound b' ∧ unread b' = unread b ++ op.payload

/-- The abstract buffer: just the unread octets. -/
instance : ReadBuffer Bytes where
  unread b := b
  consume b n := b.drop n
  ingest b op := some (b ++ op.payload)
  Sound _ := True
  unread_consume _ _ := rfl
  sound_consume _ _ _ _ := trivial
  ingest_unread _ _ _ _ h := ⟨trivial, (some.inj h).symm⟩

/-! ## The owned buffer -/

/-- The buffer fields of the protocol object. -/
structure InputBuffer where
  storage        : Bytes        -- buf[0 .. buf_len)
  cursor : Nat
  readOffer      : Option Nat   -- read_offer_offset, while an offer is live
  readExports : Nat
  compactPending : Bool
  borrowed       : Bool         -- inside feed_external, storage is not ours
  deriving Repr, DecidableEq

def InputBuffer.empty : InputBuffer :=
  { storage := [], cursor := 0, readOffer := none, readExports := 0
    compactPending := false, borrowed := false }

variable (b : InputBuffer)

/-- The octets between cursor and end. -/
def InputBuffer.unread : Bytes := b.storage.drop b.cursor

/-- A view of the storage is alive, so it must not move. -/
def InputBuffer.pinned : Bool := b.readOffer.isSome || 0 < b.readExports

/-- Reset a drained buffer, or shift a material consumed prefix out. -/
def InputBuffer.compact : InputBuffer :=
  if b.cursor = b.storage.length then { b with storage := [], cursor := 0 }
  else if 65536 < b.cursor ∧ b.storage.length ≤ b.cursor * 2 then
    { b with storage := b.storage.drop b.cursor, cursor := 0 }
  else b

/-- `do_consume`, without the scan cursors. -/
def InputBuffer.doConsume (count : Nat) : InputBuffer :=
  let b := { b with cursor := b.cursor + count }
  if b.pinned then { b with compactPending := true } else b.compact

/-- `apply_deferred_compaction`. -/
def InputBuffer.applyDeferredCompaction : InputBuffer :=
  if b.compactPending then { b with compactPending := false }.compact else b

/-- The tail of `feed_external`: the residue of the borrowed slice becomes the owned storage. -/
def InputBuffer.settle : InputBuffer :=
  if b.borrowed then
    { b with storage := b.storage.drop b.cursor, cursor := 0
             readExports := 0, compactPending := false, borrowed := false }
  else b

/-- The read paths; `none` is an error of the transport: a read while another is
    outstanding, or a commit without an offer. -/
def InputBuffer.ingest : ReadOp → Option InputBuffer
  | .dataReceived data =>
    if b.pinned then none
    else
      let b := b.applyDeferredCompaction
      some { b with storage := b.storage ++ data }
  | .prepareRead exported =>
    if b.pinned then none
    else
      let b := b.applyDeferredCompaction
      some { b with readOffer := some b.storage.length
                    readExports := if exported then 1 else 0 }
  | .commitRead data =>
    match b.readOffer with
    | none => none
    | some offset =>
      some { b with storage := b.storage.take offset ++ data
                    readOffer := none }
  | .release =>
    if b.borrowed then none
    else some { b with readExports := 0, readOffer := none }
  | .feedExternal data =>
    if b.pinned then none
    else
      let b := b.applyDeferredCompaction
      if b.storage ≠ [] ∨ b.cursor ≠ 0 then
        some { b with storage := b.storage ++ data }
      else
        -- borrow the slice for this drive; the export count keeps
        -- `doConsume` from compacting storage that is not ours
        some { b with storage := data, cursor := 0, readExports := 1
                      borrowed := true }
  | .settle => some b.settle

/-- The cursor is inside the storage, a live offer starts at its end, and a borrowed slice
    is pinned by its export, never by an offer. -/
structure InputBuffer.Sound (b : InputBuffer) : Prop where
  cursor_le : b.cursor ≤ b.storage.length
  offer_eq : ∀ offset, b.readOffer = some offset → offset = b.storage.length
  borrow_pin : b.borrowed = true → b.readOffer = none ∧ b.readExports ≠ 0

theorem InputBuffer.sound_empty : empty.Sound := ⟨le_rfl, nofun, nofun⟩

/-- Compaction touches storage and cursor only. -/
theorem InputBuffer.compact_frame : b.compact.readOffer = b.readOffer
      ∧ b.compact.readExports = b.readExports
      ∧ b.compact.borrowed = b.borrowed := by
  unfold compact
  split
  · exact ⟨rfl, rfl, rfl⟩
  · split <;> exact ⟨rfl, rfl, rfl⟩

@[simp] theorem InputBuffer.compact_unread : b.compact.unread = b.unread := by
  unfold compact
  split
  · rename_i hdrained
    show [] = b.storage.drop b.cursor
    rw [hdrained, drop_length]
  · split
    · show (b.storage.drop b.cursor).drop 0 = b.storage.drop b.cursor
      rw [drop_zero]
    · rfl

variable {b : InputBuffer}

theorem InputBuffer.compact_cursor_le (h : b.cursor ≤ b.storage.length) :
    b.compact.cursor ≤ b.compact.storage.length := by
  unfold compact
  split
  · exact le_rfl
  · split
    · exact Nat.zero_le _
    · exact h

/-- Without a live offer, compaction keeps the buffer sound. -/
theorem InputBuffer.Sound.compact
    (h : b.Sound) (hoffer : b.readOffer = none) : b.compact.Sound := by
  obtain ⟨ho, he, hb⟩ := b.compact_frame
  refine ⟨InputBuffer.compact_cursor_le h.cursor_le, ?_, ?_⟩
  · rw [ho, hoffer]
    exact nofun
  · rw [ho, he, hb]
    exact h.borrow_pin

/-- An unpinned buffer has neither offer nor borrowed slice. -/
theorem InputBuffer.Sound.unpinned (hs : b.Sound)
    (h : b.pinned = false) : b.readOffer = none ∧ b.borrowed = false := by
  obtain ⟨hoffer, hexports⟩ := Bool.or_eq_false_iff.mp h
  refine ⟨not_isSome_iff_eq_none.mp (by rw [hoffer]; decide), ?_⟩
  cases hb : b.borrowed with
  | false => rfl
  | true =>
    obtain ⟨-, hne⟩ := hs.borrow_pin hb
    have hzero : ¬ 0 < b.readExports := of_decide_eq_false hexports
    exact absurd (by omega) hne

@[simp] theorem InputBuffer.doConsume_unread (b : InputBuffer) (n : Nat) :
    (b.doConsume n).unread = b.unread.drop n := by
  have hdrop : b.storage.drop (b.cursor + n) = (b.storage.drop b.cursor).drop n := by
    rw [drop_drop]
  unfold doConsume
  simp only
  split
  · exact hdrop
  · rw [compact_unread]
    exact hdrop

theorem InputBuffer.Sound.doConsume (h : b.Sound)
    {n : Nat} (hn : n ≤ b.unread.length) : (b.doConsume n).Sound := by
  have hle : b.cursor + n ≤ b.storage.length := by
    have := h.cursor_le
    unfold InputBuffer.unread at hn
    rw [length_drop] at hn
    omega
  have hmoved : InputBuffer.Sound { b with cursor := b.cursor + n } :=
    ⟨hle, h.offer_eq, h.borrow_pin⟩
  unfold InputBuffer.doConsume
  simp only
  split
  · exact ⟨hle, h.offer_eq, h.borrow_pin⟩
  · rename_i hfree
    exact hmoved.compact (hmoved.unpinned (Bool.not_eq_true _ ▸ hfree)).1

@[simp] theorem InputBuffer.applyDeferred_unread (b : InputBuffer) :
    b.applyDeferredCompaction.unread = b.unread := by
  unfold applyDeferredCompaction
  split
  · rw [compact_unread]
    rfl
  · rfl

theorem InputBuffer.Sound.applyDeferred (h : b.Sound) (hfree : b.pinned = false) :
    b.applyDeferredCompaction.Sound ∧ b.applyDeferredCompaction.readOffer = none
      ∧ b.applyDeferredCompaction.borrowed = false := by
  obtain ⟨hoffer, hborrowed⟩ := h.unpinned hfree
  unfold InputBuffer.applyDeferredCompaction
  split
  · have hclear : InputBuffer.Sound { b with compactPending := false } := { h with }
    obtain ⟨ho, -, hb⟩ := InputBuffer.compact_frame { b with compactPending := false }
    exact ⟨hclear.compact hoffer, ho.trans hoffer, hb.trans hborrowed⟩
  · exact ⟨h, hoffer, hborrowed⟩

/-- Octets put behind the end of an unpinned buffer join what is unread. -/
theorem InputBuffer.Sound.push (h : b.Sound) (hoffer : b.readOffer = none) (data : Bytes) :
    InputBuffer.Sound { b with storage := b.storage ++ data }
      ∧ InputBuffer.unread { b with storage := b.storage ++ data } = b.unread ++ data := by
  refine ⟨⟨?_, fun _ hoff => (nomatch hoffer.symm.trans hoff), h.borrow_pin⟩,
    drop_append_of_le_length h.cursor_le⟩
  rw [length_append]
  exact Nat.le_trans h.cursor_le (Nat.le_add_right _ _)

/-- **EVERY READ PATH IS AN APPEND**: whichever way a read comes in, the unread octets grow
    by exactly its payload. -/
theorem InputBuffer.ingest_unread {b' : InputBuffer} {op : ReadOp} (h : b.Sound)
    (hop : b.ingest op = some b') : b'.Sound ∧ b'.unread = b.unread ++ op.payload := by
  revert hop
  fun_cases b.ingest op with
  | case2 data hfree | case10 data hfree =>
    rintro ⟨⟩
    obtain ⟨hs, ho, -⟩ := h.applyDeferred (Bool.not_eq_true _ ▸ hfree)
    obtain ⟨hsound, hunread⟩ := hs.push ho data
    rw [applyDeferred_unread] at hunread
    exact ⟨hsound, hunread⟩
  | case4 exported hfree =>
    rintro ⟨⟩
    obtain ⟨hs, -, hb⟩ := h.applyDeferred (Bool.not_eq_true _ ▸ hfree)
    refine ⟨⟨hs.cursor_le, fun _ hoff => (some.inj hoff).symm,
      fun hbor => nomatch hb.symm.trans hbor⟩, ?_⟩
    show b.applyDeferredCompaction.unread = b.unread ++ []
    rw [applyDeferred_unread, append_nil]
  | case6 data offset hoff =>
    rintro ⟨⟩
    obtain rfl := h.offer_eq offset hoff
    rw [take_length]
    have hfree : Sound { b with readOffer := none } :=
      ⟨h.cursor_le, nofun, fun hb => ⟨rfl, (h.borrow_pin hb).2⟩⟩
    exact hfree.push rfl data
  | case8 hown =>
    rintro ⟨⟩
    refine ⟨⟨h.cursor_le, nofun, fun hb => absurd hb hown⟩, ?_⟩
    show b.unread = b.unread ++ []
    rw [append_nil]
  | case11 data hfree _ hnil =>
    rintro ⟨⟩
    obtain ⟨hs, ho, -⟩ := h.applyDeferred (Bool.not_eq_true _ ▸ hfree)
    obtain ⟨hstorage, -⟩ := not_or.mp hnil
    have hnothing : b.unread = [] := by
      rw [← applyDeferred_unread]
      unfold unread
      rw [not_not.mp hstorage, drop_nil]
    refine ⟨⟨Nat.zero_le _, fun _ hoff => (nomatch ho.symm.trans hoff),
      fun _ => ⟨ho, Nat.one_ne_zero⟩⟩, ?_⟩
    rw [hnothing]
    rfl
  | case12 =>
    rintro ⟨⟩
    show _ ∧ _ = b.unread ++ []
    rw [append_nil]
    unfold settle
    split
    · rename_i hborrowed
      have hoffer := (h.borrow_pin hborrowed).1
      refine ⟨⟨Nat.zero_le _, fun _ hoff => (nomatch hoffer.symm.trans hoff), nofun⟩, ?_⟩
      show (b.storage.drop b.cursor).drop 0 = b.storage.drop b.cursor
      rw [drop_zero]
    · exact ⟨h, rfl⟩
  | _ => rintro ⟨⟩

/-- The owned buffer is a read buffer. -/
instance : ReadBuffer InputBuffer where
  unread := InputBuffer.unread
  consume := InputBuffer.doConsume
  ingest := InputBuffer.ingest
  Sound := InputBuffer.Sound
  unread_consume := InputBuffer.doConsume_unread
  sound_consume _ _ h hn := h.doConsume hn
  ingest_unread _ _ _ h hop := InputBuffer.ingest_unread h hop

end Http1Input
