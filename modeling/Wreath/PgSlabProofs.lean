import Wreath.ByteStringProofs

/-! # Receive slabs — the bytes of a PostgreSQL connection

What the backend sends is read into slabs of 64 KiB, of which the last is being filled; what
lies between their read and write positions has not been parsed yet. `payload_object` lowers
its offset while it looks for a slab that holds the payload whole, and passes the lowered
offset on when there is none. `payloadObject_eq` says when that is the offset it was given. -/

namespace PgSlab

open ByteScan Rope List

/-- `WREATH_PG_SLAB_SIZE`. -/
def slabSize : Nat := 64 * 1024

/-- `WreathPgSlab`; `data` is what was written, so its length is the write position. -/
structure Slab where
  data : Bytes
  read : Nat
  deriving Repr, DecidableEq

def Slab.unread (s : Slab) : Bytes := s.data.drop s.read

def Slab.available (s : Slab) : Nat := s.data.length - s.read

theorem Slab.length_unread (s : Slab) : s.unread.length = s.available := length_drop

/-- The slabs with unparsed bytes and the running count of these; `current` is the last
    slab, and null when there is none. -/
structure Store where
  slabs : List Slab
  unreadBytes : Nat
  deriving Repr, DecidableEq

def Store.empty : Store := ⟨[], 0⟩

variable (st : Store) (offset length : Nat)

def Store.windows : List Bytes := st.slabs.map Slab.unread

/-- The unparsed bytes as one string. -/
def Store.unread : Bytes := st.windows.flatten

/-- The unread bytes of the first slab. -/
def Store.first : Bytes := st.windows.headD []

/-! ## Reading -/

/-- `peek_bytes`. -/
def peekBytes : Option Bytes := peek st.windows offset length

/-- `locate_contiguous`: the range, where one slab holds it. -/
def locateContiguous : Option Bytes := within st.windows offset length

/-- The search of `payload_object`: the payload in one slab, or the offset as the loop leaves it. -/
def payloadSearch : List Bytes → Nat → Nat → Bytes ⊕ Nat
  | [], offset, _ => .inr offset
  | w :: ws, offset, length =>
    if w.length ≤ offset then payloadSearch ws (offset - w.length) length
    else if length ≤ w.length - offset then .inl (slice offset length w)
    else .inr offset

/-- `payload_object`. -/
def payloadObject : Option Bytes :=
  match payloadSearch st.windows offset length with
  | .inl payload => some payload
  | .inr offset => peekBytes st offset length

/-- The loop of `consume_bytes` over the slabs. -/
def consumeSlabs : List Slab → Nat → Option (List Slab)
  | slabs, 0 => some slabs
  | [], _ + 1 => none
  | s :: slabs, n + 1 =>
    if n + 1 < s.available then
      some ({ s with read := s.read + (n + 1) } :: slabs)
    else consumeSlabs slabs (n + 1 - s.available)

/-- `consume_bytes`. -/
def consumeBytes (length : Nat) : Option Store := (consumeSlabs st.slabs length).map
    fun slabs => ⟨slabs, st.unreadBytes - length⟩

/-! ## Filling -/

def Slab.fresh : Slab := ⟨[], 0⟩

/-- What `get_buffer`, `acquire_read_buffer` and `feed_external` do first: a new slab when
    there is no current one or it is full. -/
def Store.ready : Store :=
  match st.slabs.getLast? with
  | none => { st with slabs := st.slabs ++ [.fresh] }
  | some s =>
    if s.data.length = slabSize then
      { st with slabs := st.slabs ++ [.fresh] }
    else st

/-- The room in the current slab. -/
def Store.space : Nat :=
  match st.slabs.getLast? with
  | none => 0
  | some s => slabSize - s.data.length

def fillLast (bytes : Bytes) : List Slab → List Slab
  | [] => []
  | [s] => [{ s with data := s.data ++ bytes }]
  | s :: slabs => s :: fillLast bytes slabs

/-- The bytes arrive in the current slab. -/
def Store.fill (bytes : Bytes) : Store := ⟨fillLast bytes st.slabs, st.unreadBytes + bytes.length⟩

/-! ## The store as one string -/

/-- Reading stays behind writing, and writing in the slab. -/
structure Slab.Within (s : Slab) : Prop where
  read : s.read ≤ s.data.length
  size : s.data.length ≤ slabSize

/-- **SOUND**: every slab is in order, and the count is right. -/
structure Store.Sound (st : Store) : Prop where
  within : ∀ s ∈ st.slabs, s.Within
  count : st.unreadBytes = st.unread.length

theorem Store.sound_empty : Sound .empty := ⟨nofun, rfl⟩

variable {offset length : Nat} {st : Store}

theorem peekBytes_eq (h : offset + length ≤ st.unread.length) :
    peekBytes st offset length = some (slice offset length st.unread) :=
  peek_eq _ _ _ h

/-- The payload lies in one slab, or begins in the first. -/
def Reachable (st : Store) (offset length : Nat) : Prop :=
  length = 0 ∨ (∃ w ws, st.windows = w :: ws ∧ offset < w.length)
    ∨ (locateContiguous st offset length).isSome = true

instance (st : Store) (offset length : Nat) : Decidable (Reachable st offset length) :=
  match h : st.windows with
  | [] => decidable_of_iff
      (length = 0 ∨ (locateContiguous st offset length).isSome = true) (by
        simp [Reachable, h])
  | w :: ws => decidable_of_iff
      (length = 0 ∨ offset < w.length ∨ (locateContiguous st offset length).isSome = true) (by
        simp [Reachable, h])

/-- The search ends at a payload that lies within one window. -/
theorem payloadSearch_inl {ws : List Bytes} {payload : Bytes} :
    payloadSearch ws offset length = .inl payload ↔ within ws offset length = some payload := by
  induction ws generalizing offset with
  | nil => exact iff_of_false nofun nofun
  | cons w ws ih =>
    rw [within, payloadSearch]
    split
    · exact ih
    split
    · rw [Sum.inl.injEq, Option.some.injEq]
    · exact iff_of_false nofun nofun

/-- **THE PAYLOAD IS THE SLICE**, when one slab holds it or it begins in the first slab:
    then the search has not lowered the offset. -/
theorem payloadObject_eq (hbound : offset + length ≤ st.unread.length)
    (hreach : Reachable st offset length) :
    payloadObject st offset length = some (slice offset length st.unread) := by
  rw [payloadObject]
  cases hsearch : payloadSearch st.windows offset length with
  | inl payload =>
    exact congrArg some (within_some (payloadSearch_inl.mp hsearch))
  | inr lowered =>
    rcases hreach with rfl | ⟨w, ws, hwindows, hfirst⟩ | hone
    · -- an empty payload is empty wherever it is read
      show peek st.windows lowered 0 = some []
      cases st.windows with
      | nil | cons => exact if_pos rfl
    · rw [hwindows, payloadSearch, if_neg (by omega)] at hsearch
      split at hsearch
      · cases hsearch
      · rw [← Sum.inr.inj hsearch]
        exact peekBytes_eq hbound
    · obtain ⟨payload, hpay⟩ := Option.isSome_iff_exists.mp hone
      rw [payloadSearch_inl.mpr hpay] at hsearch
      cases hsearch

theorem consumeSlabs_spec (slabs : List Slab) (n : Nat)
    (hn : n ≤ (slabs.map Slab.unread).flatten.length) (hwith : ∀ s ∈ slabs, s.Within) :
    ∃ slabs', consumeSlabs slabs n = some slabs' ∧ (slabs'.map Slab.unread).flatten
        = (slabs.map Slab.unread).flatten.drop n
      ∧ ∀ s ∈ slabs', s.Within := by
  fun_induction consumeSlabs slabs n with
  | case1 slabs => exact ⟨slabs, rfl, rfl, hwith⟩
  | case2 => cases hn
  | case3 s slabs n hlt =>
    -- the slab keeps what is behind the new read position
    obtain ⟨hs, hrest⟩ := forall_mem_cons.mp hwith
    refine ⟨_, rfl, ?_, forall_mem_cons.mpr ⟨⟨?_, hs.size⟩, hrest⟩⟩
    · rw [map_cons, map_cons, flatten_cons,
        flatten_cons, drop_append_of_le_length (by rw [Slab.length_unread]; omega)]
      rw [Slab.unread, Slab.unread, drop_drop]
    · rw [Slab.available] at hlt
      show s.read + (n + 1) ≤ s.data.length
      omega
  | case4 s slabs n hlt ih =>
    -- the slab is used up
    rw [map_cons, flatten_cons, length_append, Slab.length_unread] at hn
    obtain ⟨slabs', hconsume, hunread, hwith'⟩ :=
      ih (by omega) fun x hx => hwith x (mem_cons_of_mem s hx)
    refine ⟨slabs', hconsume, ?_, hwith'⟩
    have hused : s.unread.drop (n + 1) = [] := drop_eq_nil_of_le (by rw [Slab.length_unread]; omega)
    rw [hunread, map_cons, flatten_cons, drop_append, hused, Slab.length_unread, nil_append]

/-- **CONSUMING** drops the bytes and nothing else. -/
theorem consumeBytes_spec (h : st.Sound) {n : Nat} (hn : n ≤ st.unread.length) :
    ∃ st', consumeBytes st n = some st' ∧ st'.unread = st.unread.drop n ∧ st'.Sound := by
  obtain ⟨slabs, hconsume, hunread, hwith⟩ := consumeSlabs_spec st.slabs n hn h.within
  refine ⟨⟨slabs, st.unreadBytes - n⟩, ?_, hunread, hwith, ?_⟩
  · rw [consumeBytes, hconsume]
    rfl
  · show st.unreadBytes - n = ((slabs.map Slab.unread).flatten).length
    rw [hunread, length_drop, h.count]
    rfl

/-- Consuming less than the first slab holds. -/
theorem consumeBytes_inside {s : Slab} {slabs : List Slab} {n : Nat}
    (hn : 0 < n) (h : n < s.available) (count : Nat) : consumeBytes ⟨s :: slabs, count⟩ n
      = some ⟨{ s with read := s.read + n } :: slabs, count - n⟩ := by
  obtain ⟨k, rfl⟩ : ∃ k, n = k + 1 := ⟨n - 1, by omega⟩
  rw [consumeBytes, consumeSlabs, if_pos h]
  rfl

/-! ## Filling keeps the string -/

theorem Store.ready_unread : st.ready.unread = st.unread := by
  have hfresh : unread { st with slabs := st.slabs ++ [.fresh] } = st.unread := by
    rw [unread, windows, map_append, flatten_append]
    exact append_nil _
  rw [ready]
  split
  · exact hfresh
  · split
    · exact hfresh
    · rfl

theorem Store.Sound.ready (h : st.Sound) : st.ready.Sound := by
  have hfresh : Store.Sound { st with slabs := st.slabs ++ [.fresh] } := by
    refine ⟨fun s hs => ?_, ?_⟩
    · rcases mem_append.mp hs with hs | hs
      · exact h.within s hs
      · rw [mem_singleton.mp hs]
        exact ⟨Nat.le_refl 0, Nat.zero_le _⟩
    · rw [Store.unread, Store.windows, map_append, flatten_append]
      exact h.count.trans (congrArg List.length (append_nil _)).symm
  rw [Store.ready]
  split
  · exact hfresh
  · split
    · exact hfresh
    · exact h

theorem Store.ready_ne_nil : st.ready.slabs ≠ [] := by
  rw [ready]
  split
  · exact append_ne_nil_of_right_ne_nil _ nofun
  · rename_i s hlast
    split
    · exact append_ne_nil_of_right_ne_nil _ nofun
    · intro hnil
      rw [hnil] at hlast
      cases hlast

/-- There is room after `ready`. -/
theorem Store.ready_space (h : st.Sound) : 0 < st.ready.space := by
  have hfresh : 0 < space { st with slabs := st.slabs ++ [.fresh] } := by
    rw [space, List.getLast?_concat]
    decide
  rw [ready]
  split
  · exact hfresh
  · rename_i s hlast
    split
    · exact hfresh
    · have := (h.within s (mem_of_getLast? hlast)).size
      rw [space, hlast]
      show 0 < slabSize - s.data.length
      omega

theorem fillLast_unread (bytes : Bytes) {slabs : List Slab} (hne : slabs ≠ [])
    (hwith : ∀ s ∈ slabs, s.Within) : ((fillLast bytes slabs).map Slab.unread).flatten
      = (slabs.map Slab.unread).flatten ++ bytes := by
  fun_induction fillLast bytes slabs with
  | case1 => exact absurd rfl hne
  | case2 s =>
    show (Slab.unread ⟨s.data ++ bytes, s.read⟩) ++ [] = (s.unread ++ []) ++ bytes
    rw [append_nil, append_nil, Slab.unread, Slab.unread,
      drop_append_of_le_length (hwith s (mem_singleton_self s)).read]
  | case3 s slabs hmore ih =>
    rw [map_cons, map_cons, flatten_cons, flatten_cons,
      ih hmore fun x hx => hwith x (mem_cons_of_mem s hx), append_assoc]

theorem fillLast_within {bytes : Bytes} {slabs : List Slab} (hwith : ∀ s ∈ slabs, s.Within)
    (hroom : ∀ s, slabs.getLast? = some s → s.data.length + bytes.length ≤ slabSize) :
    ∀ s ∈ fillLast bytes slabs, s.Within := by
  fun_induction fillLast bytes slabs with
  | case1 => exact hwith
  | case2 s =>
    have hread := (hwith s (mem_singleton_self s)).read
    have hsize := hroom s rfl
    rw [forall_mem_singleton]
    constructor
    · show s.read ≤ (s.data ++ bytes).length
      rw [length_append]
      omega
    · rwa [length_append]
  | case3 s slabs hne ih =>
    obtain ⟨hs, hrest⟩ := forall_mem_cons.mp hwith
    refine forall_mem_cons.mpr ⟨hs, ih hrest fun y hy => hroom y ?_⟩
    rwa [getLast?_cons_of_ne_nil hne]

/-- **FILLING** appends the bytes. -/
theorem Store.fill_spec (h : st.Sound) (hne : st.slabs ≠ [])
    {bytes : Bytes} (hroom : bytes.length ≤ st.space) :
    (st.fill bytes).unread = st.unread ++ bytes ∧ (st.fill bytes).Sound := by
  have hunread : (st.fill bytes).unread = st.unread ++ bytes := fillLast_unread bytes hne h.within
  refine ⟨hunread, fillLast_within h.within fun s hs => ?_, ?_⟩
  · rw [space, hs] at hroom
    have := (h.within s (mem_of_getLast? hs)).size
    have hle : bytes.length ≤ slabSize - s.data.length := hroom
    omega
  rw [hunread, length_append, ← h.count]
  rfl

end PgSlab
