import Wreath.PgDriverProofs
import Mathlib.Data.List.Nodup
import Mathlib.Logic.Relation

/-! # The queues of the driver — what each event does to them

A submission admits an operation or refuses it (`Admission`); a flush is a sequence of small
changes (`Move`, `Drop`). The parser changes what an operation has collected, leaves a message
to the reader, or completes the head (`act_cases`); the reader does the same one message at a
time (`read_cases`). `Queues` is what these keep: emission and completion run in the same
order. -/

namespace PgDriver

open ByteScan PgMessage List Option

/-! ## Small changes -/

/-- What a submission does before any flush. -/
inductive Admission (lim : Limits) (c : Conn) (r : Request) : Conn → Prop
  | refused : Admission lim c r c
  /-- the packet could not be built -/
  | unbuilt : r.size = none → Admission lim c r (c.consult r.sql)
  /-- the packet is too large -/
  | oversize (size : Nat) : r.size = some size →
      preflight lim c r.sql = none →
      lim.maxOutbound < (newOperation c r size).size →
      Admission lim c r (c.consult r.sql).takeCloses
  | admitted (size : Nat) : r.size = some size →
      preflight lim c r.sql = none →
      ¬ lim.maxOutbound < (newOperation c r size).size →
      Admission lim c r ((c.consult r.sql).takeCloses.hold c.sequence (newOperation c r size))

/-- A live operation at the head of `_waiting` is taken off. -/
def Conn.popWaiting (c : Conn) (rest : List Nat) : Conn :=
  { c with waiting := rest, waitingLive := c.waitingLive - 1 }

/-- What a flush does, one change at a time. -/
inductive Move : Conn → Conn → Prop
  /-- the flags of the event loop -/
  | flags (c : Conn) (handle blocked : Bool) :
      Move c { c with flushHandle := handle, writeBlocked := blocked }
  /-- a tombstone at the head of the waiting ones -/
  | skip (c : Conn) (id : Nat) (rest : List Nat) :
      c.closed = false → c.waiting = id :: rest →
      (c.ops id).state = .cancelled → Move c { c with waiting := rest }
  | emit (c : Conn) (id : Nat) (rest : List Nat) :
      c.closed = false → c.waiting = id :: rest →
      (c.ops id).state ≠ .cancelled →
      (c.ops id).future ≠ .cancelled →
      Move c (emit (c.popWaiting rest) id)

/-- An operation whose future was cancelled is dropped by a flush. -/
inductive Drop : Conn → Conn → Prop
  | intro (c : Conn) (id : Nat) (rest : List Nat) :
      c.closed = false → c.waiting = id :: rest →
      (c.ops id).state ≠ .cancelled →
      (c.ops id).future = .cancelled →
      Drop c ((c.popWaiting rest).modify id fun o => { o with state := .cancelled })

abbrev Moves : Conn → Conn → Prop := Relation.ReflTransGen Move

/-- Moves and drops. -/
abbrev Sweep : Conn → Conn → Prop := Relation.ReflTransGen fun c c' => Move c c' ∨ Drop c c'

variable {lim : Limits}

variable {batch taken : Nat}

/-- The loop of a flush, from the connection with the waiting ones it still has to look at. -/
theorem collect_sweep (available : Nat) (ws : List Nat) (c : Conn) (hopen : c.closed = false) :
    Sweep { c with waiting := ws } (collect lim available ws batch taken c).1 := by
  fun_induction collect lim available ws batch taken c with
  | case1 | case2 | case4 => exact .refl
  | case3 id rest _ _ c _ _ hst ih =>
    exact .head (.inl (.skip _ id rest hopen rfl hst)) (ih hopen)
  | case5 id rest _ _ c _ _ hst _ _ hfut ih =>
    exact .head (.inr (.intro _ id rest hopen rfl hst hfut)) (ih hopen)
  | case6 id rest _ _ c _ _ hst _ _ hfut ih =>
    exact .head (.inl (.emit _ id rest hopen rfl hst hfut)) (ih hopen)

/-- No operation that still waits was cancelled. -/
def Steady (c : Conn) (ws : List Nat) : Prop :=
  ∀ id ∈ ws, (c.ops id).state ≠ .cancelled → (c.ops id).future ≠ .cancelled

/-- Then the loop drops nothing. -/
theorem collect_moves (available : Nat) (ws : List Nat) (c : Conn)
    (hopen : c.closed = false) (hsteady : Steady c ws) :
    Moves { c with waiting := ws } (collect lim available ws batch taken c).1 := by
  fun_induction collect lim available ws batch taken c with
  | case1 | case2 | case4 => exact .refl
  | case3 id rest _ _ c _ _ hst ih =>
    exact .head (.skip _ id rest hopen rfl hst) (ih hopen (forall_mem_cons.mp hsteady).2)
  | case5 id rest _ _ c _ _ hst _ _ hfut ih =>
    exact absurd hfut (hsteady id mem_cons_self hst)
  | case6 id rest _ _ c _ _ hst _ _ hfut ih =>
    refine .head (.emit _ id rest hopen rfl hst hfut) (ih hopen fun i hi => ?_)
    show (if i = id then { c.ops i with state := OpState.emitted }
        else c.ops i).state ≠ _ →
      (if i = id then { c.ops i with state := OpState.emitted }
        else c.ops i).future ≠ _
    split
    · rename_i heq
      rw [heq]
      exact fun _ => hfut
    · exact hsteady i (mem_cons_of_mem _ hi)

variable {blocked : Bool}

/-- What a flush does around its loop are flags. -/
theorem flush_around {R : Conn → Conn → Prop} (c : Conn)
    (hflags : ∀ (d : Conn) (handle blocked : Bool),
      R d { d with flushHandle := handle, writeBlocked := blocked })
    (hloop : ∀ available,
      Relation.ReflTransGen R { c with flushHandle := false }
        (collect lim available c.waiting 0 0 { c with flushHandle := false }).1) :
    Relation.ReflTransGen R c (flush lim c blocked) := by
  have hstart : Relation.ReflTransGen R c { c with flushHandle := false } :=
    .single (hflags c false c.writeBlocked)
  rw [flush]
  simp only
  split
  · exact hstart
  split
  · exact hstart
  refine hstart.trans ((hloop (lim.maxEmitted - c.emitted.length)).trans ?_)
  generalize collect lim _ _ _ _ _ = result
  obtain ⟨d, taken⟩ := result
  split <;> split
  · exact .single (hflags d true blocked)
  · exact .single (hflags d d.flushHandle blocked)
  · exact .single (hflags d true d.writeBlocked)
  · exact .refl

theorem flush_sweep (c : Conn) (hopen : c.closed = false) : Sweep c (flush lim c blocked) :=
  flush_around c (fun d handle blocked => .inl (.flags d handle blocked))
    fun available =>
      collect_sweep available c.waiting { c with flushHandle := false } hopen

theorem flush_moves (c : Conn) (hopen : c.closed = false) (h : Steady c c.waiting) :
    Moves c (flush lim c blocked) :=
  flush_around c Move.flags fun available =>
    collect_moves available c.waiting { c with flushHandle := false } hopen h

theorem newOperation_state (c : Conn) (r : Request) (size : Nat) :
    (newOperation c r size).state = .waiting ∧ (newOperation c r size).future = .pending := by
  rw [newOperation, Operation.withCloses, Operation.new.eq_def]
  split <;> exact ⟨rfl, rfl⟩

/-- A submission flushes only when nothing else waits, so it drops nothing. -/
theorem submit_moves (c : Conn) (r : Request) (hopen : c.closed = false)
    (hidle : c.waitingLive = 0 → ∀ id ∈ c.waiting, (c.ops id).state = .cancelled) :
    ∃ c₁, Admission lim c r c₁ ∧ Moves c₁ (submit lim c r).1 := by
  fun_cases submit lim c r with
  | case1 => exact ⟨c, .refused, .refl⟩
  | case2 _ hsize => exact ⟨_, .unbuilt hsize, .refl⟩
  | case3 hpre size hsize _ _ hlarge =>
    exact ⟨_, .oversize size hsize hpre hlarge, .refl⟩
  | case4 hpre size hsize _ _ hlarge eager _ heager =>
    refine ⟨_, .admitted size hsize hpre hlarge, flush_moves _ hopen fun id hid => ?_⟩
    rw [Bool.and_eq_true, Bool.and_eq_true, decide_eq_true_iff] at heager
    show (if id = c.sequence then newOperation c r size else c.ops id).state ≠ _
      → (if id = c.sequence then newOperation c r size else c.ops id).future ≠ _
    split
    · intro _
      rw [(newOperation_state c r size).2]
      exact nofun
    · rename_i hne
      rcases mem_append.mp hid with hid | hid
      · exact fun h => absurd (hidle heager.1.1 id hid) h
      · exact absurd (mem_singleton.mp hid) hne
  | case5 hpre size hsize _ _ hlarge =>
    exact ⟨_, .admitted size hsize hpre hlarge, .single (.flags _ true _)⟩

/-! ## The parser -/

/-- What an operation has collected is left out. -/
def Operation.shell (o : Operation) : Operation :=
  { o with columns := 0, tape := false, rows := [], command := [] }

theorem shell_describe (o : Operation) (columns : Nat) : (o.describe columns).shell = o.shell := by
  rw [Operation.describe]
  split <;> rfl

/-- Only what the operations have collected differs, and what the parser keeps of them. -/
structure Touched (c c' : Conn) : Prop where
  rest : c' = { c with ops := c'.ops, ring := c'.ring }
  ops : ∀ i, (c'.ops i).shell = (c.ops i).shell
  ids : c'.ring.map Context.op = c.ring.map Context.op

variable {c : Conn}

theorem Touched.rfl : Touched c c := ⟨.refl _, fun _ => .refl _, .refl _⟩

theorem Touched.trans {c₁ c₂ c₃ : Conn} (h : Touched c₁ c₂)
    (h' : Touched c₂ c₃) : Touched c₁ c₃ := by
  refine ⟨?_, fun i => (h'.ops i).trans (h.ops i), h'.ids.trans h.ids⟩
  rw [h'.rest, h.rest]

variable {c' : Conn}

/-- What no message changes is kept. -/
theorem Touched.field (h : Touched c c') {α : Type} (field : Operation → α)
    (hfield : ∀ o : Operation, field o.shell = field o) (i : Nat) :
    field (c'.ops i) = field (c.ops i) := by
  rw [← hfield, h.ops, hfield]

variable {f : Operation → Operation}

theorem touched_modify (c : Conn) (id : Nat)
    (hf : ∀ o, (f o).shell = o.shell) : Touched c (c.modify id f) := by
  refine ⟨.refl _, fun i => ?_, .refl _⟩
  show (if i = id then f (c.ops i) else c.ops i).shell = _
  split
  · exact hf _
  · exact .refl _

theorem touched_modifyHead (c : Conn)
    (hf : ∀ o, (f o).shell = o.shell) : Touched c (c.modifyHead f) := by
  rw [Conn.modifyHead]
  split
  · exact .rfl
  · exact touched_modify c _ hf

theorem Touched.ring {x y : Context} {rest : List Context}
    (hring : c.ring = x :: rest) (hid : y.op = x.op) : Touched c { c with ring := y :: rest } :=
  ⟨.refl _, fun _ => .refl _, by rw [hring, map_cons, map_cons, hid]⟩

theorem Context.sample_op (x : Context) (o : Operation) : (x.sample o).op = x.op := by
  rw [Context.sample]
  split <;> rfl

theorem rowUse_touched (c : Conn) : Touched c (rowUse c).2 := by
  rw [rowUse]
  split
  · exact .rfl
  · rename_i x rest hring
    exact .ring hring (x.sample_op _)

theorem install_touched {kind : UInt8} {payload : Bytes}
    (h : install c kind payload = some c') : Touched c c' := by
  rw [install] at h
  split at h
  · cases h
  rename_i x rest hring
  split at h
  · obtain ⟨-, -, rfl⟩ := map_eq_some_iff.mp h
    exact .rfl
  · obtain ⟨columns, -, rfl⟩ := map_eq_some_iff.mp h
    obtain ⟨-, hops, -⟩ := touched_modify c x.op (fun o => shell_describe o columns)
    exact ⟨.refl _, hops, by rw [hring]; rfl⟩

/-- The parser completes the operation at its head. -/
structure Completes (lim : Limits) (c : Conn) (m : Message) (c' : Conn) : Prop where
  kind : m.kind = ch 'Z' ∧ m.payload.length = 1
  head : ∃ x xs rest, c.ring = x :: xs ∧ c.emitted = x.op :: rest
    ∧ c.headDirect = true ∧ (c.ops x.op).cold = false
    ∧ (c.ops x.op).discarded = false ∧ (c.ops x.op).error = none
    ∧ c' = advance (wakeFlush (finishOperation lim (c.popEmitted rest m) x.op))

variable {m : Message}

/-- A kind of a class is none of another one. -/
theorem class_ne {p : UInt8 → Bool} {kind : UInt8} (h : p m.kind = true)
    (hkind : p kind = false) : m.kind ≠ kind := by
  rintro rfl
  exact nomatch h.symm.trans hkind

/-- The head is completed, or is not one it completes, or the parser raises. -/
theorem completeCached_cases {status : Bytes} {done : Bool}
    (h : completeCached lim c status = some (done, c')) :
    (done = false ∧ c' = c) ∨ (done = true ∧ ∃ x xs rest, c.ring = x :: xs
      ∧ c.emitted = x.op :: rest ∧ (c.ops x.op).cold = false
      ∧ (c.ops x.op).discarded = false ∧ (c.ops x.op).error = none
      ∧ c' = advance (wakeFlush (finishOperation lim
        { c with emitted := rest, status := status.headD 0 } x.op)))
      ∨ (done = true ∧ c'.closed = true) := by
  revert h
  fun_cases completeCached lim c status with
  | case1 | case2 =>
    rintro ⟨⟩
    exact .inl ⟨rfl, rfl⟩
  | case3 => rintro ⟨⟩
  | case4 =>
    rintro ⟨⟩
    exact .inr (.inr ⟨rfl, rfl⟩)
  | case5 x xs hring o hready head rest hemit hhead =>
    rintro ⟨⟩
    rw [not_or, not_or, Bool.not_eq_true, Bool.not_eq_true, not_not] at hready
    exact .inr (.inl ⟨rfl, x, xs, rest, hring, not_not.mp hhead ▸ hemit, hready.1, hready.2.1,
      hready.2.2, rfl⟩)

/-- **THE PARSER** changes what is collected, completes its head, leaves the message to the
    reader, or raises over the order of the pipeline. -/
theorem act_cases (h : (operations lim).act c m = some c') :
    (m.kind ≠ ch 'Z' ∧ Touched c c') ∨ Completes lim c m c'
      ∨ (∃ c₁, Touched c c₁ ∧ (m.kind = ch 'Z' → c₁ = c)
        ∧ c' = queueMessage c₁ m.kind m.payload) ∨ c'.closed = true := by
  have hqueue : (operations lim).queue c m.kind m.payload = some c' →
      ∃ c₁, Touched c c₁ ∧ (m.kind = ch 'Z' → c₁ = c) ∧ c' = queueMessage c₁ m.kind m.payload :=
    fun h => ⟨c, .rfl, fun _ => rfl, (some.inj h).symm⟩
  have hrow : m.kind == ch 'D' → m.kind ≠ ch 'Z' :=
    fun hkind => class_ne (p := (· == ch 'D')) hkind rfl
  have htouch : ∀ {use o}, rowUse c = (use, o) → Touched c o := by
    intro use o huse
    have htouch := rowUse_touched c
    rwa [huse] at htouch
  revert h
  fun_cases Operations.act (operations lim) c m with
  | case1 hkind =>
    exact fun h => .inl ⟨class_ne hkind rfl, some.inj h ▸ .rfl⟩
  | case2 _ hkind =>
    rw [Bool.and_eq_true, Bool.and_eq_true] at hkind
    exact fun h => .inl ⟨class_ne hkind.1.1 rfl, install_touched h⟩
  | case3 _ _ hkind =>
    intro h
    rw [Bool.and_eq_true, beq_iff_eq] at hkind
    refine .inl ⟨?_, some.inj h ▸ touched_modifyHead c fun o => rfl⟩
    rw [hkind.1]
    decide
  | case4 _ _ _ hkind o huse => exact fun h => .inl ⟨hrow hkind, some.inj h ▸ htouch huse⟩
  | case5 _ _ _ hkind o huse =>
    exact fun h => .inl ⟨hrow hkind, some.inj h ▸ (htouch huse).trans (touched_modifyHead o fun o => rfl)⟩
  | case6 _ _ _ hkind o huse =>
    exact fun h => .inr (.inr (.inl
      ⟨o, htouch huse, fun h => absurd h (hrow hkind), (some.inj h).symm⟩))
  | case7 => rintro ⟨⟩
  | case8 _ _ _ _ hkind o hcomp =>
    rw [Bool.and_eq_true, Bool.and_eq_true, beq_iff_eq, beq_iff_eq] at hkind
    obtain ⟨hz, hdir⟩ := hkind
    have hdir : (c.headDirect && !c.ring.isEmpty) = true := hdir
    rw [Bool.and_eq_true] at hdir
    rcases completeCached_cases hcomp with ⟨hnot, -⟩ | ⟨-, x, xs, rest, hring, hemit, hdone⟩
      | ⟨-, hclosed⟩
    · cases hnot
    · rintro ⟨⟩
      exact .inr (.inl ⟨hz, x, xs, rest, hring, hemit, hdir.1, hdone⟩)
    · rintro ⟨⟩
      exact .inr (.inr (.inr hclosed))
  | case9 _ _ _ _ _ o hcomp =>
    rcases completeCached_cases hcomp with ⟨-, rfl⟩ | ⟨hnot, -⟩ | ⟨hnot, -⟩
    · exact fun h => .inr (.inr (.inl (hqueue h)))
    · cases hnot
    · cases hnot
  | case10 => exact fun h => .inr (.inr (.inl (hqueue h)))

/-! ## The reader -/

/-- The reader completes the operation at the head of `_emitted`. -/
def Finishes (lim : Limits) (c : Conn) (m : Message) (c' : Conn) : Prop :=
  m.kind = ch 'Z' ∧ ∃ id rest, c.emitted = id :: rest ∧ c' = wakeFlush (finishOperation lim
      (c.popEmitted rest m) id)

/-- The fields of a connection with one more message in the queue. -/
theorem queueMessage_fields (c : Conn) :
    ∃ ring direct, queueMessage c m.kind m.payload
        = { c with ring := ring, headDirect := direct, messages := c.messages ++ [m] }
      ∧ (∀ x ∈ ring, x ∈ c.ring)
      ∧ (m.kind ≠ ch 'Z' → ring = c.ring ∧ direct = (c.headDirect && asynchronous m.kind))
      ∧ (m.kind = ch 'Z' → ring = c.ring.tail) := by
  rw [queueMessage]
  split
  · rename_i hz
    exact ⟨c.ring.tail, true, rfl, fun x hx => mem_of_mem_tail hx,
      fun h => absurd hz.1 h, fun _ => rfl⟩
  · rename_i hz
    refine ⟨c.ring, _, rfl, fun _ => id, fun _ => ⟨rfl, rfl⟩, fun h => ?_⟩
    have hnil : c.ring = [] := by
      by_contra hne
      exact hz ⟨h, hne⟩
    rw [hnil]
    rfl

/-- **THE READER** fails, completes its head, or adds to it. -/
theorem read_cases (lim : Limits) (c : Conn) (m : Message) :
    readMessage lim c m = failConnection c ∨ Finishes lim c m (readMessage lim c m)
      ∨ (m.kind ≠ ch 'Z' ∧ c.emitted = [] ∧ readMessage lim c m = c)
      ∨ (m.kind ≠ ch 'Z' ∧ ∃ id rest o, c.emitted = id :: rest
        ∧ consumeMessage (c.ops id) m = some o
        ∧ readMessage lim c m = c.modify id fun _ => o) := by
  fun_cases readMessage lim c m with
  | case1 hemit hasync =>
    exact .inr (.inr (.inl ⟨class_ne hasync rfl, hemit, rfl⟩))
  | case2 | case3 | case5 => exact .inl rfl
  | case4 id rest hemit hz => exact .inr (.inl ⟨hz, id, rest, hemit, rfl⟩)
  | case6 id rest hemit hz o hconsume =>
    exact .inr (.inr (.inr ⟨hz, id, rest, o, hemit, hconsume, rfl⟩))

/-- The error is left out as well. -/
def Operation.core (o : Operation) : Operation := { o.shell with error := none }

/-- What the reader adds leaves the rest of the operation as it was. -/
theorem consumeMessage_core {o o' : Operation}
    (h : consumeMessage o m = some o') : o'.core = o.core := by
  revert h
  fun_cases consumeMessage o m with
  | case1 =>
    intro h
    obtain ⟨-, -, rfl⟩ := map_eq_some_iff.mp h
    rfl
  | case2 =>
    intro h
    obtain ⟨columns, -, rfl⟩ := map_eq_some_iff.mp h
    rw [Operation.core, shell_describe]
    rfl
  | case3 =>
    rintro ⟨⟩
    rw [Operation.takeRow]
    split
    · rfl
    · split <;> rfl
  | case4 | case5 | case6 =>
    rintro ⟨⟩
    rfl
  | case7 => rintro ⟨⟩

/-! ## Changed operations -/

section Modify

variable {c : Conn} {id : Nat} {f : Operation → Operation}

@[simp] theorem modify_ops_self : (c.modify id f).ops id = f (c.ops id) := if_pos rfl

theorem modify_ops_ne {i : Nat} (h : i ≠ id) : (c.modify id f).ops i = c.ops i := if_neg h

/-- A field that the change keeps is kept everywhere. -/
theorem modify_ops_field {α : Type} (field : Operation → α) (i : Nat)
    (h : ∀ o, field (f o) = field o) : field ((c.modify id f).ops i) = field (c.ops i) := by
  show field (if i = id then f (c.ops i) else c.ops i) = _
  split
  · exact h _
  · rfl

variable {o : Operation}

/-- What the reader does not add to is kept as well. -/
theorem consumed_field (h : consumeMessage (c.ops id) m = some o)
    {α : Type} (field : Operation → α) (hfield : ∀ o : Operation, field o.core = field o)
    (i : Nat) : field ((c.modify id fun _ => o).ops i) = field (c.ops i) := by
  by_cases hi : i = id
  · rw [hi, modify_ops_self, ← hfield, consumeMessage_core h, hfield]
  · rw [modify_ops_ne hi]

theorem hold_ops_self : (c.hold id o).ops id = o := if_pos rfl

theorem hold_ops_ne {i : Nat} (h : i ≠ id) : (c.hold id o).ops i = c.ops i := if_neg h

theorem tombstone_ops_self : (c.tombstone id).ops id = { c.ops id with state := .cancelled } :=
  if_pos rfl

theorem tombstone_ops_ne {i : Nat} (h : i ≠ id) : (c.tombstone id).ops i = c.ops i := if_neg h

end Modify

theorem emit_ops (c : Conn) (id i : Nat) :
    (emit c id).ops i = { c.ops i with state := if i = id then .emitted else (c.ops i).state } := by
  show (if i = id then { c.ops i with state := OpState.emitted } else c.ops i) = _
  split <;> rfl

theorem wakeFlush_eq (c : Conn) : ∃ handle, wakeFlush c = { c with flushHandle := handle } := by
  rw [wakeFlush]
  split
  · exact ⟨true, rfl⟩
  · exact ⟨c.flushHandle, rfl⟩

variable {c c' : Conn} {m : Message}

theorem Finishes.finished (h : Finishes lim c m c') :
    m.kind = ch 'Z' ∧ ∃ id rest handle, c.emitted = id :: rest
      ∧ c' = { finishOperation lim (c.popEmitted rest m) id with
          flushHandle := handle } := by
  obtain ⟨hz, id, rest, hemit, rfl⟩ := h
  obtain ⟨handle, hwake⟩ := wakeFlush_eq (finishOperation lim (c.popEmitted rest m) id)
  exact ⟨hz, id, rest, handle, hemit, hwake⟩

theorem Completes.completed (h : Completes lim c m c') :
    m.kind = ch 'Z' ∧ ∃ x xs rest handle, c.ring = x :: xs ∧ c.emitted = x.op :: rest
      ∧ c.headDirect = true ∧ (c.ops x.op).cold = false
      ∧ c' = advance { finishOperation lim
          (c.popEmitted rest m) x.op with
          flushHandle := handle } := by
  obtain ⟨⟨hz, -⟩, x, xs, rest, hring, hemit, hdir, hcold, -, -, rfl⟩ := h
  obtain ⟨handle, hwake⟩ := wakeFlush_eq (finishOperation lim (c.popEmitted rest m) x.op)
  exact ⟨hz, x, xs, rest, handle, hring, hemit, hdir, hcold, by rw [hwake]⟩

/-- A completion changes the state and the future of the operation. -/
theorem finish_eq (o : Operation) :
    ∃ future, o.finish = { o with state := .completed, future := future } := by
  rw [Operation.finish, Operation.publish]
  split
  · exact ⟨o.future, rfl⟩
  · split
    · exact ⟨_, rfl⟩
    · exact ⟨_, rfl⟩

/-! ## The invariant of the queues -/

/-- The number of `ReadyForQuery` messages. -/
def readies (ms : List Message) : Nat := ms.countP fun m => m.kind == ch 'Z'

def live (c : Conn) : Nat → Bool := fun id => (c.ops id).state == .waiting

/-- **QUEUES**: the parser's ring is the emitted operations whose answer is not in the
    reader's queue, and every operation is where its state says. -/
structure Queues (c : Conn) : Prop where
  ring : c.emitted.drop (readies c.messages) = c.ring.map Context.op
  queued : readies c.messages ≤ c.emitted.length
  log : c.log = c.finished ++ c.emitted
  served : c.served = c.finished.length + readies c.messages
  nodup : (c.log ++ c.waiting).Nodup
  below : ∀ id ∈ c.log ++ c.waiting, id < c.sequence
  waiting : ∀ id ∈ c.waiting, (c.ops id).state = .waiting ∨ (c.ops id).state = .cancelled
  emitted : ∀ id ∈ c.emitted, (c.ops id).state = .emitted
  finished : ∀ id ∈ c.finished, (c.ops id).state = .completed
  live : c.waitingLive = c.waiting.countP (live c)
  unused : ∀ id ∉ c.waiting, (c.ops id).state = .waiting → (c.ops id).future = .pending

theorem queues_fresh : Queues .fresh :=
  ⟨rfl, Nat.zero_le _, rfl, rfl, nodup_nil, nofun, nofun, nofun, nofun, rfl, fun _ _ _ => rfl⟩

section Keep

/-- What the invariant reads besides the operations, the ring and the next id. -/
def Conn.books (c : Conn) :=
  (c.emitted, c.messages, c.log, c.finished, c.served, c.waiting, c.waitingLive)

/-- What the invariant reads of the operations is their state, and the futures of those that
    were never submitted. -/
theorem Queues.congr (h : Queues c) (hst : ∀ i, (c'.ops i).state = (c.ops i).state)
    (hfut : ∀ i, (c'.ops i).future = (c.ops i).future ∨ i ∈ c.waiting ∨ i ∈ c.emitted)
    (hring : c'.ring.map Context.op = c.ring.map Context.op)
    (hsequence : c.sequence ≤ c'.sequence) (hbooks : c'.books = c.books) : Queues c' := by
  have hlive : PgDriver.live c' = PgDriver.live c :=
    funext fun i => by rw [PgDriver.live, PgDriver.live, hst]
  cases c
  cases c'
  cases hbooks
  refine ⟨h.ring.trans hring.symm, h.queued, h.log, h.served, h.nodup,
    fun id hid => lt_of_lt_of_le (h.below id hid) hsequence, fun id hid => ?_,
    fun id hid => (hst id).trans (h.emitted id hid),
    fun id hid => (hst id).trans (h.finished id hid), hlive ▸ h.live, fun id hid hwaits => ?_⟩
  · rw [hst]
    exact h.waiting id hid
  · rw [hst] at hwaits
    rcases hfut id with hsame | hmem | hmem
    · exact hsame.trans (h.unused id hid hwaits)
    · exact absurd hmem hid
    · exact nomatch hwaits.symm.trans (h.emitted id hmem)

theorem Queues.touched (h : Queues c) (htouch : Touched c c') : Queues c' := by
  have hst := htouch.field Operation.state fun _ => rfl
  have hfut := htouch.field Operation.future fun _ => rfl
  rw [htouch.rest]
  exact h.congr hst (fun i => .inl (hfut i)) htouch.ids le_rfl rfl

variable {rest : List Nat} {id : Nat}

section

variable (hid : id ∉ rest) (hops : ∀ i, i ≠ id → (c'.ops i).state = (c.ops i).state)
include hid hops

/-- The others that wait are the same. -/
theorem live_filter : rest.filter (live c') = rest.filter (live c) := by
  refine filter_congr fun i hi => ?_
  rw [live, live, hops i fun h => hid (h ▸ hi)]

/-- An operation that is not waiting is not counted. -/
theorem live_rest : rest.countP (live c') = rest.countP (live c) := by
  rw [countP_eq_length_filter, live_filter hid hops, countP_eq_length_filter]

end

section

variable (h : Queues c) (hwaiting : c.waiting = id :: rest)
include h hwaiting

theorem Queues.head_fresh : id ∉ rest ∧ id ∉ c.log ∧ (c.log ++ rest).Nodup := by
  have hnd := h.nodup
  rw [hwaiting, perm_middle.nodup_iff, nodup_cons, mem_append, not_or] at hnd
  exact ⟨hnd.1.2, hnd.1.1, hnd.2⟩

/-- The waiting queue loses its head. -/
theorem Queues.pop_waiting {count : Nat} {ops : Nat → Operation} (hst : (ops id).state ≠ .waiting)
    (hops : ∀ i, i ≠ id → ops i = c.ops i) (hlive : count = rest.countP (PgDriver.live c)) :
    Queues { c with ops := ops, waiting := rest, waitingLive := count } := by
  obtain ⟨hnotin, hnlog, hnd⟩ := h.head_fresh hwaiting
  rw [h.log, mem_append, not_or] at hnlog
  refine ⟨h.ring, h.queued, h.log, h.served, hnd, fun i hi => h.below i ?_,
    fun i hi => ?_, fun i hi => ?_, fun i hi => ?_,
    hlive.trans (live_rest hnotin fun i hi => ?_).symm, fun i hi hwaits => ?_⟩
  · rw [hwaiting]
    exact perm_middle.symm.subset (mem_cons_of_mem _ hi)
  · show (ops i).state = _ ∨ (ops i).state = _
    rw [hops i fun heq => hnotin (heq ▸ hi)]
    exact h.waiting i (hwaiting ▸ mem_cons_of_mem _ hi)
  · show (ops i).state = _
    rw [hops i fun heq => hnlog.2 (heq ▸ hi)]
    exact h.emitted i hi
  · show (ops i).state = _
    rw [hops i fun heq => hnlog.1 (heq ▸ hi)]
    exact h.finished i hi
  · show (ops i).state = _
    rw [hops i hi]
  · have heq : i ≠ id := fun heq => hst (heq ▸ hwaits)
    have hnot : i ∉ c.waiting := hwaiting ▸ not_mem_cons_of_ne_of_not_mem heq hi
    show (ops i).future = _
    rw [hops i heq]
    exact h.unused i hnot (hops i heq ▸ hwaits)

/-- The head of the waiting ones, when it is no tombstone. -/
theorem Queues.head_live (hst : (c.ops id).state ≠ .cancelled) :
    (c.ops id).state = .waiting ∧ c.waitingLive - 1 = rest.countP (PgDriver.live c) := by
  have hid : (c.ops id).state = .waiting :=
    (h.waiting id (hwaiting ▸ mem_cons_self)).resolve_right hst
  refine ⟨hid, ?_⟩
  rw [h.live, hwaiting, countP_cons_of_pos (by rw [PgDriver.live, hid]; rfl)]
  rfl

theorem Queues.emit (hst : (c.ops id).state ≠ .cancelled) :
    Queues (emit (c.popWaiting rest) id) := by
  have hpopped : Queues (Conn.modify
      (c.popWaiting rest) id fun o => { o with state := .emitted }) :=
    h.pop_waiting hwaiting (by rw [if_pos rfl]; exact nofun) (fun i hi => if_neg hi)
      (h.head_live hwaiting hst).2
  refine ⟨?_, ?_, ?_, h.served, ?_, ?_, hpopped.waiting, ?_,
    hpopped.finished, hpopped.live, hpopped.unused⟩
  · show (c.emitted ++ [id]).drop (readies c.messages) = (c.ring ++ [_]).map Context.op
    rw [drop_append_of_le_length h.queued, map_append, h.ring]
    rfl
  · show readies c.messages ≤ (c.emitted ++ [id]).length
    rw [length_append]
    exact Nat.le_add_right_of_le h.queued
  · show c.log ++ [id] = c.finished ++ (c.emitted ++ [id])
    rw [h.log, append_assoc]
  · show ((c.log ++ [id]) ++ rest).Nodup
    rw [append_assoc, singleton_append, ← hwaiting]
    exact h.nodup
  · show ∀ i ∈ (c.log ++ [id]) ++ rest, i < c.sequence
    rw [append_assoc, singleton_append, ← hwaiting]
    exact h.below
  · intro i hi
    rcases mem_append.mp hi with hi | hi
    · exact hpopped.emitted i hi
    · rw [mem_singleton.mp hi]
      show (if id = id then { c.ops id with state := OpState.emitted }
        else c.ops id).state = _
      rw [if_pos rfl]

end

theorem mem_log_of_emitted (h : Queues c) (hid : id ∈ c.emitted) :
    id ∈ c.log := h.log ▸ mem_append_right _ hid

theorem Queues.emitted_notin (h : Queues c) (hid : id ∈ c.emitted) : id ∉ c.waiting :=
  fun hwaits => (nodup_append.mp h.nodup).2.2 id (mem_log_of_emitted h hid) id hwaits rfl

theorem Queues.head_notin (h : Queues c) (hemit : c.emitted = id :: rest) : id ∉ rest := by
  have hnd := (nodup_append.mp h.nodup).1
  rw [h.log, hemit] at hnd
  exact (nodup_cons.mp (nodup_append.mp hnd).2.1).1

/-- An operation is finished: it leaves `_emitted`, and the ring with it unless its
    `ReadyForQuery` was queued. -/
theorem Queues.finish (h : Queues c) (hemit : c.emitted = id :: rest)
    (hst : (c'.ops id).state = .completed) (hops : ∀ i, i ≠ id → c'.ops i = c.ops i)
    (hrest : c'.emitted = rest ∧ c'.log = c.log
      ∧ c'.finished = c.finished ++ [id] ∧ c'.waiting = c.waiting
      ∧ c'.waitingLive = c.waitingLive ∧ c'.sequence = c.sequence)
    (hring : rest.drop (readies c'.messages) = c'.ring.map Context.op)
    (hqueued : readies c'.messages ≤ rest.length)
    (hserved : c'.served = c.finished.length + 1 + readies c'.messages) : Queues c' := by
  have hnotin := h.head_notin hemit
  have hwaiting_ne : ∀ i ∈ c.waiting, i ≠ id := by
    rintro i hi rfl
    exact h.emitted_notin (hemit ▸ mem_cons_self) hi
  have hcount : c.waiting.countP (PgDriver.live c) = c.waiting.countP (PgDriver.live c') :=
    countP_congr fun i hi => by rw [PgDriver.live, PgDriver.live, hops i (hwaiting_ne i hi)]
  cases c
  cases c'
  dsimp only at hrest hemit
  obtain ⟨rfl, rfl, rfl, rfl, rfl, rfl⟩ := hrest
  subst hemit
  refine ⟨hring, hqueued, ?_, ?_, h.nodup, h.below, fun i hi => ?_, fun i hi => ?_,
    fun i hi => ?_, h.live.trans hcount, fun i hi hwaits => ?_⟩
  · exact h.log.trans (append_cons ..)
  · rw [length_append]
    exact hserved
  · rw [hops i (hwaiting_ne i hi)]
    exact h.waiting i hi
  · rw [hops i fun heq => hnotin (heq ▸ hi)]
    exact h.emitted i (mem_cons_of_mem _ hi)
  · by_cases heq : i = id
    · rw [heq]
      exact hst
    · rw [hops i heq]
      rw [mem_append, mem_singleton] at hi
      exact h.finished i (hi.resolve_right heq)
  · have heq : i ≠ id := by
      rintro rfl
      exact nomatch hst.symm.trans hwaits
    rw [hops i heq] at hwaits ⊢
    exact h.unused i hi hwaits

theorem finishOperation_state (lim : Limits) (c : Conn) (id : Nat) :
    ((finishOperation lim c id).ops id).state = .completed := by
  obtain ⟨future, hfin⟩ := finish_eq (c.ops id)
  show ((c.modify id Operation.finish).ops id).state = _
  rw [modify_ops_self, hfin]

theorem finishOperation_ops_ne (lim : Limits) (c : Conn) {i : Nat} (h : i ≠ id) :
    (finishOperation lim c id).ops i = c.ops i := modify_ops_ne h

/-- The reader finishes the head of `_emitted`. -/
theorem Queues.finishes (h : Queues c) {ms : List Message} (hmsgs : c.messages = m :: ms)
    (hread : Finishes lim { c with messages := ms } m c') : Queues c' := by
  obtain ⟨hz, id, rest, handle, hemit, rfl⟩ := hread.finished
  have hreadies : readies c.messages = readies ms + 1 := by
    rw [hmsgs, readies, countP_cons_of_pos (by rw [hz]; rfl)]
    rfl
  have hring := h.ring
  have hqueued := h.queued
  have hserved := h.served
  rw [hreadies, show c.emitted = id :: rest from hemit] at hring hqueued
  refine h.finish hemit (finishOperation_state lim _ id)
    (fun i hi => finishOperation_ops_ne lim _ hi) ⟨rfl, rfl, rfl, rfl, rfl, rfl⟩
    hring (Nat.le_of_succ_le_succ hqueued) ?_
  show c.served = _
  show _ = c.finished.length + 1 + readies ms
  omega

/-- Where the parser completes its head, no answer is queued before it. -/
theorem Queues.completes_none (h : Queues c) {x : Context} {xs : List Context}
    (hring : c.ring = x :: xs) (hemit : c.emitted = x.op :: rest) : readies c.messages = 0 := by
  have hdrop := h.ring
  rw [hring, hemit] at hdrop
  cases hreadies : readies c.messages with
  | zero => rfl
  | succ n =>
    rw [hreadies, drop_succ_cons] at hdrop
    refine absurd (mem_of_mem_drop (i := n) ?_) (h.head_notin hemit)
    rw [hdrop]
    exact mem_cons_self

/-- The parser completes its head. -/
theorem Queues.completes (h : Queues c)
    (hcomp : Completes lim c m c') : Queues (c'.answered m) := by
  obtain ⟨hz, x, xs, rest, handle, hring, hemit, -, -, rfl⟩ := hcomp.completed
  have hnone := h.completes_none hring hemit
  have hdrop := h.ring
  have hserved := h.served
  rw [hnone, hemit, hring] at hdrop
  refine h.finish hemit (finishOperation_state lim _ x.op)
    (fun i hi => finishOperation_ops_ne lim _ hi) ⟨rfl, rfl, rfl, rfl, rfl, rfl⟩
    ?_ ?_ ?_
  · show rest.drop (readies c.messages) = (c.ring.tail).map Context.op
    rw [hnone, hring]
    exact (List.cons.inj hdrop).2
  · show readies c.messages ≤ rest.length
    rw [hnone]
    exact Nat.zero_le _
  · show (if m.kind = ch 'Z' then c.served + 1 else c.served)
      = c.finished.length + 1 + readies c.messages
    rw [if_pos hz, hserved, hnone]

theorem readies_append_one (ms : List Message) :
    readies (ms ++ [m]) = readies ms + if m.kind = ch 'Z' then 1 else 0 := by
  rw [readies, countP_append, countP_singleton, readies]
  simp only [beq_iff_eq]

section

variable (h : Queues c)
include h

/-- A message is left to the reader. -/
theorem Queues.queue (hserve : m.kind = ch 'Z' → c.ring ≠ []) :
    Queues ((queueMessage c m.kind m.payload).answered m) := by
  obtain ⟨ring, direct, hqueue, -, hother, hready⟩ := queueMessage_fields (m := m) c
  have hcount := readies_append_one (m := m) c.messages
  have hring : c.emitted.drop (readies (c.messages ++ [m])) = ring.map Context.op
      ∧ readies (c.messages ++ [m]) ≤ c.emitted.length := by
    have hdrop := h.ring
    rw [hcount]
    by_cases hz : m.kind = ch 'Z'
    · -- the operation leaves the ring, and is counted by its message
      rw [if_pos hz, hready hz, ← drop_drop, hdrop, map_tail, drop_one]
      refine ⟨rfl, ?_⟩
      by_contra hlong
      rw [drop_eq_nil_of_le (by omega)] at hdrop
      exact hserve hz (map_eq_nil_iff.mp hdrop.symm)
    · rw [if_neg hz, (hother hz).1]
      exact ⟨hdrop, h.queued⟩
  rw [hqueue]
  refine { h with ring := hring.1, queued := hring.2, served := ?_ }
  show (if m.kind = ch 'Z' then c.served + 1 else c.served)
    = c.finished.length + readies (c.messages ++ [m])
  rw [hcount, h.served]
  split <;> rfl

theorem Queues.admit (r : Request) (size : Nat) :
    Queues ((c.consult r.sql).takeCloses.hold c.sequence (newOperation c r size)) := by
  obtain ⟨hst, hfut⟩ := newOperation_state c r size
  have hbelow : ∀ i ∈ c.log ++ c.waiting, i ≠ c.sequence := fun i hi => (h.below i hi).ne
  have hlog : ∀ i ∈ c.finished ++ c.emitted, i ≠ c.sequence := fun i hi =>
    hbelow i (mem_append_left _ (h.log ▸ hi))
  refine ⟨h.ring, h.queued, h.log, h.served, ?_, ?_, fun i hi => ?_,
    fun i hi => ?_, fun i hi => ?_, ?_, fun i hi hwaits => ?_⟩
  · show (c.log ++ (c.waiting ++ [c.sequence])).Nodup
    rw [← append_assoc, nodup_append]
    refine ⟨h.nodup, nodup_singleton _, fun i hi j hj => ?_⟩
    rw [mem_singleton.mp hj]
    exact hbelow i hi
  · show ∀ i ∈ c.log ++ (c.waiting ++ [c.sequence]), i < c.sequence + 1
    intro i hi
    rw [← append_assoc] at hi
    rcases mem_append.mp hi with hi | hi
    · exact Nat.lt_succ_of_lt (h.below i hi)
    · rw [mem_singleton.mp hi]
      exact Nat.lt_succ_self _
  · rcases mem_append.mp hi with hi | hi
    · rw [hold_ops_ne (hbelow i (mem_append_right _ hi))]
      exact h.waiting i hi
    · rw [mem_singleton.mp hi, hold_ops_self]
      exact .inl hst
  · rw [hold_ops_ne (hlog i (mem_append_right _ hi))]
    exact h.emitted i hi
  · rw [hold_ops_ne (hlog i (mem_append_left _ hi))]
    exact h.finished i hi
  · show c.waitingLive + 1 = (c.waiting ++ [c.sequence]).countP _
    rw [countP_append, countP_singleton, if_pos (by
      rw [PgDriver.live, hold_ops_self, hst]; rfl), h.live]
    refine congrArg (· + 1) (countP_congr fun i hi => ?_)
    rw [PgDriver.live, PgDriver.live, hold_ops_ne (hbelow i (mem_append_right _ hi))]
    rfl
  · have hi : i ∉ c.waiting ++ [c.sequence] := hi
    rw [mem_append, mem_singleton, not_or] at hi
    rw [hold_ops_ne hi.2] at hwaits ⊢
    exact h.unused i hi.1 hwaits

theorem Queues.admission {r : Request} (hadm : Admission lim c r c') : Queues c' := by
  cases hadm with
  | refused => exact h
  | unbuilt | oversize =>
    exact h.congr (fun _ => rfl) (fun _ => .inl rfl) rfl (Nat.le_succ c.sequence) rfl
  | admitted size _ _ _ => exact h.admit r size

theorem Queues.move (hmove : Move c c') : Queues c' := by
  cases hmove with
  | flags handle blocked =>
    exact h.congr (fun _ => rfl) (fun _ => .inl rfl) rfl le_rfl rfl
  | skip id rest _ hwaiting hst =>
    refine h.pop_waiting hwaiting ?_ (fun _ _ => rfl) ?_
    · rw [hst]
      exact nofun
    · rw [h.live, hwaiting, countP_cons_of_neg]
      rw [PgDriver.live, hst]
      exact nofun
  | emit id rest _ hwaiting hst _ => exact h.emit hwaiting hst

theorem Queues.drop (hdrop : Drop c c') : Queues c' := by
  cases hdrop with
  | intro id rest _ hwaiting hst _ =>
    exact h.pop_waiting hwaiting (by rw [if_pos rfl]; exact nofun) (fun i hi => if_neg hi)
      (h.head_live hwaiting hst).2

section

variable (hst : (c.ops id).state = .waiting) (hfut : (c.ops id).future ≠ .pending)
include hst hfut

theorem Queues.mem_waiting : id ∈ c.waiting := by
  by_contra hnotin
  exact hfut (h.unused id hnotin hst)

theorem Queues.tombstone_filter : (c.waiting.filter (PgDriver.live c)).Perm
    (id :: c.waiting.filter (PgDriver.live (c.tombstone id))) := by
  obtain ⟨before, after, hsplit⟩ := append_of_mem (h.mem_waiting hst hfut)
  have hnd := (nodup_append.mp h.nodup).2.1
  rw [hsplit, perm_middle.nodup_iff, nodup_cons, mem_append, not_or] at hnd
  have hrest : ∀ l : List Nat, id ∉ l → l.filter (PgDriver.live (c.tombstone id))
      = l.filter (PgDriver.live c) :=
    fun l hl => live_filter hl fun i hi => by rw [tombstone_ops_ne hi]
  rw [hsplit, filter_append, filter_append,
    filter_cons_of_pos (by rw [PgDriver.live, hst]; rfl),
    filter_cons_of_neg (by rw [PgDriver.live, tombstone_ops_self]; exact nofun),
    hrest _ hnd.1.1, hrest _ hnd.1.2]
  exact perm_middle

/-- One more tombstone is one less that waits. -/
theorem Queues.tombstone : Queues (c.tombstone id) := by
  have hid := h.mem_waiting hst hfut
  have hlog : ∀ i ∈ c.log, i ≠ id := fun i hi =>
    (nodup_append.mp h.nodup).2.2 i hi id hid
  refine ⟨h.ring, h.queued, h.log, h.served, h.nodup, h.below, fun i hi => ?_,
    fun i hi => ?_, fun i hi => ?_, ?_, fun i hi hwaits => ?_⟩
  · by_cases heq : i = id
    · rw [heq, tombstone_ops_self]
      exact .inr rfl
    · rw [tombstone_ops_ne heq]
      exact h.waiting i hi
  · rw [tombstone_ops_ne (hlog i (h.log ▸ mem_append_right _ hi))]
    exact h.emitted i hi
  · rw [tombstone_ops_ne (hlog i (h.log ▸ mem_append_left _ hi))]
    exact h.finished i hi
  · show c.waitingLive - 1 = c.waiting.countP (PgDriver.live (c.tombstone id))
    have hlength := (h.tombstone_filter hst hfut).length_eq
    rw [length_cons, ← countP_eq_length_filter, ← countP_eq_length_filter, ← h.live] at hlength
    omega
  · by_cases heq : i = id
    · exact absurd (heq ▸ hid) hi
    · rw [tombstone_ops_ne heq] at hwaits ⊢
      exact h.unused i hi hwaits

end

end

end Keep

/-! ## One event -/

/-- What an event does to an open connection that stays open. -/
inductive Stepped (lim : Limits) (c : Conn) : Event → Conn → Prop
  | submitted (r : Request) (c₁ c' : Conn) : Admission lim c r c₁ →
      Moves c₁ c' → Stepped lim c (.submit r) c'
  | flushed (blocked : Bool) (c' : Conn) : Sweep c c' → Stepped lim c (.flush blocked) c'
  | drained (handle : Bool) : Stepped lim c .drain
      { c with flushHandle := handle, writeBlocked := false }
  | cancelled (id : Nat) : (id ∈ c.waiting ∨ id ∈ c.emitted) →
      (c.ops id).future = .pending →
      Stepped lim c (.cancel id) (c.modify id fun o => { o with future := .cancelled })
  | settled (id : Nat) : Stepped lim c (.resume id) c
  | tombstone (id : Nat) : (c.ops id).future = .cancelled →
      (c.ops id).state = .waiting →
      Stepped lim c (.resume id) (c.tombstone id)
  | discarded (id : Nat) : (c.ops id).future = .cancelled →
      (c.ops id).state = .emitted →
      Stepped lim c (.resume id) (c.modify id fun o => { o with discarded := true })
  | touched (m : Message) (c₁ : Conn) : m.kind ≠ ch 'Z' → Touched c c₁ →
      Stepped lim c (.receive m) (c₁.answered m)
  | completed (m : Message) (c₁ : Conn) : Completes lim c m c₁ →
      Stepped lim c (.receive m) (c₁.answered m)
  | queued (m : Message) (c₁ : Conn) : Touched c c₁ →
      (m.kind = ch 'Z' → c₁ = c) →
      Stepped lim c (.receive m) ((queueMessage c₁ m.kind m.payload).answered m)
  | finished (m : Message) (ms : List Message) (c' : Conn) :
      c.messages = m :: ms → Finishes lim { c with messages := ms } m c' →
      Stepped lim c .read c'
  | ignored (m : Message) (ms : List Message) : c.messages = m :: ms →
      m.kind ≠ ch 'Z' → c.emitted = [] →
      Stepped lim c .read { c with messages := ms }
  | consumed (m : Message) (ms : List Message) (id : Nat) (rest : List Nat)
      (o : Operation) : c.messages = m :: ms → m.kind ≠ ch 'Z' →
      c.emitted = id :: rest → consumeMessage (c.ops id) m = some o →
      Stepped lim c .read ({ c with messages := ms }.modify id fun _ => o)

theorem over_closed (h : c.over = true) : c.closed = true := (Bool.and_eq_true_iff.mp h).1

theorem failConnection_closed (c : Conn) : (failConnection c).closed = true := by
  rw [failConnection]
  split
  · exact over_closed ‹_›
  · rfl

/-- An event fails the connection. -/
inductive Failed (lim : Limits) (c : Conn) : Event → Conn → Prop
  | cancelled (id : Nat) : c.emitted.head? = some id → lim.backendKey = false →
      Failed lim c (.resume id) (failConnection (c.modify id fun o => { o with discarded := true }))
  | parser (m : Message) : (operations lim).act c m = none →
      Failed lim c (.receive m) (c.answered m).abort
  | order (m : Message) (c₁ : Conn) : (operations lim).act c m = some c₁ →
      c₁.closed = true → Failed lim c (.receive m) (c₁.answered m)
  | reader (m : Message) (ms : List Message) : c.messages = m :: ms →
      readMessage lim { c with messages := ms } m = failConnection { c with messages := ms } →
      Failed lim c .read (failConnection { c with messages := ms })

variable {e : Event}

/-- What no event changes about an operation, apart from its submission and the cancellation
    of its caller. -/
theorem Stepped.keeps {i : Nat} (hstep : Stepped lim c e c') {P : Operation → Prop}
    (hcore : ∀ o o' : Operation, o'.core = o.core → P o → P o')
    (hmark : ∀ o s d, P o → P { o with state := s, discarded := d })
    (hfinish : ∀ o, P o → P o.finish)
    (hcancel : e = .cancel i → ∀ o, P o → P { o with future := .cancelled })
    (hnew : ∀ r size, e = .submit r → P (newOperation c r size)) (h : P (c.ops i)) :
    P (c'.ops i) := by
  have hmodify : ∀ {d : Conn} {id : Nat} {f : Operation → Operation},
      (i = id → ∀ o, P o → P (f o)) → P (d.ops i) → P ((d.modify id f).ops i) := by
    intro d id f hf hd
    show P (if i = id then f (d.ops i) else d.ops i)
    split
    · exact hf ‹_› _ hd
    · exact hd
  have hsweep : ∀ {d d' : Conn}, Sweep d d' → P (d.ops i) → P (d'.ops i) := by
    intro d d' hsweep hd
    induction hsweep with
    | refl => exact hd
    | tail _ hlast ih =>
      rcases hlast with hmove | hdrop
      · cases hmove with
        | flags | skip => exact ih
        | emit => exact hmodify (fun _ o => hmark o .emitted o.discarded) ih
      · cases hdrop
        exact hmodify (fun _ o => hmark o .cancelled o.discarded) ih
  have htouched : ∀ d : Conn, Touched c d → P (d.ops i) := fun _ htouch =>
    hcore _ _ (congrArg (fun o : Operation => { o with error := none }) (htouch.ops i)) h
  cases hstep with
  | submitted r c₁ _ hadm hmoves =>
    refine hsweep (Relation.ReflTransGen.mono (fun _ _ => .inl) _ _ hmoves) ?_
    cases hadm with
    | refused | unbuilt | oversize => exact h
    | admitted size => exact hmodify (fun _ _ _ => hnew r size rfl) h
  | flushed _ _ hs => exact hsweep hs h
  | drained | settled | ignored => exact h
  | cancelled => exact hmodify (fun hi => hcancel (hi ▸ rfl)) h
  | tombstone => exact hmodify (fun _ o => hmark o .cancelled o.discarded) h
  | discarded => exact hmodify (fun _ o => hmark o o.state true) h
  | touched _ c₁ _ htouch => exact htouched c₁ htouch
  | queued m c₁ htouch =>
    obtain ⟨ring, direct, heq, -⟩ := queueMessage_fields c₁ (m := m)
    rw [heq]
    exact htouched c₁ htouch
  | completed _ _ hcomp =>
    obtain ⟨-, x, xs, rest, handle, -, -, -, -, rfl⟩ := hcomp.completed
    exact hmodify (fun _ => hfinish) h
  | finished _ _ _ _ hfin =>
    obtain ⟨-, id, rest, handle, -, rfl⟩ := hfin.finished
    exact hmodify (fun _ => hfinish) h
  | consumed m ms id rest o _ _ _ hconsume =>
    refine hmodify (fun hi _ _ => ?_) h
    exact hcore _ _ (consumeMessage_core hconsume) (hi ▸ h)

section

variable (hqs : Queues c) (hopen : c.closed = false) (hstep : step lim c e = some c')
include hqs hopen hstep

/-- **ONE EVENT** on an open connection. -/
theorem step_cases : Stepped lim c e c' ∨ Failed lim c e c' := by
  revert hstep
  fun_cases step lim c e with
  | case1 r =>
    rintro ⟨⟩
    -- with none that waits, all that is queued are tombstones
    have hidle : c.waitingLive = 0 → ∀ id ∈ c.waiting, (c.ops id).state = .cancelled := by
      intro hidle id hid
      refine (hqs.waiting id hid).resolve_left fun hwaits => ?_
      have hnone := hqs.live.symm.trans hidle
      rw [countP_eq_zero] at hnone
      exact hnone id hid (by rw [live, hwaits]; rfl)
    obtain ⟨c₁, hadm, hmoves⟩ := submit_moves c r hopen hidle
    exact .inl (.submitted r c₁ _ hadm hmoves)
  | case2 id h =>
    rintro ⟨⟩
    exact .inl (.cancelled id h.1 h.2)
  | case4 id hfut =>
    rw [cancelOperation]
    simp only
    split
    · rintro ⟨⟩
      exact .inl (.settled id)
    rename_i hactive
    rw [not_or, not_or] at hactive
    split
    · rename_i hst
      rintro ⟨⟩
      exact .inl (.tombstone id hfut hst)
    rename_i hst
    split
    · rename_i hhead
      rintro ⟨⟩
      exact .inr (.cancelled id hhead.1 hhead.2)
    · rintro ⟨⟩
      refine .inl (.discarded id hfut ?_)
      cases hs : (c.ops id).state with
      | waiting => exact absurd hs hst
      | emitted => rfl
      | completed => exact absurd hs hactive.1
      | cancelled => exact absurd hs hactive.2.1
  | case6 blocked =>
    rintro ⟨⟩
    exact .inl (.flushed blocked _ (flush_sweep c hopen))
  | case8 _ d hclosed =>
    have hd : d.closed = c.closed := rfl
    exact nomatch hopen.symm.trans (hd.symm.trans (over_closed hclosed))
  | case9 =>
    obtain ⟨handle, hwake⟩ := wakeFlush_eq { c with writeBlocked := false }
    rw [hwake]
    rintro ⟨⟩
    exact .inl (.drained handle)
  | case12 m _ hact =>
    rintro ⟨⟩
    exact .inr (.parser m hact)
  | case13 m _ c₁ hact =>
    rintro ⟨⟩
    rcases act_cases hact with ⟨hz, htouch⟩ | hcomp
      | ⟨c₂, htouch, hsame, hqueue⟩ | hclosed
    · exact .inl (.touched m c₁ hz htouch)
    · exact .inl (.completed m c₁ hcomp)
    · rw [hqueue]
      exact .inl (.queued m c₂ htouch hsame)
    · exact .inr (.order m c₁ hact hclosed)
  | case15 _ _ hclosed => exact nomatch hopen.symm.trans hclosed
  | case17 _ m ms hmsgs =>
    intro hstep
    have hread := some.inj hstep
    rcases read_cases lim { c with messages := ms } m with hfail | hfin
      | ⟨hz, hemit, hsame⟩ | ⟨hz, id, rest, o, hemit, hconsume, hmod⟩
    · rw [← hread, hfail]
      exact .inr (.reader m ms hmsgs hfail)
    · rw [hread] at hfin
      exact .inl (.finished m ms c' hmsgs hfin)
    · rw [← hread, hsame]
      exact .inl (.ignored m ms hmsgs hz hemit)
    · rw [← hread, hmod]
      exact .inl (.consumed m ms id rest o hmsgs hz hemit hconsume)
  | _ => rintro ⟨⟩

theorem step_stepped (hopen' : c'.closed = false) : Stepped lim c e c' := by
  refine (step_cases hqs hopen hstep).resolve_right fun hfail => ?_
  have hclosed : c'.closed = true := by
    cases hfail with
    | cancelled | reader => exact failConnection_closed _
    | parser => rfl
    | order _ _ _ hclosed => exact hclosed
  exact nomatch hopen'.symm.trans hclosed

end

theorem collect_closed (available : Nat) (ws : List Nat) (c : Conn) :
    (collect lim available ws batch taken c).1.closed = c.closed := by
  fun_induction collect lim available ws batch taken c with
  | case1 | case2 | case4 => rfl
  | case3 _ _ _ _ _ _ _ _ ih | case5 _ _ _ _ _ _ _ _ _ _ _ ih
    | case6 _ _ _ _ _ _ _ _ _ _ _ ih => exact ih

theorem flush_closed (c : Conn) : (flush lim c blocked).closed = c.closed := by
  rw [flush]
  simp only
  split
  · rfl
  split
  · rfl
  split <;> split <;> exact collect_closed ..

/-- A closed connection stays closed. -/
theorem step_closed (hclosed : c.closed = true)
    (hstep : step lim c e = some c') : c'.closed = true := by
  revert hstep
  fun_cases step lim c e with
  | case1 r =>
    rintro ⟨⟩
    fun_cases submit lim c r with
    | case4 => exact (flush_closed _).trans hclosed
    | _ => exact hclosed
  | case2 | case8 => exact fun hstep => some.inj hstep ▸ hclosed
  | case4 id =>
    rintro ⟨⟩
    rw [cancelOperation]
    simp only
    split
    · exact hclosed
    split
    · exact hclosed
    split
    · exact failConnection_closed _
    · exact hclosed
  | case6 =>
    rintro ⟨⟩
    exact (flush_closed c).trans hclosed
  | case9 =>
    obtain ⟨handle, hwake⟩ := wakeFlush_eq { c with writeBlocked := false }
    rw [hwake]
    exact fun hstep => some.inj hstep ▸ hclosed
  | case12 _ hopen | case13 _ hopen => exact absurd hclosed hopen
  | case15 => exact fun hstep => some.inj hstep ▸ failConnection_closed c
  | case17 _ m ms =>
    rintro ⟨⟩
    rcases read_cases lim { c with messages := ms } m with hfail | ⟨-, id, rest, -, hfin⟩
      | ⟨-, -, hsame⟩ | ⟨-, id, rest, o, -, -, hmod⟩
    · rw [hfail]
      exact failConnection_closed _
    · rw [hfin]
      obtain ⟨handle, hwake⟩ := wakeFlush_eq (finishOperation lim
        ({ c with messages := ms }.popEmitted rest m) id)
      rw [hwake]
      exact hclosed
    · rw [hsame]
      exact hclosed
    · rw [hmod]
      exact hclosed
  | _ => rintro ⟨⟩

theorem step_opened (hstep : step lim c e = some c') (hopen : c'.closed = false) :
    c.closed = false := by
  rw [← Bool.not_eq_true]
  intro hclosed
  exact nomatch hopen.symm.trans (step_closed hclosed hstep)

/-- The backend answers what was sent to it: apart from what may come at any time, a message
    belongs to an emitted operation. -/
def Serves (c : Conn) : Event → Prop
  | .receive m => asynchronous m.kind = true ∨ c.served < c.log.length
  | _ => True

instance (c : Conn) : ∀ e, Decidable (Serves c e)
  | .receive _ => inferInstanceAs (Decidable (_ ∨ _))
  | .submit _ | .cancel _ | .resume _ | .flush _ | .drain | .read =>
    isTrue trivial

section

variable (h : Queues c)
include h

theorem Queues.ring_of_served (hserved : c.served < c.log.length) : c.ring ≠ [] := by
  intro hring
  have hdrop := h.ring
  rw [hring, map_nil, drop_eq_nil_iff] at hdrop
  rw [h.served, h.log, length_append] at hserved
  omega

theorem answered_queues (hz : m.kind ≠ ch 'Z') : Queues (c.answered m) := by
  have hserved : (c.answered m).served = c.served := if_neg hz
  refine h.congr (fun _ => rfl) (fun _ => .inl rfl) rfl le_rfl ?_
  rw [Conn.books, hserved]
  rfl

/-- The reader takes a message that ends no answer. -/
theorem Queues.take {ms : List Message} (hmsgs : c.messages = m :: ms) (hz : m.kind ≠ ch 'Z') :
    Queues { c with messages := ms } := by
  have hreadies : readies c.messages = readies ms := by
    rw [hmsgs, readies, countP_cons_of_neg (by rw [beq_iff_eq]; exact hz)]
    rfl
  exact { h with
    ring := hreadies ▸ h.ring, queued := hreadies ▸ h.queued, served := hreadies ▸ h.served }

/-- **THE QUEUES** are kept by every event. -/
theorem Queues.stepped (hserve : Serves c e) (hstep : Stepped lim c e c') : Queues c' := by
  cases hstep with
  | submitted r c₁ _ hadm hmoves =>
    induction hmoves with
    | refl => exact h.admission hadm
    | tail _ hmove ih => exact ih.move hmove
  | flushed blocked _ hsweep =>
    induction hsweep with
    | refl => exact h
    | tail _ hlast ih => exact hlast.elim ih.move ih.drop
  | drained handle => exact h.move (.flags c handle false)
  | cancelled id hid _ =>
    refine h.congr (fun i => modify_ops_field Operation.state i fun _ => rfl) (fun i => ?_) rfl
      le_rfl rfl
    by_cases heq : i = id
    · exact .inr (heq ▸ hid)
    · exact .inl (by rw [modify_ops_ne heq])
  | settled id => exact h
  | tombstone id hfut hst =>
    exact h.tombstone hst (by rw [hfut]; exact nofun)
  | discarded id _ _ =>
    refine h.congr (fun i => modify_ops_field Operation.state i fun _ => rfl)
      (fun i => .inl ?_) rfl le_rfl rfl
    exact modify_ops_field Operation.future i fun _ => rfl
  | touched m c₁ hz htouch => exact answered_queues (h.touched htouch) hz
  | completed m c₁ hcomp => exact h.completes hcomp
  | queued m c₁ htouch hsame =>
    refine (h.touched htouch).queue fun hz => ?_
    rw [hsame hz]
    exact h.ring_of_served (hserve.resolve_left fun hasync => class_ne hasync rfl hz)
  | finished m ms _ hmsgs hfin => exact h.finishes hmsgs hfin
  | ignored m ms hmsgs hz _ => exact h.take hmsgs hz
  | consumed m ms id rest o hmsgs hz _ hconsume =>
    exact (h.take hmsgs hz).congr (consumed_field hconsume Operation.state fun _ => rfl)
      (fun i => .inl (consumed_field hconsume Operation.future (fun _ => rfl) i)) rfl
      le_rfl rfl

/-- The queues after the parser has acted and has not raised. -/
theorem Queues.acted (hserve : Serves c (.receive m)) (hact : (operations lim).act c m = some c')
    (hopen : c'.closed = false) : Queues (c'.answered m) := by
  rcases act_cases hact with ⟨hz, htouch⟩ | hcomp
    | ⟨c₁, htouch, hsame, rfl⟩ | hclosed
  · exact h.stepped hserve (.touched m c' hz htouch : Stepped lim c _ _)
  · exact h.stepped hserve (.completed m c' hcomp)
  · exact h.stepped hserve (.queued m c₁ htouch hsame : Stepped lim c _ _)
  · exact nomatch hopen.symm.trans hclosed

end

/-! ## Positions in the log -/

section Index

variable {c : Conn} {k j id : Nat}

section

variable (h : Queues c)
include h

theorem Queues.nodup_log : c.log.Nodup := (nodup_append.mp h.nodup).1

theorem Queues.log_inj (hk : c.log[k]? = some id) (hj : c.log[j]? = some id) : k = j := by
  obtain ⟨hklt, hk⟩ := List.getElem?_eq_some_iff.mp hk
  obtain ⟨hjlt, hj⟩ := List.getElem?_eq_some_iff.mp hj
  exact (h.nodup_log.getElem_inj_iff).mp (hk.trans hj.symm)

/-- The operation the backend answers is the head of the ring. -/
theorem Queues.head_log {x : Context} {xs : List Context}
    (hring : c.ring = x :: xs) : c.log[c.served]? = some x.op := by
  have hdrop := h.ring
  rw [hring, map_cons] at hdrop
  rw [h.log, h.served, getElem?_append_right (Nat.le_add_right ..),
    Nat.add_sub_cancel_left, ← add_zero (readies c.messages),
    ← getElem?_drop, hdrop]
  rfl

theorem Queues.log_finished (hk : c.finished[k]? = some id) : c.log[k]? = some id := by
  obtain ⟨hlt, -⟩ := List.getElem?_eq_some_iff.mp hk
  rw [h.log, getElem?_append_left hlt, hk]

theorem Queues.head_index {rest : List Nat} (hemit : c.emitted = id :: rest) :
    c.log[c.finished.length]? = some id := by
  rw [h.log, hemit, getElem?_append_right le_rfl, Nat.sub_self]
  rfl

theorem Queues.served_le : c.served ≤ c.log.length := by
  have := h.queued
  rw [h.served, h.log, length_append]
  omega

theorem Queues.ring_emitted {x : Context} (hx : x ∈ c.ring) : x.op ∈ c.emitted := by
  have hmem : x.op ∈ c.ring.map Context.op := mem_map_of_mem hx
  rw [← h.ring] at hmem
  exact mem_of_mem_drop hmem

end

end Index

end PgDriver
