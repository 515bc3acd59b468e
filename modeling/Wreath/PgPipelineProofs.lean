import Wreath.PgQueueProofs
import Wreath.StepSystemProofs

/-! # Pipelined answers — each caller gets its own

Answers come in the order of emission, and an operation's result is a function of its own
answer (`outcome`). The driver spreads this over the parser, which collects rows and command
tags, and the reader, which learns of errors later from a queue; `Answered` relates the two.
The parser may complete an operation itself: by the head of its own ring, while it pops the
head of `_emitted`. In `responses_reach_callers` it never gets ahead of the reader, and in
`order_lost` it does. -/

namespace PgDriver

open ByteScan PgMessage List Option StepSystem

/-! ## What an answer says -/

def ofKind (kind : UInt8) (a : List Message) : List Bytes :=
  (a.filter fun m => m.kind == kind).map Message.payload

variable (c : Conn) (a : List Message) (ms : List Message)

/-- The error of an answer. -/
def errorOf : Option Bytes := (ofKind (ch 'E') a).getLast?

/-- The command tag of an answer. -/
def tagOf : Bytes := ((ofKind (ch 'C') a).getLast?.map commandTag).getD []

def rowsOf : List Bytes := ofKind (ch 'D') a

/-- The result of an operation, from its answer. -/
def outcome (mode : Mode) (a : List Message) : Future :=
  match errorOf a with
  | some payload => .error payload
  | none => .result (match mode with
      | .execute => .command (tagOf a)
      | .fetch => .rows (rowsOf a)
      | .fetchBatch => .rows (rowsOf a)
      | .fetchrow => .row (rowsOf a).head?
      | .fetchval => .value (rowsOf a).head?)

/-- The rows an operation keeps. -/
def kept (mode : Mode) (rows : List Bytes) : List Bytes :=
  match mode with
  | .execute => []
  | .fetch | .fetchBatch => rows
  | .fetchrow | .fetchval => rows.take 1

theorem ofKind_append (kind : UInt8) (a b : List Message) :
    ofKind kind (a ++ b) = ofKind kind a ++ ofKind kind b := by
  rw [ofKind, filter_append, map_append]
  rfl

variable {m : Message} {kind : UInt8}

theorem kind_ne {k : UInt8} (h : m.kind = k) (hne : (k == kind) = false) : m.kind ≠ kind :=
  h ▸ ne_of_beq_false hne

theorem ofKind_same (h : m.kind = kind)
    (a : List Message) : ofKind kind (a ++ [m]) = ofKind kind a ++ [m.payload] := by
  rw [ofKind_append]
  refine congrArg _ ?_
  rw [ofKind, filter_singleton, h, beq_self_eq_true]
  rfl

theorem ofKind_other (h : m.kind ≠ kind)
    (a : List Message) : ofKind kind (a ++ [m]) = ofKind kind a := by
  rw [ofKind_append]
  have hnone : ofKind kind [m] = [] := by
    rw [ofKind, filter_singleton, beq_false_of_ne h]
    rfl
  rw [hnone, append_nil]

/-! ## Well-formed answers -/

/-- The result columns are known: from the plan, or from a description in the answer so far. -/
def described (o : Operation) (a : List Message) : Bool :=
  if o.cold then
    a.any fun m => m.kind == ch 'T'
      && ((rowDescription m.payload).map fun n => decide (n ≠ 0)).getD false
  else decide (o.columns ≠ 0)

/-- `m` may follow `a` in the answer to an operation. `EmptyQueryResponse` and the messages
    of `COPY` are not among the kinds the driver takes. -/
def Admits (o : Operation) (a : List Message) (m : Message) : Prop :=
  asynchronous m.kind = true ∨ quiet m.kind = true ∨ m.kind = ch '3'
    ∨ m.kind = ch 'C' ∨ m.kind = ch 'E'
    ∨ (m.kind = ch 't' ∧ o.cold = true ∧ (parameterDescription m.payload).isSome = true)
    ∨ (m.kind = ch 'T' ∧ o.cold = true ∧ (rowDescription m.payload).isSome = true ∧ rowsOf a = [])
    ∨ (m.kind = ch 'D' ∧ described o a = true)
    ∨ (m.kind = ch 'Z' ∧ m.payload.length = 1)

instance (o : Operation) (a : List Message) (m : Message) :
    Decidable (Admits o a m) := inferInstanceAs (Decidable (_ ∨ _))

/-- The backend sends a message of the answer it is giving. -/
def WellFormed (m : Message) : Prop :=
  asynchronous m.kind = true ∨ ∃ id, c.log[c.served]? = some id
      ∧ Admits (c.ops id) (c.answers c.served) m

instance (m : Message) : Decidable (WellFormed c m) :=
  match h : c.log[c.served]? with
  | none => decidable_of_iff (asynchronous m.kind = true) (by
      rw [WellFormed, h]; simp)
  | some id => decidable_of_iff (asynchronous m.kind = true
      ∨ Admits (c.ops id) (c.answers c.served) m) (by
      rw [WellFormed, h]; simp)

/-- The parser completes its head while an earlier `ReadyForQuery` waits for the reader. -/
def Overtakes (m : Message) : Prop :=
  m.kind = ch 'Z' ∧ m.payload.length = 1 ∧ c.headDirect = true
    ∧ (∃ x xs, c.ring = x :: xs ∧ (c.ops x.op).cold = false
      ∧ (c.ops x.op).discarded = false ∧ (c.ops x.op).error = none)
    ∧ readies c.messages ≠ 0

instance (m : Message) : Decidable (Overtakes c m) :=
  match h : c.ring with
  | [] => isFalse fun ⟨_, _, _, ⟨_, _, hring, _⟩, _⟩ =>
    nomatch h.symm.trans hring
  | x :: xs => decidable_of_iff (m.kind = ch 'Z' ∧ m.payload.length = 1
      ∧ c.headDirect = true ∧ ((c.ops x.op).cold = false
        ∧ (c.ops x.op).discarded = false ∧ (c.ops x.op).error = none)
      ∧ readies c.messages ≠ 0) (by
      rw [Overtakes, h]
      constructor
      · exact fun ⟨hz, hl, hd, hx, hr⟩ => ⟨hz, hl, hd, ⟨x, xs, rfl, hx⟩, hr⟩
      · rintro ⟨hz, hl, hd, ⟨y, ys, hring, hx⟩, hr⟩
        rw [(List.cons.inj hring).1]
        exact ⟨hz, hl, hd, hx, hr⟩)

/-- The condition on an event: messages are well-formed and the parser does not get ahead of the
    reader; the operation the backend works on is cancelled only where the backend gave its key. -/
def InStep (lim : Limits) (c : Conn) : Event → Prop
  | .receive m => WellFormed c m ∧ ¬ Overtakes c m
  | .resume id => lim.backendKey = true ∨ c.emitted.head? ≠ some id
  | _ => True

instance (lim : Limits) (c : Conn) : ∀ e, Decidable (InStep lim c e)
  | .receive _ => inferInstanceAs (Decidable (_ ∧ _))
  | .resume _ => inferInstanceAs (Decidable (_ ∨ _))
  | .submit _ | .cancel _ | .flush _ | .drain | .read => isTrue trivial

/-! ## What is queued for the reader -/

/-- The error the reader is going to give an operation, by the messages it has not taken yet. -/
def pendingError : List Nat → List Message → Nat → Option Bytes
  | [], _, _ => none
  | _ :: _, [], _ => none
  | e :: es, m :: ms, id =>
    if m.kind = ch 'Z' then pendingError es ms id
    else if m.kind = ch 'E' ∧ e = id then
      (pendingError (e :: es) ms id).or (some m.payload)
    else pendingError (e :: es) ms id

/-- Behind the answers of all emitted operations there is nothing but what may come at any time. -/
def Fits : List Nat → List Message → Prop
  | [], ms => ∀ m ∈ ms, asynchronous m.kind = true
  | _ :: _, [] => True
  | e :: es, m :: ms =>
    if m.kind = ch 'Z' then Fits es ms else Fits (e :: es) ms

theorem pendingError_notin {es : List Nat} {id : Nat} (hid : id ∉ es) :
    pendingError es ms id = none := by
  fun_induction pendingError es ms id with
  | case1 | case2 => rfl
  | case3 _ _ _ _ _ _ ih => exact ih (not_mem_of_not_mem_cons hid)
  | case4 _ _ _ _ _ _ he => exact absurd (he.2 ▸ mem_cons_self) hid
  | case5 _ _ _ _ _ _ _ ih => exact ih hid

theorem readies_cons : readies (m :: ms) = (if m.kind = ch 'Z' then 1 else 0) + readies ms := by
  rw [readies, countP_cons, readies, add_comm]
  simp only [beq_iff_eq]

variable {es : List Nat}

/-- A message behind the others reaches the operation whose answer it belongs to. -/
theorem pendingError_append (id : Nat) :
    pendingError es (ms ++ [m]) id = if m.kind = ch 'E' ∧ es[readies ms]? = some id
      then some m.payload else pendingError es ms id := by
  fun_induction pendingError es ms id with
  | case1 ms => simp [pendingError.eq_def]
  | case2 e es id =>
    have hnone : pendingError es [] id = none := by cases es <;> rfl
    by_cases hz : m.kind = ch 'Z'
    · simp [pendingError, hz, hnone, show ch 'Z' ≠ ch 'E' by decide]
    · simp [pendingError, hz, readies]
  | case3 e es x ms id hz ih =>
    rw [cons_append, pendingError, if_pos hz, ih, readies_cons, if_pos hz, add_comm,
      getElem?_cons_succ]
  | case4 e es x ms id hz he ih =>
    rw [cons_append, pendingError, if_neg hz, if_pos he, ih, readies_cons, if_neg hz, zero_add]
    split <;> rfl
  | case5 e es x ms id hz he ih =>
    rw [cons_append, pendingError, if_neg hz, if_neg he, ih, readies_cons, if_neg hz, zero_add]

theorem pendingError_asynchronous (id : Nat)
    (hasync : ∀ m ∈ ms, asynchronous m.kind = true) : pendingError es ms id = none := by
  fun_induction pendingError es ms id with
  | case1 | case2 => rfl
  | case3 _ _ _ _ _ hz => exact absurd hz (class_ne (hasync _ mem_cons_self) rfl)
  | case4 _ _ _ _ _ _ he => exact absurd he.1 (class_ne (hasync _ mem_cons_self) rfl)
  | case5 _ _ _ _ _ _ _ ih => exact ih fun x hx => hasync x (mem_cons_of_mem _ hx)

/-- More operations behind the emitted ones change nothing. -/
theorem pendingError_emit (new id : Nat)
    (hfits : Fits es ms) : pendingError (es ++ [new]) ms id = pendingError es ms id := by
  fun_induction Fits es ms with
  | case1 ms =>
    rw [nil_append, pendingError_asynchronous ms id hfits, pendingError.eq_1]
  | case2 => rfl
  | case3 e es m ms hz ih =>
    rw [cons_append, pendingError, pendingError, if_pos hz, if_pos hz, ih hfits]
  | case4 e es m ms hz ih =>
    rw [cons_append] at ih ⊢
    rw [pendingError, pendingError, if_neg hz, if_neg hz, ih hfits]

theorem fits_nil : Fits es [] := by
  cases es with
  | nil => exact nofun
  | cons e es => exact trivial

theorem fits_asynchronous (es : List Nat)
    (hasync : ∀ m ∈ ms, asynchronous m.kind = true) : Fits es ms := by
  fun_induction Fits es ms with
  | case1 => exact hasync
  | case2 => trivial
  | case3 _ _ _ _ _ ih | case4 _ _ _ _ _ ih => exact ih fun x hx => hasync x (mem_cons_of_mem _ hx)

theorem Fits.emit {ms : List Message} (new : Nat) (h : Fits es ms) : Fits (es ++ [new]) ms := by
  fun_induction Fits es ms with
  | case1 ms => exact fits_asynchronous ms [new] h
  | case2 => trivial
  | case3 e es m ms hz ih =>
    rw [cons_append, Fits, if_pos hz]
    exact ih h
  | case4 e es m ms hz ih =>
    rw [cons_append, Fits, if_neg hz]
    exact ih h

/-- A message that an emitted operation is owed, or one that may come at any time, may be queued. -/
theorem Fits.queue {ms : List Message} (hm : asynchronous m.kind = true ∨ readies ms < es.length)
    (h : Fits es ms) : Fits es (ms ++ [m]) := by
  fun_induction Fits es ms with
  | case1 ms =>
    rw [Fits, forall_mem_append, forall_mem_singleton]
    exact ⟨h, hm.resolve_right (Nat.not_lt_zero _)⟩
  | case2 e es =>
    rw [nil_append, Fits]
    split
    · exact fits_nil
    · trivial
  | case3 e es x ms hz ih =>
    rw [readies_cons, if_pos hz, length_cons] at hm
    rw [cons_append, Fits, if_pos hz]
    exact ih (hm.imp_right fun h => by omega) h
  | case4 e es x ms hz ih =>
    rw [readies_cons, if_neg hz, zero_add] at hm
    rw [cons_append, Fits, if_neg hz]
    exact ih hm h

/-! ## What an operation has collected -/

/-- The operation against its answer so far, with the error that is queued for it. -/
structure Filled (o : Operation) (a : List Message) (queued : Option Bytes) : Prop where
  command : o.command = tagOf a
  error : errorOf a = queued.or o.error
  rows : o.future = .pending → o.rows = kept o.mode (rowsOf a)

/-- The parser's context against the operation. -/
structure Attached (o : Operation) (x : Context) (a : List Message) : Prop where
  tape : x.tape = described o a
  discarded : x.discarded = true → o.discarded = true

/-- An operation no message was received for. -/
structure Untouched (o : Operation) : Prop where
  command : o.command = []
  error : o.error = none
  rows : o.rows = []
  tape : o.tape = (!o.cold && decide (o.columns ≠ 0))

/-- Only messages that may come at any time. -/
def Silent : Prop := ∀ m ∈ a, asynchronous m.kind = true

variable {a : List Message}

theorem Silent.ofKind (h : Silent a) (hkind : asynchronous kind = false) : ofKind kind a = [] := by
  rw [PgDriver.ofKind, filter_eq_nil_iff.mpr, map_nil]
  intro m hm
  rw [beq_iff_eq]
  exact class_ne (h m hm) hkind

theorem kept_nil (mode : Mode) : kept mode [] = [] := by cases mode <;> rfl

variable {o : Operation}

theorem Untouched.filled (h : Untouched o) (ha : Silent a) : Filled o a none := by
  refine ⟨?_, ?_, fun _ => ?_⟩
  · rw [h.command, tagOf, ha.ofKind rfl]
    rfl
  · rw [h.error, errorOf, ha.ofKind rfl]
    rfl
  · rw [h.rows, rowsOf, ha.ofKind rfl, kept_nil]

theorem Untouched.attached (h : Untouched o) (ha : Silent a) (id : Nat) :
    Attached o ⟨id, o.tape, false, false⟩ a := by
  refine ⟨?_, nofun⟩
  rw [h.tape, described]
  split
  · rename_i hcold
    rw [hcold, any_eq_false.mpr]
    · rfl
    · intro m hm
      rw [Bool.and_eq_true, beq_iff_eq]
      exact fun hT => class_ne (ha m hm) rfl hT.1
  · rename_i hcold
    rw [Bool.eq_false_iff.mpr hcold]
    rfl

variable {queued : Option Bytes}

/-- A message that says nothing of an operation's result. -/
theorem Filled.append (h : Filled o a queued) (hC : m.kind ≠ ch 'C') (hE : m.kind ≠ ch 'E')
    (hD : m.kind ≠ ch 'D') : Filled o (a ++ [m]) queued := by
  constructor
  · rw [tagOf, ofKind_other hC]
    exact h.command
  · rw [errorOf, ofKind_other hE]
    exact h.error
  · rw [rowsOf, ofKind_other hD]
    exact h.rows

theorem described_append (hT : m.kind ≠ ch 'T') : described o (a ++ [m]) = described o a := by
  rw [described, described, any_append, any_cons, beq_false_of_ne hT]
  simp

variable {x : Context}

theorem Attached.append (h : Attached o x a) (hT : m.kind ≠ ch 'T') : Attached o x (a ++ [m]) :=
  ⟨h.tape.trans (described_append hT).symm, h.discarded⟩

theorem kept_more {mode : Mode} {rows : List Bytes} (row : Bytes)
    (hmode : mode = .fetchrow ∨ mode = .fetchval) (hrows : rows ≠ []) :
    kept mode (rows ++ [row]) = kept mode rows := by
  obtain ⟨r, rs, rfl⟩ := exists_cons_of_ne_nil hrows
  rcases hmode with rfl | rfl <;> rfl

theorem kept_first {mode : Mode} {rows : List Bytes} (row : Bytes) (hexecute : mode ≠ .execute)
    (hmode : ¬ ((mode = .fetchrow ∨ mode = .fetchval) ∧ kept mode rows ≠ [])) :
    kept mode (rows ++ [row]) = kept mode rows ++ [row] := by
  cases mode with
  | execute => exact absurd rfl hexecute
  | fetch | fetchBatch => rfl
  | fetchrow | fetchval =>
    cases rows with
    | nil => rfl
    | cons r rs => exact absurd ⟨by simp, nofun⟩ hmode

/-- A row, by the parser's choice. -/
theorem Filled.row (h : Filled o a queued) (hx : Attached o x a)
    (hdiscarded : o.discarded = true → o.future = .cancelled)
    (hD : m.kind = ch 'D') (hdesc : described o a = true) :
    (rowChoice (x.sample o) o = .drop ∧ Filled o (a ++ [m]) queued)
      ∨ (rowChoice (x.sample o) o = .decode
        ∧ Filled { o with rows := o.rows ++ [m.payload] } (a ++ [m]) queued) := by
  have hcommand : o.command = tagOf (a ++ [m]) := by
    rw [tagOf, ofKind_other (kind_ne hD rfl)]
    exact h.command
  have herror : errorOf (a ++ [m]) = queued.or o.error := by
    rw [errorOf, ofKind_other (kind_ne hD rfl)]
    exact h.error
  have hrows : rowsOf (a ++ [m]) = rowsOf a ++ [m.payload] := ofKind_same hD a
  have htape : (x.sample o).tape = true := by
    rw [Context.sample]
    split <;> exact hx.tape.trans hdesc
  have hsampled : (x.sample o).discarded = true → o.future = .cancelled := by
    rw [Context.sample]
    split
    · exact fun h => hdiscarded (hx.discarded h)
    · exact hdiscarded
  rw [rowChoice]
  by_cases hdrop : (x.sample o).discarded = true
  · rw [if_pos hdrop]
    refine .inl ⟨rfl, hcommand, herror, fun hpend => ?_⟩
    cases hpend.symm.trans (hsampled hdrop)
  rw [if_neg hdrop, htape, if_neg (by rintro ⟨⟩)]
  by_cases hexecute : o.mode = .execute
  · rw [if_pos hexecute]
    refine .inl ⟨rfl, hcommand, herror, fun hpend => ?_⟩
    rw [h.rows hpend, hexecute]
    rfl
  rw [if_neg hexecute]
  by_cases hfirst : (o.mode = .fetchrow ∨ o.mode = .fetchval) ∧ o.rows ≠ []
  · rw [if_pos hfirst]
    refine .inl ⟨rfl, hcommand, herror, fun hpend => ?_⟩
    have hkept := h.rows hpend
    have hnonempty : rowsOf a ≠ [] := by
      intro hnil
      rw [hnil, kept_nil] at hkept
      exact hfirst.2 hkept
    rw [hkept, hrows, kept_more m.payload hfirst.1 hnonempty]
  · rw [if_neg hfirst]
    refine .inr ⟨rfl, hcommand, herror, fun hpend => ?_⟩
    have hkept : o.rows = kept o.mode (rowsOf a) := h.rows hpend
    rw [hkept] at hfirst
    rw [hrows, kept_first m.payload hexecute hfirst, hkept]

/-! ## What the parser collects -/

/-- The head of the ring with another operation and context. -/
def Conn.atHead (id : Nat) (o : Operation) (ring : List Context) : Conn :=
  { c.modify id fun _ => o with ring := ring }

theorem modify_const (id : Nat) (f : Operation → Operation) :
    c.modify id f = c.modify id fun _ => f (c.ops id) := by
  rw [Conn.modify, Conn.modify]
  congr 1
  funext i
  split
  · rename_i h
    rw [h]
  · rfl

variable {c : Conn} {xs : List Context}

theorem atHead_self (hring : c.ring = x :: xs) : c.atHead x.op (c.ops x.op) (x :: xs) = c := by
  have hsame : c.modify x.op (fun _ => c.ops x.op) = c := by
    rw [← modify_const c x.op fun o => o, Conn.modify]
    congr 1
    funext i
    split <;> rfl
  rw [Conn.atHead, hsame, ← hring]

theorem atHead_modify (hring : c.ring = x :: xs) (f : Operation → Operation) :
    c.modify x.op f = c.atHead x.op (f (c.ops x.op)) (x :: xs) := by
  rw [modify_const, Conn.atHead, ← hring]
  rfl

theorem Filled.described (h : Filled o a queued) (hT : m.kind = ch 'T') (hnone : rowsOf a = [])
    (columns : Nat) : Filled (o.describe columns) (a ++ [m]) queued := by
  have happ := h.append (m := m) (kind_ne hT rfl) (kind_ne hT rfl) (kind_ne hT rfl)
  rw [Operation.describe]
  split
  · exact { happ with }
  refine ⟨happ.command, happ.error, fun hpend => ?_⟩
  have hrows : rowsOf (a ++ [m]) = [] := by
    rw [rowsOf, ofKind_other (kind_ne hT rfl)]
    exact hnone
  have hkept : o.rows = [] := by
    rw [happ.rows hpend, hrows, kept_nil]
  rw [hkept, ite_self, hrows]
  exact (kept_nil _).symm

/-- The parser takes the message into the operation at its head, which then stands for the
    longer answer. -/
def Collects (lim : Limits) (c : Conn) (x : Context) (xs : List Context)
    (a : List Message) (queued : Option Bytes) (m : Message) : Prop :=
  ∃ o x', (operations lim).act c m = some (c.atHead x.op o (x' :: xs))
    ∧ x'.op = x.op ∧ o.shell = (c.ops x.op).shell
    ∧ Filled o (a ++ [m]) queued ∧ Attached o x' (a ++ [m])

section Collect

variable {lim : Limits} {c : Conn} {x : Context} {xs : List Context}
  {a : List Message} {queued : Option Bytes} {m : Message}
  (hring : c.ring = x :: xs) (hfilled : Filled (c.ops x.op) a queued)
  (hattached : Attached (c.ops x.op) x a)

include hring hfilled hattached

theorem collects_quiet (hquiet : quiet m.kind = true) : Collects lim c x xs a queued m := by
  have hne : ∀ kind, quiet kind = false → m.kind ≠ kind := by
    rintro kind hkind rfl
    exact nomatch hquiet.symm.trans hkind
  refine ⟨c.ops x.op, x, ?_, rfl, rfl,
    hfilled.append (hne _ (by decide)) (hne _ (by decide)) (hne _ (by decide)),
    hattached.append (hne _ (by decide))⟩
  rw [Operations.act, if_pos hquiet, atHead_self hring]

theorem collects_command (hC : m.kind = ch 'C') : Collects lim c x xs a queued m := by
  have happ := hattached.append (m := m) (kind_ne hC rfl)
  refine ⟨{ c.ops x.op with command := commandTag m.payload }, x, ?_, rfl,
    rfl, ⟨?_, ?_, ?_⟩, happ.tape, happ.discarded⟩
  · have hbusy : (operations lim).busy c = true := by
      show (!c.ring.isEmpty) = true
      rw [hring]
      rfl
    rw [Operations.act, if_neg (by rw [hC]; decide),
      if_neg (by rw [hC, show isDescription (ch 'C') = false by decide]; simp),
      if_pos (by rw [hC, hbusy]; decide)]
    show some (c.modifyHead _) = _
    rw [Conn.modifyHead, hring]
    simp only
    rw [atHead_modify hring]
  · rw [tagOf, ofKind_same hC, getLast?_concat]
    rfl
  · rw [errorOf, ofKind_other (kind_ne hC rfl)]
    exact hfilled.error
  · rw [rowsOf, ofKind_other (kind_ne hC rfl)]
    exact hfilled.rows

omit hfilled hattached in
/-- A description for a cold operation is installed by the parser. -/
theorem act_description (hdesc : isDescription m.kind = true)
    (hcold : (c.ops x.op).cold = true) : (operations lim).act c m = install c m.kind m.payload := by
  have hquiet : quiet m.kind = false := by
    rw [isDescription, Bool.or_eq_true, beq_iff_eq, beq_iff_eq] at hdesc
    rcases hdesc with h | h <;> rw [h] <;> decide
  have htests : ((operations lim).busy c && (operations lim).describes c) = true := by
    simp only [operations, hring]
    exact hcold
  rw [Operations.act, hquiet, if_neg (by rintro ⟨⟩), Bool.and_assoc, hdesc, htests]
  exact if_pos rfl

/-- The parameter types are not kept here. -/
theorem collects_parameters (ht : m.kind = ch 't') (hcold : (c.ops x.op).cold = true)
    (hparse : (parameterDescription m.payload).isSome = true) : Collects lim c x xs a queued m := by
  refine ⟨c.ops x.op, x, ?_, rfl, rfl, hfilled.append (kind_ne ht rfl)
    (kind_ne ht rfl) (kind_ne ht rfl),
    hattached.append (kind_ne ht rfl)⟩
  obtain ⟨n, hn⟩ := isSome_iff_exists.mp hparse
  rw [act_description hring (by rw [ht]; decide) hcold, install, hring]
  simp only
  rw [if_pos ht, hn, atHead_self hring]
  rfl

theorem collects_description (hT : m.kind = ch 'T') (hcold : (c.ops x.op).cold = true)
    (hparse : (rowDescription m.payload).isSome = true)
    (hnone : rowsOf a = []) : Collects lim c x xs a queued m := by
  obtain ⟨n, hn⟩ := isSome_iff_exists.mp hparse
  have hshell := shell_describe (c.ops x.op) n
  refine ⟨(c.ops x.op).describe n, { x with tape := x.tape || decide (n ≠ 0) },
    ?_, rfl, hshell, hfilled.described hT hnone n, ?_, fun hx => ?_⟩
  · rw [act_description hring (by rw [hT]; decide) hcold, install, hring]
    simp only
    rw [if_neg (kind_ne hT rfl), hn]
    simp only [map_some]
    rw [modify_const]
    rfl
  · have hsame : ((c.ops x.op).describe n).cold = true := by
      rw [← hcold]
      exact (congrArg Operation.cold hshell :
        ((c.ops x.op).describe n).shell.cold = (c.ops x.op).shell.cold)
    have htape := hattached.tape
    rw [described, if_pos hcold] at htape
    rw [described, if_pos hsame, any_append, htape, any_cons, hT, hn, any_nil, Bool.or_false]
    rfl
  · have hsame : ((c.ops x.op).describe n).shell.discarded
        = (c.ops x.op).shell.discarded := by rw [hshell]
    exact hsame.trans (hattached.discarded hx)

omit hfilled hattached in
theorem act_row (hD : m.kind = ch 'D') : (operations lim).act c m
      = match (rowChoice (x.sample (c.ops x.op)) (c.ops x.op),
          ({ c with ring := x.sample (c.ops x.op) :: xs } : Conn)) with
        | (.drop, o) => some o
        | (.decode, o) => (operations lim).row o m.payload
        | (.python, o) => (operations lim).queue o m.kind m.payload := by
  have huse : (operations lim).rowUse c = (rowChoice (x.sample (c.ops x.op)) (c.ops x.op),
        { c with ring := x.sample (c.ops x.op) :: xs }) := by
    show rowUse c = _
    rw [rowUse, hring]
  rw [Operations.act, if_neg (by rw [hD]; decide),
    if_neg (by rw [hD, show isDescription (ch 'D') = false by decide]; simp),
    if_neg (by rw [hD, show (ch 'D' == ch 'C') = false by decide]; rintro ⟨⟩),
    if_pos (by rw [hD]; rfl), huse]
  cases rowChoice (x.sample (c.ops x.op)) (c.ops x.op) <;> rfl

section

variable (hdiscarded : (c.ops x.op).discarded = true → (c.ops x.op).future = .cancelled)
include hdiscarded

theorem collects_row (hD : m.kind = ch 'D') (hdesc : described (c.ops x.op) a = true) :
    Collects lim c x xs a queued m := by
  have happ := hattached.append (m := m) (kind_ne hD rfl)
  have hsampled : Attached (c.ops x.op) (x.sample (c.ops x.op)) (a ++ [m]) := by
    rw [Context.sample]
    split
    · exact happ
    · exact ⟨happ.tape, id⟩
  have hact : (operations lim).act c m = _ := act_row hring hD
  rcases hfilled.row hattached hdiscarded hD hdesc with ⟨hchoice, hrow⟩ | ⟨hchoice, hrow⟩
  · refine ⟨c.ops x.op, x.sample (c.ops x.op), ?_, x.sample_op _, rfl, hrow, hsampled⟩
    have hself := atHead_self hring
    rw [Conn.atHead, ← hring] at hself
    have hsame : c.modify x.op (fun _ => c.ops x.op) = c := hself
    rw [hact, hchoice, Conn.atHead, hsame]
  · refine ⟨{ c.ops x.op with rows := (c.ops x.op).rows ++ [m.payload] },
      x.sample (c.ops x.op), ?_, x.sample_op _, rfl, hrow,
      ⟨hsampled.tape, hsampled.discarded⟩⟩
    rw [hact, hchoice]
    show some (Conn.modifyHead _ _) = _
    rw [Conn.modifyHead]
    simp only
    rw [modify_const, Context.sample_op]
    rfl

/-- **THE PARSER COLLECTS** what the answer says, apart from the errors and the end of an answer. -/
theorem act_collects (hadmits : Admits (c.ops x.op) a m) (hasync : asynchronous m.kind = false)
    (h3 : m.kind ≠ ch '3') (hE : m.kind ≠ ch 'E') (hZ : m.kind ≠ ch 'Z') :
    Collects lim c x xs a queued m := by
  rcases hadmits with h | hquiet | h | hC | h | ⟨ht, hcold, hparse⟩
    | ⟨hT, hcold, hparse, hnone⟩ | ⟨hD, hdesc⟩ | ⟨h, -⟩
  · exact nomatch hasync.symm.trans h
  · exact collects_quiet hring hfilled hattached hquiet
  · exact absurd h h3
  · exact collects_command hring hfilled hattached hC
  · exact absurd h hE
  · exact collects_parameters hring hfilled hattached ht hcold hparse
  · exact collects_description hring hfilled hattached hT hcold hparse hnone
  · exact collects_row hring hfilled hattached hdiscarded hD hdesc
  · exact absurd h hZ

end

end Collect

/-! ## The invariant -/

/-- What the parser leaves to the reader of a well-formed answer. -/
def ForReader (m : Message) : Prop :=
  asynchronous m.kind = true ∨ m.kind = ch '3' ∨ m.kind = ch 'E'
    ∨ (m.kind = ch 'Z' ∧ m.payload.length = 1)

theorem ForReader.ne (hm : ForReader m)
    (h : asynchronous kind = false ∧ kind ≠ ch '3' ∧ kind ≠ ch 'E' ∧ kind ≠ ch 'Z' := by decide) :
    m.kind ≠ kind := by
  rintro rfl
  rcases hm with hasync | h3 | hE | hZ
  · exact nomatch h.1.symm.trans hasync
  · exact h.2.1 h3
  · exact h.2.2.1 hE
  · exact h.2.2.2 hZ.1

/-- **ANSWERED**: operations have collected what their answers say, apart from what is
    queued for them, and completed ones have their results. -/
structure Answered (c : Conn) : Prop where
  queues : Queues c
  opened : c.closed = false
  kinds : ∀ m ∈ c.messages, ForReader m
  fits : Fits c.emitted c.messages
  later : ∀ k, c.served < k → c.answers k = []
  silent : c.log.length ≤ c.served → Silent (c.answers c.served)
  direct : c.headDirect = true → ∀ post, post <:+ c.messages → readies post = 0 → Silent post
  emitted : ∀ (k id : Nat), c.log[k]? = some id → c.finished.length ≤ k →
    Filled (c.ops id) (c.answers k) (pendingError c.emitted c.messages id)
  attached : ∀ x ∈ c.ring, ∀ k : Nat, c.log[k]? = some x.op → Attached (c.ops x.op) x (c.answers k)
  waiting : ∀ id ∈ c.waiting, Untouched (c.ops id)
  discarded : ∀ id, (c.ops id).discarded = true → (c.ops id).future = .cancelled
  finished : ∀ (k id : Nat), c.finished[k]? = some id → (c.ops id).future = .cancelled
      ∨ (c.ops id).future = outcome (c.ops id).mode (c.answers k)
  unfinished : ∀ id ∉ c.finished, (c.ops id).future = .pending ∨ (c.ops id).future = .cancelled

theorem answered_fresh : Answered .fresh where
  queues := queues_fresh
  opened := rfl
  kinds := nofun
  fits := nofun
  later _ _ := rfl
  silent _ := nofun
  direct _ post hpost _ := by
    rw [suffix_nil.mp hpost]
    exact nofun
  emitted _ _ h := nomatch h
  attached := nofun
  waiting := nofun
  discarded _ h := nomatch h
  finished _ _ h := nomatch h
  unfinished _ _ := .inl rfl

theorem Answered.silent_from (h : Answered c) {k : Nat}
    (hk : c.log.length ≤ k) : Silent (c.answers k) := by
  rcases lt_or_ge c.served k with hlt | hge
  · rw [h.later k hlt]
    exact nofun
  · have := h.queues.served_le
    obtain rfl : c.served = k := by omega
    exact h.silent hk

/-! ## Small changes keep it -/

/-- The operation has collected the same, and its future is no younger. -/
structure Kept (o o' : Operation) : Prop where
  same : o' = { o with state := o'.state, future := o'.future, discarded := o'.discarded }
  discarded : o.discarded = true → o'.discarded = true
  future : o'.future = .pending → o.future = .pending

theorem Kept.rfl : Kept o o := ⟨.refl _, id, id⟩

variable {o' : Operation}

theorem Filled.kept (h : Filled o a queued) (hkept : Kept o o') : Filled o' a queued := by
  rw [hkept.same]
  exact ⟨h.command, h.error, fun hf => h.rows (hkept.future hf)⟩

theorem Attached.kept (h : Attached o x a) (hkept : Kept o o') : Attached o' x a := by
  refine ⟨?_, fun hx => hkept.discarded (h.discarded hx)⟩
  rw [hkept.same]
  exact h.tape

theorem Untouched.kept (h : Untouched o) (hkept : Kept o o') : Untouched o' := by
  rw [hkept.same]
  exact { h with }

theorem Kept.mode (h : Kept o o') : o'.mode = o.mode := by
  rw [h.same]

/-- What the invariant reads besides the operations and the waiting ones. -/
def Conn.traffic (c : Conn) :=
  (c.closed, c.emitted, c.messages, c.log, c.finished, c.served, c.answers, c.ring, c.headDirect)

variable {c' : Conn}

/-- The frame of the invariant. -/
theorem Answered.frame (h : Answered c) (hqs : Queues c')
    (hkept : ∀ i, Kept (c.ops i) (c'.ops i)) (htraffic : c'.traffic = c.traffic)
    (hwait : ∀ id ∈ c'.waiting, id ∈ c.waiting)
    (hdiscarded : ∀ i, (c'.ops i).discarded = true → (c'.ops i).future = .cancelled)
    (hfut : ∀ i, (c'.ops i).future = (c.ops i).future
      ∨ (i ∉ c.finished ∧ (c'.ops i).future = .cancelled)) : Answered c' := by
  cases c
  cases c'
  cases htraffic
  refine ⟨hqs, h.opened, h.kinds, h.fits, h.later, h.silent, h.direct,
    fun k id hk hle => (h.emitted k id hk hle).kept (hkept id),
    fun x hx k hk => (h.attached x hx k hk).kept (hkept x.op),
    fun id hid => (h.waiting id (hwait id hid)).kept (hkept id), hdiscarded,
    fun k id hk => ?_, fun id hid => ?_⟩
  · rw [(hkept id).mode]
    rcases hfut id with hsame | ⟨hnot, -⟩
    · rw [hsame]
      exact h.finished k id hk
    · exact absurd (mem_of_getElem? hk) hnot
  · rcases hfut id with hsame | ⟨-, hcanc⟩
    · rw [hsame]
      exact h.unfinished id hid
    · exact .inr hcanc

theorem newOperation_untouched (c : Conn) (r : Request) (size : Nat) :
    Untouched (newOperation c r size) ∧ (newOperation c r size).discarded = false := by
  rw [newOperation, Operation.withCloses, Operation.new.eq_def]
  split <;> exact ⟨⟨rfl, rfl, rfl, rfl⟩, rfl⟩

theorem Answered.admit (h : Answered c) (r : Request) (size : Nat) :
    Answered ((c.consult r.sql).takeCloses.hold c.sequence (newOperation c r size)) := by
  have hqs := h.queues.admit r size
  have hlog : ∀ (k id : Nat), c.log[k]? = some id → id ≠ c.sequence :=
    fun k id hk => (h.queues.below id (mem_append_left _ (mem_of_getElem? hk))).ne
  obtain ⟨huntouched, hkeep⟩ := newOperation_untouched c r size
  refine ⟨hqs, h.opened, h.kinds, h.fits, h.later, h.silent, h.direct,
    fun k id hk hle => ?_, fun x hx k hk => ?_, fun id hid => ?_,
    fun id hid => ?_, fun k id hk => ?_, fun id hid => ?_⟩
  · rw [hold_ops_ne (hlog k id hk)]
    exact h.emitted k id hk hle
  · rw [hold_ops_ne (hlog k x.op hk)]
    exact h.attached x hx k hk
  · rcases mem_append.mp hid with hid | hid
    · rw [hold_ops_ne (h.queues.below id (mem_append_right _ hid)).ne]
      exact h.waiting id hid
    · rw [mem_singleton.mp hid, hold_ops_self]
      exact huntouched
  · by_cases heq : id = c.sequence
    · rw [heq, hold_ops_self] at hid
      exact nomatch hkeep.symm.trans hid
    · rw [hold_ops_ne heq] at hid ⊢
      exact h.discarded id hid
  · rw [hold_ops_ne (hlog k id (h.queues.log_finished hk))]
    exact h.finished k id hk
  · by_cases heq : id = c.sequence
    · rw [heq, hold_ops_self]
      exact .inl (newOperation_state c r size).2
    · rw [hold_ops_ne heq]
      exact h.unfinished id hid

/-- With every answer queued, only what may come at any time is behind them. -/
theorem Fits.trailing {ms : List Message} (h : Fits es ms) (hcount : readies ms = es.length)
    {post : List Message} (hpost : post <:+ ms) (hnone : readies post = 0) : Silent post := by
  fun_induction Fits es ms with
  | case1 => exact fun x hx => h x (hpost.subset hx)
  | case2 => cases hcount
  | case3 e es m ms hz ih | case4 e es m ms hz ih =>
    rcases suffix_cons_iff.mp hpost with rfl | hpost
    · rw [hnone, length_cons] at hcount
      omega
    · rw [readies_cons, length_cons] at hcount
      exact ih h (by simp only [hz, ↓reduceIte, length_cons] at hcount ⊢; omega) hpost
variable {rest : List Nat} {id : Nat}

theorem snoc_at {l : List Nat} {k i : Nat} (h : (l ++ [id])[k]? = some i) :
    l[k]? = some i ∧ k < l.length ∨ k = l.length ∧ id = i := by
  rcases lt_trichotomy k l.length with hlt | rfl | hgt
  · rw [getElem?_append_left hlt] at h
    exact .inl ⟨h, hlt⟩
  · rw [getElem?_concat_length] at h
    exact .inr ⟨rfl, some.inj h⟩
  · rw [getElem?_eq_none (by rw [length_append]; exact hgt)] at h
    cases h

theorem Answered.emit (h : Answered c) (hwait : c.waiting = id :: rest)
    (hst : (c.ops id).state ≠ .cancelled) : Answered (PgDriver.emit (c.popWaiting rest) id) := by
  have hqs := h.queues.emit hwait hst
  obtain ⟨-, hnlog, -⟩ := h.queues.head_fresh hwait
  have huntouched := h.waiting id (hwait ▸ mem_cons_self)
  have hops := emit_ops (c.popWaiting rest) id
  have hkept : ∀ i, Kept (c.ops i) ((PgDriver.emit
      (c.popWaiting rest) id).ops i) := by
    intro i
    rw [hops]
    exact ⟨rfl, fun h => h, fun h => h⟩
  have hsilent : Silent (c.answers c.log.length) := h.silent_from le_rfl
  refine ⟨hqs, h.opened, h.kinds, h.fits.emit id, h.later, ?_, ?_,
    fun k i hk hle => ?_, fun x hx k hk => ?_, fun i hi => ?_, fun i hi => ?_,
    fun k i hk => ?_, fun i hi => ?_⟩
  · intro hle
    have := h.queues.served_le
    have hle : (c.log ++ [id]).length ≤ c.served := hle
    rw [length_append, length_singleton] at hle
    omega
  · intro hdir
    have hdir : (c.headDirect || c.ring.isEmpty) = true := hdir
    rw [Bool.or_eq_true] at hdir
    rcases hdir with hdir | hnil
    · exact h.direct hdir
    · have hdrop := h.queues.ring
      rw [isEmpty_iff.mp hnil, map_nil, drop_eq_nil_iff] at hdrop
      exact fun _ => h.fits.trailing (le_antisymm h.queues.queued hdrop)
  · show Filled _ (c.answers k) (pendingError (c.emitted ++ [id]) c.messages i)
    rw [pendingError_emit _ _ _ h.fits]
    refine Filled.kept ?_ (hkept i)
    rcases snoc_at hk with ⟨hk, -⟩ | ⟨rfl, rfl⟩
    · exact h.emitted k i hk hle
    · rw [pendingError_notin c.messages fun hmem =>
        hnlog (mem_log_of_emitted h.queues hmem)]
      exact huntouched.filled hsilent
  · refine Attached.kept ?_ (hkept x.op)
    rcases mem_append.mp hx with hx | hx
    · rcases snoc_at hk with ⟨hk, -⟩ | ⟨-, heq⟩
      · exact h.attached x hx k hk
      · refine absurd ?_ hnlog
        rw [heq]
        exact mem_log_of_emitted h.queues (h.queues.ring_emitted hx)
    · rw [mem_singleton.mp hx] at hk ⊢
      rcases snoc_at hk with ⟨hk, -⟩ | ⟨rfl, -⟩
      · exact absurd (mem_of_getElem? hk) hnlog
      · exact huntouched.attached hsilent id
  · exact (h.waiting i (hwait ▸ mem_cons_of_mem _ hi)).kept (hkept i)
  · rw [hops] at hi ⊢
    exact h.discarded i hi
  · rw [hops]
    exact h.finished k i hk
  · rw [hops]
    exact h.unfinished i hi

variable {lim : Limits}

theorem Answered.admission {r : Request}
    (h : Answered c) (hadm : Admission lim c r c') : Answered c' := by
  have hqs := h.queues.admission hadm
  cases hadm with
  | refused => exact h
  | unbuilt | oversize =>
    exact h.frame hqs (fun _ => .rfl) rfl (fun _ => id) h.discarded fun _ => .inl rfl
  | admitted size _ _ _ => exact h.admit r size

theorem Answered.move (h : Answered c) (hmove : Move c c') : Answered c' := by
  have hqs := h.queues.move hmove
  cases hmove with
  | flags handle blocked =>
    exact h.frame hqs (fun _ => .rfl) rfl (fun _ => id) h.discarded fun _ => .inl rfl
  | skip id rest _ hwait _ =>
    exact h.frame hqs (fun _ => .rfl) rfl
      (fun i hi => hwait ▸ mem_cons_of_mem _ hi) h.discarded fun _ => .inl rfl
  | emit id rest _ hwait hst _ => exact h.emit hwait hst

/-- One operation is marked in its state, its future or its flag. -/
theorem Answered.mark (h : Answered c) (hqs : Queues c') {f : Operation → Operation}
    (hops : ∀ i, c'.ops i = if i = id then f (c.ops i) else c.ops i)
    (hf : Kept (c.ops id) (f (c.ops id))) (htraffic : c'.traffic = c.traffic)
    (hwait : ∀ id ∈ c'.waiting, id ∈ c.waiting)
    (hdiscarded : (f (c.ops id)).discarded = true → (f (c.ops id)).future = .cancelled)
    (hfut : (f (c.ops id)).future = (c.ops id).future
      ∨ (id ∉ c.finished ∧ (f (c.ops id)).future = .cancelled)) : Answered c' := by
  refine h.frame hqs (fun i => ?_) htraffic hwait (fun i hi => ?_) fun i => ?_
  · rw [hops]
    split
    · rename_i heq
      rw [heq]
      exact hf
    · exact .rfl
  · rw [hops] at hi ⊢
    split at hi
    · rename_i heq
      rw [if_pos heq]
      rw [heq] at hi ⊢
      exact hdiscarded hi
    · rename_i heq
      rw [if_neg heq]
      exact h.discarded i hi
  · rw [hops]
    split
    · rename_i heq
      rw [heq]
      exact hfut
    · exact .inl rfl

theorem Answered.drop (h : Answered c) (hdrop : Drop c c') : Answered c' := by
  have hqs := h.queues.drop hdrop
  cases hdrop with
  | intro id rest _ hwait hst hfut =>
    exact h.mark (f := fun o => { o with state := .cancelled }) hqs
      (fun _ => rfl) ⟨rfl, fun h => h, fun h => h⟩ rfl
      (fun i hi => hwait ▸ mem_cons_of_mem _ hi)
      (fun _ => hfut) (.inl rfl)

/-! ## Messages keep it -/

theorem Answered.notin_finished (h : Answered c)
    (hid : id ∈ c.waiting ∨ id ∈ c.emitted) : id ∉ c.finished := by
  intro hfin
  have hlog : id ∈ c.log := h.queues.log ▸ mem_append_left _ hfin
  rcases hid with hid | hid
  · exact (nodup_append.mp h.queues.nodup).2.2 id hlog id hid rfl
  · have hnd := h.queues.nodup_log
    rw [h.queues.log] at hnd
    exact (nodup_append.mp hnd).2.2 id hfin id hid rfl

/-- The parser collects a message of the answer it is in. -/
theorem Answered.collect {x' : Context} (h : Answered c) (hring : c.ring = x :: xs)
    (hop : x'.op = x.op) (hshell : o.shell = (c.ops x.op).shell)
    (hfilled : Filled o (c.answers c.served ++ [m]) (pendingError c.emitted c.messages x.op))
    (hattached : Attached o x' (c.answers c.served ++ [m])) (hz : m.kind ≠ ch 'Z')
    (hqs : Queues ((c.atHead x.op o (x' :: xs)).answered m)) :
    Answered ((c.atHead x.op o (x' :: xs)).answered m) := by
  have hhead := h.queues.head_log hring
  have hemitted := h.queues.ring_emitted (hring ▸ mem_cons_self : x ∈ c.ring)
  set c' := (c.atHead x.op o (x' :: xs)).answered m
  have hself : c'.ops x.op = o := if_pos rfl
  have hne : ∀ i, i ≠ x.op → c'.ops i = c.ops i := fun i hi => if_neg hi
  have hserved : c'.served = c.served := if_neg hz
  have hans : c'.answers c.served = c.answers c.served ++ [m] := if_pos rfl
  have hother : ∀ k, k ≠ c.served → c'.answers k = c.answers k := fun k hk => if_neg hk
  have hfut : o.future = (c.ops x.op).future :=
    (congrArg Operation.future hshell : o.shell.future = (c.ops x.op).shell.future)
  have hdiscarded : o.discarded = (c.ops x.op).discarded :=
    (congrArg Operation.discarded hshell : o.shell.discarded = (c.ops x.op).shell.discarded)
  have hxs : ∀ y ∈ xs, y.op ≠ x.op := by
    intro y hy heq
    have hdrop := h.queues.ring
    rw [hring, map_cons] at hdrop
    have hnd := h.queues.nodup_log
    rw [h.queues.log] at hnd
    have hids := ((nodup_append.mp hnd).2.1).sublist (drop_sublist (readies c.messages) c.emitted)
    rw [hdrop, nodup_cons] at hids
    exact hids.1 (heq ▸ mem_map_of_mem hy)
  refine ⟨hqs, h.opened, h.kinds, h.fits, fun k hk => ?_, fun hle => ?_,
    h.direct, fun k i hk hle => ?_, fun y hy k hk => ?_, fun i hi => ?_,
    fun i hi => ?_, fun k i hk => ?_, fun i hi => ?_⟩
  · rw [hserved] at hk
    rw [hother k hk.ne']
    exact h.later k hk
  · rw [hserved] at hle
    obtain ⟨hlt, -⟩ := List.getElem?_eq_some_iff.mp hhead
    exact absurd hlt (not_lt.mpr hle)
  · by_cases heq : k = c.served
    · obtain rfl : x.op = i := some.inj (hhead.symm.trans (heq ▸ hk))
      rw [hself, heq, hans]
      exact hfilled
    · rw [hother k heq, hne i fun hi => heq (h.queues.log_inj (hi ▸ hk) hhead)]
      exact h.emitted k i hk hle
  · rcases mem_cons.mp hy with rfl | hy
    · rw [hop] at hk
      obtain rfl := h.queues.log_inj hk hhead
      rw [hop, hself, hans]
      exact hattached
    · have hyne := hxs y hy
      rw [hne y.op hyne, hother k]
      · exact h.attached y (hring ▸ mem_cons_of_mem _ hy) k hk
      · rintro rfl
        exact hyne (some.inj (hk.symm.trans hhead))
  · rw [hne i]
    · exact h.waiting i hi
    · rintro rfl
      exact h.queues.emitted_notin hemitted hi
  · by_cases heq : i = x.op
    · rw [heq, hself] at hi ⊢
      rw [hfut]
      exact h.discarded x.op (hdiscarded ▸ hi)
    · rw [hne i heq] at hi ⊢
      exact h.discarded i hi
  · have hix : i ≠ x.op := by
      rintro rfl
      exact h.notin_finished (.inr hemitted) (mem_of_getElem? hk)
    rw [hne i hix, hother k]
    · exact h.finished k i hk
    · rintro rfl
      exact hix (some.inj ((h.queues.log_finished hk).symm.trans hhead))
  · by_cases heq : i = x.op
    · rw [heq, hself, hfut]
      exact h.unfinished x.op (heq ▸ hi)
    · rw [hne i heq]
      exact h.unfinished i hi

variable {ms : List Message}

/-- A message that is queued ends no suffix without `ReadyForQuery` but one it is in. -/
theorem suffix_queued {post : List Message}
    (hpost : post <:+ ms ++ [m]) (hnone : readies post = 0) :
    post = [] ∨ (m.kind ≠ ch 'Z' ∧ ∃ pre, pre <:+ ms ∧ readies pre = 0 ∧ post = pre ++ [m]) := by
  rcases suffix_concat_iff.mp hpost with rfl | ⟨pre, rfl, hpre⟩
  · exact .inl rfl
  · rw [readies_append_one] at hnone
    refine .inr ⟨?_, pre, hpre, by omega, rfl⟩
    intro hz
    rw [if_pos hz] at hnone
    omega

/-- A message is left to the reader. -/
theorem Answered.queue (h : Answered c)
    (hm : ForReader m) (hserve : asynchronous m.kind = true ∨ c.ring ≠ [])
    (hqs : Queues ((queueMessage c m.kind m.payload).answered m)) :
    Answered ((queueMessage c m.kind m.payload).answered m) := by
  obtain ⟨ring, direct, heq, hring, hother, -⟩ := queueMessage_fields c
  rw [heq] at hqs ⊢
  set c' := Conn.answered _ m
  have hans : ∀ k, k ≠ c.served → c'.answers k = c.answers k := fun k hk => if_neg hk
  have hserving : c'.answers c.served = c.answers c.served ++ [m] := if_pos rfl
  have hserved : c'.served = if m.kind = ch 'Z' then c.served + 1 else c.served := rfl
  refine ⟨hqs, h.opened, fun x hx => ?_, ?_, fun k hk => ?_, fun hle => ?_,
    fun hdir post hpost hnone => ?_, fun k id hk hle => ?_,
    fun x hx k hk => ?_, h.waiting, h.discarded, fun k id hk => ?_,
    h.unfinished⟩
  · rcases mem_append.mp hx with hx | hx
    · exact h.kinds x hx
    · rw [mem_singleton.mp hx]
      exact hm
  · refine h.fits.queue (hserve.imp_right fun hne => ?_)
    by_contra hlong
    have hlong : c.emitted.length ≤ readies c.messages := not_lt.mp hlong
    have hdrop := h.queues.ring
    rw [drop_eq_nil_of_le hlong] at hdrop
    exact hne (map_eq_nil_iff.mp hdrop.symm)
  · have hlt : c.served < k := by
      rw [hserved] at hk
      split at hk <;> omega
    rw [hans k hlt.ne']
    exact h.later k hlt
  · have hle : c.log.length ≤ c'.served := hle
    by_cases hz : m.kind = ch 'Z'
    · rw [hserved, if_pos hz, hans _ (Nat.succ_ne_self _), h.later _ (Nat.lt_succ_self _)]
      exact nofun
    · rw [hserved, if_neg hz] at hle ⊢
      rw [hserving]
      intro x hx
      rcases mem_append.mp hx with hx | hx
      · exact h.silent hle x hx
      · rw [mem_singleton.mp hx]
        refine hserve.resolve_right fun hne => ?_
        obtain ⟨x, xs, hx⟩ := exists_cons_of_ne_nil hne
        obtain ⟨hlt, -⟩ := List.getElem?_eq_some_iff.mp (h.queues.head_log hx)
        omega
  · rcases suffix_queued hpost hnone with rfl | ⟨hz, pre, hpre, hpnone, rfl⟩
    · exact nofun
    · have hboth : (c.headDirect && asynchronous m.kind) = true := by
        rw [← (hother hz).2]
        exact hdir
      rw [Bool.and_eq_true] at hboth
      intro x hx
      rcases mem_append.mp hx with hx | hx
      · exact h.direct hboth.1 pre hpre hpnone x hx
      · rw [mem_singleton.mp hx]
        exact hboth.2
  · have hfilled := h.emitted k id hk hle
    show Filled (c.ops id) (c'.answers k) (pendingError c.emitted (c.messages ++ [m]) id)
    rw [pendingError_append]
    by_cases hE : m.kind = ch 'E'
    · -- the error waits for the operation that is being answered
      obtain ⟨x, xs, hx⟩ := exists_cons_of_ne_nil
        (hserve.resolve_left fun hasync => class_ne hasync rfl hE)
      have hat := h.queues.head_log hx
      have hindex : c.emitted[readies c.messages]? = some x.op := by
        rw [h.queues.log, h.queues.served, getElem?_append_right (Nat.le_add_right ..),
          Nat.add_sub_cancel_left] at hat
        exact hat
      by_cases hk' : k = c.served
      · subst hk'
        obtain rfl : x.op = id := some.inj (hat.symm.trans hk)
        rw [hserving, if_pos ⟨hE, hindex⟩]
        constructor
        · rw [tagOf, ofKind_other (kind_ne hE rfl)]
          exact hfilled.command
        · rw [errorOf, ofKind_same hE, getLast?_concat]
          rfl
        · rw [rowsOf, ofKind_other (kind_ne hE rfl)]
          exact hfilled.rows
      · rw [hans k hk', if_neg]
        · exact hfilled
        · rintro ⟨-, hid⟩
          cases hindex.symm.trans hid
          exact hk' (h.queues.log_inj hk hat)
    · rw [if_neg fun h => hE h.1]
      by_cases hk' : k = c.served
      · subst hk'
        exact hserving ▸ hfilled.append hm.ne hE hm.ne
      · exact (hans k hk').symm ▸ hfilled
  · have hattached := h.attached x (hring x hx) k hk
    by_cases hk' : k = c.served
    · subst hk'
      exact hserving ▸ hattached.append hm.ne
    · exact (hans k hk').symm ▸ hattached
  · have hk : c.finished[k]? = some id := hk
    obtain ⟨hlt, -⟩ := List.getElem?_eq_some_iff.mp hk
    have hserved := h.queues.served
    rw [hans k (by omega)]
    exact h.finished k id hk

/-! ## Completions keep it -/

theorem kept_head (mode : Mode) (rows : List Bytes) (hmode : mode = .fetchrow ∨ mode = .fetchval) :
    (kept mode rows).head? = rows.head? := by
  rcases hmode with rfl | rfl <;> cases rows <;> rfl

/-- **THE RESULT** of a completed operation is the one its answer gives. -/
theorem Filled.finish (h : Filled o a none) (hfut : o.future = .pending ∨ o.future = .cancelled)
    (hdiscarded : o.discarded = true → o.future = .cancelled) :
    o.finish.future = .cancelled ∨ o.finish.future = outcome o.finish.mode a := by
  rcases hfut with hpend | hcanc
  · refine .inr ?_
    have hlive : o.discarded = false := by
      rw [Bool.eq_false_iff]
      exact fun hd => by cases hpend.symm.trans (hdiscarded hd)
    have herror : errorOf a = o.error := h.error
    have hrows := h.rows hpend
    rw [Operation.finish, Operation.publish, if_neg (by
      rw [hpend, hlive]; rintro (h | h) <;> exact absurd h (by decide)), outcome.eq_def, herror]
    cases he : o.error with
    | some payload => rfl
    | none =>
      refine congrArg Future.result ?_
      rw [Operation.value]
      cases hmode : o.mode with
      | execute => simp only [h.command]
      | fetch | fetchBatch => simp only [hrows, hmode, PgDriver.kept]
      | fetchrow =>
        simp only [hmode, hrows, kept_head _ _ (.inl rfl)]
      | fetchval =>
        simp only [hmode, hrows, kept_head _ _ (.inr rfl)]
  · refine .inl ?_
    rw [Operation.finish, Operation.publish, if_pos (.inl (by rw [hcanc]; rintro ⟨⟩))]
    exact hcanc

/-- A completion changes one operation; the invariant of the others stays. -/
theorem Answered.ended (h : Answered c) (hqs : Queues c') (hemit : c.emitted = id :: rest)
    (hself : c'.ops id = (c.ops id).finish) (hne : ∀ i, i ≠ id → c'.ops i = c.ops i)
    (hsame : (c'.closed, c'.log, c'.waiting, c'.emitted, c'.finished)
      = (c.closed, c.log, c.waiting, rest, c.finished ++ [id]))
    (hring : ∀ x ∈ c'.ring, x ∈ c.ring) (hmsgs : ∀ m ∈ c'.messages, m ∈ c.messages)
    (hpend : ∀ i, pendingError c.emitted c.messages i = pendingError rest c'.messages i)
    (hans : ∀ k, k ≠ c.finished.length → c'.answers k = c.answers k)
    (hfilled : Filled (c.ops id) (c.answers c.finished.length) none →
      Filled (c.ops id) (c'.answers c.finished.length) none)
    (hfits : Fits rest c'.messages) (hlater : ∀ k, c'.served < k → c'.answers k = [])
    (hsilent : c.log.length ≤ c'.served → Silent (c'.answers c'.served))
    (hdirect : c'.headDirect = true → ∀ post, post <:+ c'.messages → readies post = 0 →
      Silent post) : Answered c' := by
  simp only [Prod.mk.injEq] at hsame
  obtain ⟨hclosed, hlog, hwait, hemit', hfin⟩ := hsame
  have hmem : id ∈ c.emitted := hemit ▸ mem_cons_self
  have hhead := h.queues.head_index hemit
  have hnotin := h.queues.head_notin hemit
  refine ⟨hqs, hclosed.trans h.opened, fun m hm => h.kinds m (hmsgs m hm), hemit' ▸ hfits, hlater,
    hlog ▸ hsilent, hdirect, fun k i hk hle => ?_, fun x hx k hk => ?_, fun i hi => ?_,
    fun i hi => ?_, fun k i hk => ?_, fun i hi => ?_⟩
  · rw [hlog] at hk
    rw [hfin, length_append, length_singleton] at hle
    have hi : i ≠ id := by
      rintro rfl
      have := h.queues.log_inj hk hhead
      omega
    rw [hemit', ← hpend, hne i hi, hans k (by omega)]
    exact h.emitted k i hk (by omega)
  · rw [hlog] at hk
    have hx' : x.op ≠ id := by
      intro heq
      have hmem := hqs.ring_emitted hx
      rw [hemit', heq] at hmem
      exact hnotin hmem
    rw [hne x.op hx', hans k]
    · exact h.attached x (hring x hx) k hk
    · rintro rfl
      exact hx' (some.inj (hk.symm.trans hhead))
  · rw [hwait] at hi
    rw [hne i]
    · exact h.waiting i hi
    · rintro rfl
      exact h.queues.emitted_notin hmem hi
  · by_cases heq : i = id
    · obtain ⟨future, hfinish⟩ := finish_eq (c.ops id)
      rw [heq, hself, hfinish] at hi
      have hcanc := h.discarded id hi
      rw [heq, hself, Operation.finish, Operation.publish, if_pos (.inl (by rw [hcanc]; rintro ⟨⟩))]
      exact hcanc
    · rw [hne i heq] at hi ⊢
      exact h.discarded i hi
  · rw [hfin] at hk
    rcases snoc_at hk with ⟨hold, hlt⟩ | ⟨hlast, rfl⟩
    · rw [hne i, hans k hlt.ne]
      · exact h.finished k i hold
      · rintro rfl
        exact h.notin_finished (.inr hmem) (mem_of_getElem? hold)
    · have hlast' := h.emitted _ id hhead le_rfl
      rw [hpend, pendingError_notin _ hnotin] at hlast'
      rw [hlast, hself]
      exact (hfilled hlast').finish (h.unfinished id (h.notin_finished (.inr hmem)))
        (h.discarded id)
  · rw [hfin, mem_append, not_or, mem_singleton] at hi
    rw [hne i hi.2]
    exact h.unfinished i hi.1

/-- The reader takes the `ReadyForQuery` of the head. -/
theorem Answered.finishes (h : Answered c) (hmsgs : c.messages = m :: ms)
    (hfin : Finishes lim { c with messages := ms } m c') : Answered c' := by
  have hqs := h.queues.finishes hmsgs hfin
  obtain ⟨hz, id, rest, handle, hemit, rfl⟩ := hfin.finished
  refine h.ended hqs hemit modify_ops_self (fun i hi => modify_ops_ne hi) rfl (fun _ hx => hx)
    (fun x hx => hmsgs ▸ mem_cons_of_mem _ hx) (fun i => ?_) (fun _ _ => rfl) (fun h => h) ?_
    h.later h.silent fun hdir post hpost hnone => ?_
  · -- what is queued for the others is what stands behind the message
    show pendingError c.emitted c.messages i = pendingError rest ms i
    rw [hemit, hmsgs, pendingError, if_pos hz]
  · have hfits := h.fits
    rw [hemit, hmsgs, Fits, if_pos hz] at hfits
    exact hfits
  · refine h.direct hdir post ?_ hnone
    rw [hmsgs]
    exact hpost.trans (suffix_cons m ms)

/-- The parser completes the head itself. -/
theorem Answered.completes (h : Answered c) (hcomp : Completes lim c m c') :
    Answered (c'.answered m) := by
  have hqs := h.queues.completes hcomp
  obtain ⟨hz, x, xs, rest, handle, hring, hemit, hdir, -, rfl⟩ := hcomp.completed
  have hnone := h.queues.completes_none hring hemit
  have hsilent : Silent c.messages := h.direct hdir c.messages (suffix_refl _) hnone
  have hserved : c.served = c.finished.length := by
    rw [h.queues.served, hnone]
    rfl
  have hans : ∀ k, k ≠ c.finished.length → (if k = c.served then c.answers k ++ [m]
      else c.answers k) = c.answers k := fun k hk => if_neg (hserved ▸ hk)
  have hserved' : ((advance { finishOperation lim (c.popEmitted rest m) x.op with
      flushHandle := handle }).answered m).served = c.served + 1 := if_pos hz
  have hlater : ∀ k, c.served < k → (if k = c.served then c.answers k ++ [m]
      else c.answers k) = [] := fun k hk => (if_neg hk.ne').trans (h.later k hk)
  refine h.ended hqs hemit modify_ops_self (fun i hi => modify_ops_ne hi) rfl
    (fun y hy => mem_of_mem_tail hy) (fun _ hx => hx) (fun i => ?_) hans (fun hfilled => ?_)
    (fits_asynchronous _ _ hsilent) (fun k hk => hlater k (by omega)) (fun _ => ?_)
    fun _ post hpost _ y hy => hsilent y (hpost.subset hy)
  · exact (pendingError_asynchronous _ _ hsilent).trans (pendingError_asynchronous _ _ hsilent).symm
  · show Filled _ (if c.finished.length = c.served then _ else _) none
    rw [if_pos hserved.symm]
    exact hfilled.append (kind_ne hz rfl) (kind_ne hz rfl) (kind_ne hz rfl)
  · rw [hserved']
    exact (congrArg Silent (hlater _ (Nat.lt_succ_self c.served))).mpr nofun

/-! ## The reader's other messages keep it -/

/-- The reader takes a message that ends no answer; the errors it was to give out are those
    it gave out and those it still has. -/
theorem Answered.consume (h : Answered c) (hqs : Queues c') (hmsgs : c.messages = m :: ms)
    (hfits : Fits c.emitted ms) (error : Nat → Option Bytes)
    (hops : ∀ i, c'.ops i = { c.ops i with error := error i })
    (hpend : ∀ i, (pendingError c.emitted ms i).or (error i)
      = (pendingError c.emitted c.messages i).or (c.ops i).error)
    (hwaiting : ∀ i ∈ c.waiting, error i = (c.ops i).error)
    (htraffic : c'.traffic = { c with messages := ms }.traffic) (hwait : c'.waiting = c.waiting) :
    Answered c' := by
  cases c
  cases c'
  cases htraffic
  cases hwait
  cases hmsgs
  refine ⟨hqs, h.opened, fun x hx => h.kinds x (mem_cons_of_mem _ hx), hfits,
    h.later, h.silent, fun hd post hpost => h.direct hd post (hpost.trans (suffix_cons m ms)),
    fun k id hk hle => ?_, fun x hx k hk => ?_, fun id hid => ?_, fun id hd => ?_,
    fun k id hk => ?_, fun id hid => ?_⟩
  · have hfilled := h.emitted k id hk hle
    rw [hops]
    exact ⟨hfilled.command, hfilled.error.trans (hpend id).symm, hfilled.rows⟩
  · rw [hops]
    exact ⟨(h.attached x hx k hk).tape, (h.attached x hx k hk).discarded⟩
  · rw [hops, hwaiting id hid]
    exact h.waiting id hid
  · rw [hops] at hd ⊢
    exact h.discarded id hd
  · rw [hops]
    exact h.finished k id hk
  · rw [hops]
    exact h.unfinished id hid

/-- What the reader makes of a message that ends no answer. -/
theorem consume_reader (hm : ForReader m) (hz : m.kind ≠ ch 'Z') : consumeMessage o m = some { o with
      error := if m.kind = ch 'E' then some m.payload else o.error } := by
  have hD : m.kind ≠ ch 'D' := hm.ne
  rw [consumeMessage, if_neg hm.ne, if_neg hm.ne, if_neg fun h => hD h.1, if_neg hm.ne]
  by_cases hE : m.kind = ch 'E'
  · rw [if_pos hE, if_pos hE]
  · rw [if_neg hE, if_neg hE, if_pos]
    rcases hm with hasync | h3 | h | h
    · exact .inl hasync
    · exact .inr (.inr (.inl h3))
    · exact absurd h hE
    · exact absurd h.1 hz

theorem Answered.consumed (h : Answered c) (hmsgs : c.messages = m :: ms) (hz : m.kind ≠ ch 'Z')
    (hemit : c.emitted = id :: rest) (hconsume : consumeMessage (c.ops id) m = some o)
    (hqs : Queues ({ c with messages := ms }.modify id fun _ => o)) :
    Answered ({ c with messages := ms }.modify id fun _ => o) := by
  have hm := h.kinds m (hmsgs ▸ mem_cons_self)
  rw [consume_reader hm hz] at hconsume
  refine h.consume hqs hmsgs ?_ (fun i => if i = id ∧ m.kind = ch 'E' then some m.payload
      else (c.ops i).error) (fun i => ?_) (fun i => ?_) (fun i hi => ?_) rfl rfl
  · have hfits := h.fits
    rw [hemit, hmsgs, Fits, if_neg hz] at hfits
    rw [hemit]
    exact hfits
  · show (if i = id then o else c.ops i) = _
    split
    · rename_i heq
      rw [← some.inj hconsume, heq]
      simp only [true_and]
    · rename_i heq
      rw [if_neg fun h => heq h.1]
  · rw [hemit, hmsgs, pendingError, if_neg hz]
    by_cases heq : id = i ∧ m.kind = ch 'E'
    · rw [if_pos ⟨heq.1.symm, heq.2⟩, if_pos ⟨heq.2, heq.1⟩]
      cases pendingError (id :: rest) ms i <;> rfl
    · rw [if_neg fun h => heq ⟨h.1.symm, h.2⟩, if_neg fun h => heq ⟨h.2, h.1⟩]
  · refine if_neg fun heq => ?_
    exact h.queues.emitted_notin (hemit ▸ mem_cons_self) (heq.1 ▸ hi)

/-- Between operations there is nothing to take a message. -/
theorem Answered.ignored (h : Answered c) (hmsgs : c.messages = m :: ms) (hemit : c.emitted = [])
    (hqs : Queues { c with messages := ms }) : Answered { c with messages := ms } := by
  refine h.consume hqs hmsgs ?_ (fun i => (c.ops i).error)
    (fun _ => rfl) (fun i => ?_) (fun _ _ => rfl) rfl rfl
  · have hfits := h.fits
    rw [hemit, hmsgs] at hfits
    exact fits_asynchronous _ _ fun x hx =>
      hfits x (mem_cons_of_mem _ hx)
  · rw [hemit]
    cases ms <;> cases c.messages <;> rfl

/-- **THE READER** finds nothing to fail on. -/
theorem Answered.read_open (h : Answered c) (lim : Limits) (hmsgs : c.messages = m :: ms) :
    (readMessage lim { c with messages := ms } m).closed = false := by
  have hm := h.kinds m (hmsgs ▸ mem_cons_self)
  rw [readMessage]
  split
  · rename_i hemit
    have hfits := h.fits
    rw [show c.emitted = [] from hemit, hmsgs] at hfits
    rw [if_pos (hfits m mem_cons_self)]
    exact h.opened
  · rename_i id rest hemit
    by_cases hz : m.kind = ch 'Z'
    · have hlen : m.payload.length = 1 := by
        rcases hm with hasync | h3 | hE | hZ
        · exact absurd hz (class_ne hasync rfl)
        · exact absurd (hz.symm.trans h3) (by decide)
        · exact absurd (hz.symm.trans hE) (by decide)
        · exact hZ.2
      rw [if_pos hz, if_neg (not_not.mpr hlen)]
      obtain ⟨handle, hwake⟩ := wakeFlush_eq (finishOperation lim
        ({ c with messages := ms }.popEmitted rest m) id)
      simp only [hwake]
      exact h.opened
    · rw [if_neg hz]
      simp only [consume_reader hm hz]
      exact h.opened

/-! ## The parser on a well-formed answer -/

theorem act_reader (c : Conn) (hm : ForReader m) (hz : m.kind ≠ ch 'Z') :
    (operations lim).act c m = some (queueMessage c m.kind m.payload) := by
  have hquiet : ¬ quiet m.kind = true := by
    rw [quiet, Bool.or_eq_true, Bool.or_eq_true, Bool.or_eq_true, beq_iff_eq,
      beq_iff_eq, beq_iff_eq, beq_iff_eq]
    rintro (((h | h) | h) | h)
    all_goals exact hm.ne (by decide) h
  have hdesc : isDescription m.kind = false := by
    rw [isDescription, beq_false_of_ne hm.ne, beq_false_of_ne hm.ne]
    rfl
  rw [Operations.act, if_neg hquiet, hdesc,
    beq_false_of_ne (hm.ne : m.kind ≠ ch 'C'),
    beq_false_of_ne (hm.ne : m.kind ≠ ch 'D'),
    beq_false_of_ne hz]
  rfl

theorem act_ready (c : Conn) (hz : m.kind = ch 'Z') (hlen : m.payload.length = 1) :
    (operations lim).act c m = if (c.headDirect && !c.ring.isEmpty) = true then
          match completeCached lim c m.payload with
          | none => none
          | some (true, c') => some c'
          | some (false, c') => some (queueMessage c' m.kind m.payload)
        else some (queueMessage c m.kind m.payload) := by
  have hquiet : ¬ quiet (ch 'Z') = true := by decide
  have hdesc : isDescription (ch 'Z') = false := by decide
  have hC : (ch 'Z' == ch 'C') = false := by decide
  have hD : ¬ (ch 'Z' == ch 'D') = true := by decide
  rw [Operations.act, hz, hlen, if_neg hquiet, hdesc, hC, if_neg hD,
    beq_self_eq_true, beq_self_eq_true]
  show (if (c.headDirect && !c.ring.isEmpty) = true then _ else _) = _
  split
  · have hcomp : (operations lim).complete c m.payload = completeCached lim c m.payload := rfl
    rw [hcomp]
    rcases completeCached lim c m.payload with _ | ⟨_ | _, c'⟩ <;> rfl
  · rfl

/-- An answer ends: the parser completes its head, or leaves this to the reader. -/
theorem Answered.ready (h : Answered c) (hring : c.ring ≠ []) (hz : m.kind = ch 'Z')
    (hlen : m.payload.length = 1) (hover : ¬ Overtakes c m) :
    (∃ c', (operations lim).act c m = some c' ∧ Completes lim c m c') ∨ (operations lim).act c m
        = some (queueMessage c m.kind m.payload) := by
  rw [act_ready c hz hlen]
  split
  swap
  · exact .inr rfl
  rename_i hdir
  rw [Bool.and_eq_true] at hdir
  rw [completeCached.eq_def]
  cases hx : c.ring with
  | nil => exact absurd hx hring
  | cons x xs =>
    by_cases hslow : (c.ops x.op).cold = true
        ∨ (c.ops x.op).discarded = true ∨ (c.ops x.op).error ≠ none
    · simp only [if_pos hslow]
      exact .inr trivial
    · simp only [if_neg hslow]
      rw [not_or, not_or, not_not, Bool.not_eq_true, Bool.not_eq_true] at hslow
      -- no end of an answer is queued: the heads of the two queues agree
      have hnone : readies c.messages = 0 := by
        by_contra hne
        exact hover ⟨hz, hlen, hdir.1, ⟨x, xs, hx, hslow⟩, hne⟩
      have hemit := h.queues.ring
      rw [hnone, hx, drop_zero, map_cons] at hemit
      cases he : c.emitted with
      | nil => cases he.symm.trans hemit
      | cons head rest =>
        obtain ⟨rfl, hrest⟩ := List.cons.inj (he.symm.trans hemit)
        simp only [ne_eq, not_true_eq_false, if_false]
        exact .inl ⟨_, rfl, ⟨hz, hlen⟩, x, xs, rest, hx, he, hdir.1,
          hslow.1, hslow.2.1, hslow.2.2, by rw [← hx]; rfl⟩

/-- **THE PARSER** takes every message of a well-formed answer. -/
theorem Answered.receive (h : Answered c) (hwell : WellFormed c m) (hover : ¬ Overtakes c m) :
    ∃ c', (operations lim).act c m = some c' ∧ Answered (c'.answered m) := by
  have hserve : Serves c (.receive m) := by
    refine hwell.imp_right ?_
    rintro ⟨id, hid, -⟩
    exact (List.getElem?_eq_some_iff.mp hid).1
  have hring : asynchronous m.kind = true ∨ c.ring ≠ [] :=
    hserve.imp_right fun hlt => h.queues.ring_of_served hlt
  have hqueue : ForReader m → (operations lim).act c m = some (queueMessage c m.kind m.payload) →
      ∃ c', (operations lim).act c m = some c' ∧ Answered (c'.answered m) :=
    fun hm hact => ⟨_, hact, h.queue hm hring (h.queues.acted hserve hact
      (by rw [queueMessage]; split <;> exact h.opened))⟩
  by_cases hasync : asynchronous m.kind = true
  · exact hqueue (.inl hasync) (act_reader c (.inl hasync) (class_ne hasync rfl))
  obtain ⟨id, hid, hadmits⟩ := hwell.resolve_left hasync
  obtain ⟨x, xs, hx⟩ := exists_cons_of_ne_nil (hring.resolve_left hasync)
  have hhead := h.queues.head_log hx
  obtain rfl : x.op = id := some.inj (hhead.symm.trans hid)
  by_cases h3 : m.kind = ch '3'
  · exact hqueue (.inr (.inl h3)) (act_reader c (.inr (.inl h3)) (kind_ne h3 rfl))
  by_cases hE : m.kind = ch 'E'
  · exact hqueue (.inr (.inr (.inl hE))) (act_reader c (.inr (.inr (.inl hE))) (kind_ne hE rfl))
  by_cases hz : m.kind = ch 'Z'
  · have hlen : m.payload.length = 1 := by
      rw [Admits, hz] at hadmits
      revert hadmits
      rintro (h | h | h | h | h | ⟨h, -⟩ | ⟨h, -⟩ | ⟨h, -⟩ | ⟨-, h⟩)
      case inr.inr.inr.inr.inr.inr.inr.inr => exact h
      all_goals exact absurd h (by decide)
    rcases h.ready (hring.resolve_left hasync) hz hlen hover with ⟨c', hact, hcomp⟩ | hact
    · exact ⟨c', hact, h.completes hcomp⟩
    · exact hqueue (.inr (.inr (.inr ⟨hz, hlen⟩))) hact
  · have hserved := h.queues.served
    obtain ⟨o, x', hact, hop, hshell, hfilled, hattached⟩ := act_collects
      hx (h.emitted _ _ hhead (by omega))
      (h.attached x (hx ▸ mem_cons_self) _ hhead) (h.discarded x.op)
      hadmits (Bool.eq_false_iff.mpr hasync) h3 hE hz
    exact ⟨_, hact, h.collect hx hop hshell hfilled hattached hz
      (h.queues.acted hserve hact h.opened)⟩

/-! ## Runs -/

/-- **ONE EVENT** in step keeps the invariant, and the connection open. -/
theorem Answered.step {e : Event} (h : Answered c) (hin : InStep lim c e)
    (hstep : PgDriver.step lim c e = some c') : Answered c' := by
  have hreceive : ∀ m, e = .receive m → Answered c' := by
    rintro m rfl
    obtain ⟨c₁, hact, hanswered⟩ := h.receive hin.1 hin.2
    rw [PgDriver.step, if_neg (by rw [h.opened]; rintro ⟨⟩), hact] at hstep
    exact some.inj hstep ▸ hanswered
  have hserve : (∀ m, e ≠ .receive m) → Serves c e := by
    intro hother
    cases e with
    | receive m => exact absurd rfl (hother m)
    | _ => trivial
  rcases step_cases h.queues h.opened hstep with hstepped | hfailed
  · have hqs : (∀ m, e ≠ .receive m) → Queues c' :=
      fun hother => h.queues.stepped (hserve hother) hstepped
    cases hstepped with
    | submitted r c₁ _ hadm hmoves =>
      clear hstep hreceive hserve hqs
      induction hmoves with
      | refl => exact h.admission hadm
      | tail _ hmove ih => exact ih.move hmove
    | flushed blocked _ hsweep =>
      clear hstep hreceive hserve hqs
      induction hsweep with
      | refl => exact h
      | tail _ hlast ih => exact hlast.elim ih.move ih.drop
    | drained handle =>
      exact h.move (.flags c handle false)
    | cancelled id hid hpend =>
      exact h.mark (f := fun o => { o with future := .cancelled })
        (hqs (by rintro _ ⟨⟩)) (fun _ => rfl) ⟨rfl, fun h => h, (by rintro ⟨⟩)⟩ rfl (fun _ hi => hi)
        (fun _ => rfl) (.inr ⟨h.notin_finished hid, rfl⟩)
    | settled id => exact h
    | tombstone id hfut _ =>
      exact h.mark (f := fun o => { o with state := .cancelled })
        (hqs (by rintro _ ⟨⟩)) (fun _ => rfl) ⟨rfl, fun h => h, fun h => h⟩ rfl (fun _ hi => hi)
        (fun _ => hfut) (.inl rfl)
    | discarded id hfut _ =>
      exact h.mark (f := fun o => { o with discarded := true })
        (hqs (by rintro _ ⟨⟩)) (fun _ => rfl) ⟨rfl, fun _ => rfl, fun h => h⟩ rfl (fun _ hi => hi)
        (fun _ => hfut) (.inl rfl)
    | touched m | completed m | queued m => exact hreceive m rfl
    | finished m ms _ hmsgs hfin =>
      exact h.finishes hmsgs hfin
    | ignored m ms hmsgs _ hemit =>
      exact h.ignored hmsgs hemit (hqs (by rintro _ ⟨⟩))
    | consumed m ms id rest o hmsgs hz hemit hconsume =>
      exact h.consumed hmsgs hz hemit hconsume (hqs (by rintro _ ⟨⟩))
  · cases hfailed with
    | cancelled id hhead hkey =>
      rcases hin with hin | hin
      · cases hkey.symm.trans hin
      · exact absurd hhead hin
    | parser m _ | order m _ _ _ => exact hreceive m rfl
    | reader m ms hmsgs hfail =>
      have hopen := h.read_open lim hmsgs
      rw [hfail, failConnection_closed] at hopen
      cases hopen

/-- Small bounds; the cache holds every plan. -/
def roomy : Limits where
  maxQueued := 8
  maxEmitted := 8
  maxOutbound := 1024
  cache := ⟨8, 1024⟩
  planCost _ _ := 1
  backendKey := true

/-- One column without a name. -/
def oneColumn : Bytes := [0, 1, 0] ++ List.replicate 18 0

/-- The row of an answer, and its end. -/
def oneRow (value : UInt8) : List Event := [.receive ⟨ch 'D', [0, 1, 0, 0, 0, 1, value]⟩,
    .receive ⟨ch 'C', [ch 'S', 0]⟩, .receive ⟨ch 'Z', [idle]⟩]

/-- The answer to a cold statement. -/
def coldAnswer (value : UInt8) : List Event := [.receive ⟨ch '1', []⟩, .receive ⟨ch 't', [0, 0]⟩,
    .receive ⟨ch 'T', oneColumn⟩, .receive ⟨ch '2', []⟩,
    .receive ⟨ch 'T', oneColumn⟩] ++ oneRow value

/-- The answer to a cached one. -/
def cachedAnswer (value : UInt8) : List Event := .receive ⟨ch '2', []⟩ :: oneRow value

/-- A statement is prepared and answered; then another one and the first again are sent in
    one pipeline. -/
def pipelined : List Event := [.submit ⟨"SELECT 1", .fetchval, some 60, false⟩] ++ coldAnswer 49
    ++ [.read, .submit ⟨"SELECT 2", .fetchval, some 60, false⟩,
      .submit ⟨"SELECT 1", .fetchval, some 40, false⟩, .flush false]

/-- The reader runs between the two answers. -/
def inTurn : List Event := pipelined ++ coldAnswer 50 ++ [.read] ++ cachedAnswer 49

/-- Both answers come in one read. -/
def inOneRead : List Event := pipelined ++ coldAnswer 50 ++ cachedAnswer 49

/-- The condition on the backend alone. -/
def Orderly (c : Conn) : Event → Prop
  | .receive m => WellFormed c m
  | _ => True

instance (c : Conn) : ∀ e, Decidable (Orderly c e)
  | .receive m => inferInstanceAs (Decidable (WellFormed c m))
  | .submit _ | .cancel _ | .resume _ | .flush _ | .drain | .read =>
    isTrue trivial

end PgDriver
