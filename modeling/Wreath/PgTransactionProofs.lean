import Wreath.GateProofs
import Wreath.PgPipelineProofs

/-! # Transactions — nobody else in the pipeline

The driver as a gate (`Gate`): inside are the texts of the operations that wait or are
emitted, marked by `is_transaction_sql`. Every event of the driver is a sequence of turns of
the gate (`gate_stepped`), as long as texts that control a transaction begin with a keyword
as a word of its own (`plain_marked`) and no flush drops a cancelled one, which keeps the
barrier (`transactions_alone`, `barrier_left_behind`). -/

namespace PgDriver

open ByteScan PgMessage List StepSystem Gate

/-! ## The gate of a connection -/

variable (c : Conn)

/-- The operations submitted and not completed. -/
def Conn.pending : List Nat := c.waiting.filter (live c) ++ c.emitted

def Conn.sqlOf (id : Nat) : String := (c.ops id).sql

/-- The statuses the reader has not taken yet. -/
def statuses (ms : List Message) : List UInt8 :=
  (ms.filter fun m => m.kind == ch 'Z').map fun m => m.payload.headD 0

def Conn.gate : State String UInt8 where
  inside := (c.pending.map c.sqlOf : List String)
  barrier := c.barrier
  status := c.status
  queued := statuses c.messages

/-- The status the backend reported last. -/
def Conn.backendStatus : UInt8 := c.gate.last

theorem Queues.pending_length {c : Conn} (h : Queues c) : c.pending.length = c.outstanding := by
  rw [Conn.pending, length_append, Conn.outstanding, h.live, countP_eq_length_filter]

theorem inside_card : c.gate.inside.card = c.pending.length := by
  show Multiset.card (c.pending.map c.sqlOf : Multiset String) = _
  rw [Multiset.coe_card, length_map]

variable {ms : List Message}

theorem statuses_length : (statuses ms).length = readies ms := by
  rw [statuses, length_map, readies, countP_eq_length_filter]

theorem statuses_cons (m : Message) : statuses (m :: ms)
      = if m.kind = ch 'Z' then m.payload.headD 0 :: statuses ms
        else statuses ms := by
  rw [statuses, filter_cons]
  by_cases hz : m.kind = ch 'Z'
  · rw [if_pos (beq_iff_eq.mpr hz), if_pos hz]
    rfl
  · rw [if_neg (fun h => hz (beq_iff_eq.mp h)), if_neg hz]
    rfl

theorem statuses_append (m : Message) : statuses (ms ++ [m])
      = if m.kind = ch 'Z' then statuses ms ++ [m.payload.headD 0]
        else statuses ms := by
  rw [statuses, filter_append, map_append, filter_singleton]
  by_cases hz : m.kind = ch 'Z'
  · rw [if_pos hz, hz, beq_self_eq_true]
    rfl
  · rw [if_neg hz, beq_false_of_ne hz]
    exact append_nil _

section Pending

variable {c c' : Conn}

theorem pending_congr (hst : ∀ i, (c'.ops i).state = (c.ops i).state)
    (hwait : c'.waiting = c.waiting) (hemit : c'.emitted = c.emitted) : c'.pending = c.pending := by
  rw [Conn.pending, Conn.pending, hwait, hemit]
  refine congrArg (· ++ c.emitted) (filter_congr fun i _ => ?_)
  rw [live, live, hst]

/-- Nothing the gate sees has changed. -/
theorem gate_congr (hpend : c'.pending.Perm c.pending) (hsql : ∀ i, c'.sqlOf i = c.sqlOf i)
    (hrest : c'.barrier = c.barrier ∧ c'.status = c.status
      ∧ statuses c'.messages = statuses c.messages) : c'.gate = c.gate := by
  obtain ⟨hbar, hstat, hmsgs⟩ := hrest
  rw [Conn.gate, Conn.gate, hbar, hstat, hmsgs]
  have hins : (c'.pending.map c'.sqlOf : Multiset String)
      = (c.pending.map c.sqlOf : List String) := by
    rw [Multiset.coe_eq_coe, funext hsql]
    exact hpend.map _
  rw [hins]

variable {id : Nat}

/-- One operation is inside no more. -/
theorem inside_leave (hpend : c.pending.Perm (id :: c'.pending))
    (hsql : ∀ i, c'.sqlOf i = c.sqlOf i) : c.gate.inside = c.sqlOf id ::ₘ c'.gate.inside := by
  show (c.pending.map c.sqlOf : Multiset String)
    = c.sqlOf id ::ₘ (c'.pending.map c'.sqlOf : List String)
  rw [Multiset.cons_coe, Multiset.coe_eq_coe, funext hsql]
  exact hpend.map c.sqlOf

/-- The waiting queue loses an operation that waits. -/
theorem pending_pop {rest : List Nat} (h : Queues c)
    (hwait : c.waiting = id :: rest) (hlive : (c.ops id).state = .waiting)
    (hwait' : c'.waiting = rest) (hemit : c'.emitted = c.emitted)
    (hst : ∀ i, i ≠ id → (c'.ops i).state = (c.ops i).state) : c.pending = id :: c'.pending := by
  obtain ⟨hnotin, -, -⟩ := h.head_fresh hwait
  rw [Conn.pending, Conn.pending, hwait, hwait', hemit,
    filter_cons_of_pos (by rw [live, hlive]; rfl), cons_append]
  rw [live_filter hnotin hst]

/-- The head of the emitted ones is completed. -/
theorem pending_finish {rest : List Nat} (h : Queues c)
    (hemit : c.emitted = id :: rest) (hemit' : c'.emitted = rest) (hwait : c'.waiting = c.waiting)
    (hst : ∀ i, i ≠ id → (c'.ops i).state = (c.ops i).state) :
    c.pending.Perm (id :: c'.pending) := by
  rw [Conn.pending, Conn.pending, hwait, hemit, hemit',
    live_filter (h.emitted_notin (hemit ▸ mem_cons_self)) hst]
  exact perm_middle

end Pending

/-! ## Texts -/

/-- White space to PostgreSQL. -/
def blank (c : Char) : Bool := [9, 10, 11, 12, 13, 32].contains c.toNat

/-- The word a text begins with, up to white space, in capitals. -/
def leadingWord (sql : String) : List Char :=
  ((sql.toList.dropWhile blank).takeWhile fun c => !blank c).map Char.toUpper

/-- The text begins with a word of letters, and it is not one of the names that the driver
    does not know. -/
def Spelled (sql : String) : Prop := leadingWord sql ≠ []
  ∧ ((leadingWord sql).all fun c => 'A' ≤ c ∧ c ≤ 'Z')
  ∧ leadingWord sql ∉ ["END".toList, "ABORT".toList, "PREPARE".toList]

instance (sql : String) : Decidable (Spelled sql) := inferInstanceAs (Decidable (_ ∧ _ ∧ _))

/-- **WHAT THE SERVER DOES** with such a text: the word says whether it controls a transaction. -/
def ByKeyword (control : String → Bool) : Prop := ∀ sql, Spelled sql →
  (control sql = true ↔ leadingWord sql ∈ ["BEGIN".toList, "START".toList, "COMMIT".toList,
    "ROLLBACK".toList, "SAVEPOINT".toList, "RELEASE".toList])

/-- A text that controls a transaction, or is not ASCII, is spelled that way. -/
def Plain (control : String → Bool) (sql : String) : Prop :=
  control sql = true ∨ (sql.toList.any fun c => 128 ≤ c.toNat) → Spelled sql

instance (control : String → Bool) (sql : String) : Decidable (Plain control sql) :=
  inferInstanceAs (Decidable (_ → _))

variable {p q : Char → Bool} {l : List Char}

/-- What is skipped does not change with more to skip, if the rest begins with neither. -/
theorem dropWhile_wider (hpq : ∀ c, p c = true → q c = true)
    (hhead : ∀ c ∈ (l.dropWhile p).head?, q c = false) : l.dropWhile q = l.dropWhile p := by
  induction l with
  | nil => rfl
  | cons c l ih =>
    by_cases hc : p c = true
    · rw [dropWhile_cons_of_pos hc] at hhead ⊢
      rw [dropWhile_cons_of_pos (hpq c hc), ih hhead]
    · rw [dropWhile_cons_of_neg hc] at hhead ⊢
      rw [dropWhile_cons_of_neg (by rw [hhead c rfl]; exact nofun)]

/-- A word without either ends at the same place. -/
theorem takeWhile_wider (hpq : ∀ c, p c = true → q c = true)
    (hword : ∀ c ∈ l.takeWhile fun c => !p c, q c = false) :
    (l.takeWhile fun c => !q c) = l.takeWhile fun c => !p c := by
  induction l with
  | nil => rfl
  | cons c l ih =>
    cases hc : p c with
    | true => simp [hc, hpq c hc]
    | false =>
      simp only [takeWhile_cons, hc, Bool.not_false, if_true, forall_mem_cons] at hword ⊢
      simp only [hword.1, Bool.not_false, if_true, ih hword.2]

theorem asciiSpace_eq : asciiSpace = blank := by
  funext c
  rw [Bool.eq_iff_iff, asciiSpace, blank]
  simp
  omega

theorem letter_range {c : Char} (h : 'A' ≤ c.toUpper ∧ c.toUpper ≤ 'Z') :
    65 ≤ c.toNat ∧ c.toNat ≤ 122 := by
  delta Char.toUpper at h
  split at h
  · rename_i hlower
    simp only [UInt32.le_iff_toNat_le] at hlower
    exact ⟨le_trans (by decide) hlower.1, hlower.2⟩
  · simp only [Char.le_def, UInt32.le_iff_toNat_le] at h
    exact ⟨h.1, le_trans h.2 (by decide)⟩

/-- A letter is no space and has one capital. -/
theorem letter_plain {c : Char} (h : 'A' ≤ c.toUpper ∧ c.toUpper ≤ 'Z') :
    pySpace c = false ∧ pyUpper c = [c.toUpper] := by
  obtain ⟨hlow, hhigh⟩ := letter_range h
  constructor
  · simp [pySpace]
    omega
  · rw [pyUpper]
    split
    case h_11 => rfl
    all_goals omega

/-- **A SPELLED WORD** is the same to both scans. -/
theorem spelled_word {sql : String} (h : Spelled sql) :
    (firstWord pySpace sql.toList).flatMap pyUpper = leadingWord sql := by
  obtain ⟨hne, hletters, -⟩ := h
  rw [all_eq_true] at hletters
  have hspace : ∀ c, blank c = true → pySpace c = true := by
    intro c hc
    rw [← asciiSpace_eq, asciiSpace] at hc
    rw [pySpace]
    simp at hc ⊢
    omega
  have hword : ∀ c ∈ (sql.toList.dropWhile blank).takeWhile fun c => !blank c,
      pySpace c = false ∧ pyUpper c = [c.toUpper] :=
    fun c hc => letter_plain (of_decide_eq_true (hletters c.toUpper (mem_map_of_mem hc)))
  have hdrop : sql.toList.dropWhile pySpace = sql.toList.dropWhile blank := by
    refine dropWhile_wider hspace fun c hc => (hword c ?_).1
    cases hrest : sql.toList.dropWhile blank with
    | nil => rw [hrest] at hc; cases hc
    | cons d rest =>
      rw [hrest] at hc
      cases hc
      have hd : blank c = false := by
        have := head_dropWhile_not blank (l := sql.toList) (by rw [hrest]; exact nofun)
        simpa [hrest] using this
      rw [takeWhile_cons_of_pos (by rw [hd]; rfl)]
      exact mem_cons_self
  rw [firstWord, hdrop, takeWhile_wider hspace fun c hc => (hword c hc).1, leadingWord,
    map_eq_flatMap]
  exact flatMap_congr fun c hc => (hword c hc).2

/-- `is_transaction_sql` goes by the word. -/
theorem marked_word {sql : String} (h : (sql.toList.any fun c => 128 ≤ c.toNat) → Spelled sql) :
    isTransactionSql sql = transactionKeywords.contains (leadingWord sql) := by
  rw [isTransactionSql]
  split
  · rw [asciiSpace_eq]
    rfl
  · rename_i hforeign
    rw [spelled_word (h ?_)]
    simpa using hforeign

theorem byKeyword_marked : ByKeyword isTransactionSql := by
  intro sql h
  rw [marked_word fun _ => h, contains_iff_mem]
  rfl

/-- **MARKED AS THE SERVER TREATS IT**: `is_transaction_sql` is right about a plain text. -/
theorem plain_marked {control : String → Bool} {sql : String} (hcontrol : ByKeyword control)
    (h : Plain control sql) : control sql = isTransactionSql sql := by
  have hkeywords : ∀ word ∈ transactionKeywords, word ≠ []
      ∧ (word.all fun c => 'A' ≤ c ∧ c ≤ 'Z')
      ∧ word ∉ ["END".toList, "ABORT".toList, "PREPARE".toList] := by decide
  rw [marked_word fun hforeign => h (.inr hforeign), Bool.eq_iff_iff, contains_iff_mem]
  by_cases hspelled : Spelled sql
  · exact hcontrol sql hspelled
  · refine iff_of_false (fun hc => hspelled (h (.inl hc))) fun hmem => hspelled ?_
    exact hkeywords _ hmem

/-! ## The condition on the events -/

/-- No transaction statement waits whose future was cancelled. -/
def Settled (c : Conn) : Prop := ∀ id ∈ c.waiting, (c.ops id).state = .waiting →
    (c.ops id).future = .cancelled → isTransactionSql (c.ops id).sql = false

instance (c : Conn) : Decidable (Settled c) := inferInstanceAs (Decidable (∀ id ∈ c.waiting, _))

/-- A submitted text is plain; no flush runs while a cancelled
    transaction statement waits for its caller; the backend answers what was sent to it, and
    stays idle over what does not control a transaction. -/
def Classified (control : String → Bool) (c : Conn) : Event → Prop
  | .submit r => Plain control r.sql
  | .flush _ => Settled c
  | .receive m => Serves c (.receive m)
      ∧ (m.kind = ch 'Z' → c.backendStatus = idle →
        (∀ id ∈ c.log[c.served]?, control (c.sqlOf id) = false) →
        m.payload.headD 0 = idle)
  | _ => True

instance (control : String → Bool) (c : Conn) : ∀ e, Decidable (Classified control c e)
  | .submit r => inferInstanceAs (Decidable (Plain control r.sql))
  | .flush _ => inferInstanceAs (Decidable (Settled c))
  | .receive _ => inferInstanceAs (Decidable (_ ∧ _))
  | .cancel _ | .resume _ | .drain | .read => isTrue trivial

variable {control : String → Bool}

theorem Classified.serves {c : Conn} {e : Event} (h : Classified control c e) : Serves c e := by
  cases e with
  | receive m => exact h.1
  | _ => trivial

/-! ## Every event is a sequence of turns -/

section Turns

variable {lim : Limits} {control : String → Bool} {c c' : Conn}

theorem preflight_none {sql : String} (h : preflight lim c sql = none) :
    (c.barrier = true ∨ c.status ≠ idle ∨ isTransactionSql sql = true → c.outstanding = 0) := by
  revert h
  fun_cases preflight lim c sql with
  | case6 _ _ hbarred hctl =>
    rintro - (hbar | hstat | hmark)
    · by_contra hbusy
      exact hbarred ⟨.inr hbar, hbusy⟩
    · by_contra hbusy
      exact hbarred ⟨.inl hstat, hbusy⟩
    · by_contra hbusy
      exact hctl ⟨hmark, hbusy⟩
  | _ => rintro ⟨⟩

theorem newOperation_sql (r : Request) (size : Nat) : (newOperation c r size).sql = r.sql := by
  rw [newOperation, Operation.withCloses, Operation.new.eq_def]
  split <;> rfl

section

variable (h : Queues c)
include h

theorem gate_admission {r : Request} (hclass : control r.sql = isTransactionSql r.sql)
    (hadm : Admission lim c r c') : Turns control isTransactionSql idle c.gate c'.gate := by
  cases hadm with
  | refused | unbuilt | oversize => exact .refl
  | admitted size _ hpre _ =>
    have hold : ∀ i ∈ c.pending, i ≠ c.sequence := by
      intro i hi
      refine (h.below i ?_).ne
      rcases mem_append.mp hi with hi | hi
      · exact mem_append_right _ (mem_filter.mp hi).1
      · refine mem_append_left _ ?_
        rw [h.log]
        exact mem_append_right _ hi
    let c' := (c.consult r.sql).takeCloses.hold c.sequence (newOperation c r size)
    have hself : c'.ops c.sequence = newOperation c r size := hold_ops_self
    have hne : ∀ {i}, i ≠ c.sequence → c'.ops i = c.ops i := fun hi => hold_ops_ne hi
    have hpend : c'.pending.Perm (c.sequence :: c.pending) := by
      show ((c.waiting ++ [c.sequence]).filter _ ++ c.emitted).Perm _
      have hfresh : c.sequence ∉ c.waiting := fun hi => (h.below _ (mem_append_right _ hi)).ne rfl
      rw [filter_append, live_filter hfresh fun i hi => congrArg Operation.state (hne hi),
        filter_singleton, live, hself,
        (newOperation_state c r size).1, append_assoc]
      exact perm_middle
    have hins : c'.gate.inside = r.sql ::ₘ c.gate.inside := by
      show ((c'.pending.map c'.sqlOf : List String) : Multiset String)
        = r.sql ::ₘ (c.pending.map c.sqlOf : List String)
      rw [Multiset.cons_coe, Multiset.coe_eq_coe]
      refine (hpend.map _).trans ?_
      rw [map_cons, Conn.sqlOf, hself, newOperation_sql]
      refine List.Perm.of_eq (congrArg (r.sql :: ·) ?_)
      refine map_congr_left fun i hi => ?_
      rw [Conn.sqlOf, Conn.sqlOf, hne (hold i hi)]
    have hgate : c'.gate = { c.gate with
          inside := r.sql ::ₘ c.gate.inside
          barrier := c.gate.barrier || isTransactionSql r.sql } := by
      refine State.ext hins ?_ rfl rfl
      show (c.barrier || isTransactionSql (newOperation c r size).sql) = _
      rw [newOperation_sql]
      rfl
    rw [hgate]
    refine .single (.enter c.gate r.sql (fun hbusy => ?_) hclass)
    rw [← Multiset.card_eq_zero, inside_card, h.pending_length]
    exact preflight_none hpre hbusy

theorem gate_move (hmove : Move c c') : c'.gate = c.gate := by
  cases hmove with
  | flags handle blocked => rfl
  | skip id rest _ hwait hst =>
    refine gate_congr (List.Perm.of_eq ?_) (fun _ => rfl) ⟨rfl, rfl, rfl⟩
    show rest.filter (live c) ++ c.emitted = c.waiting.filter (live c) ++ c.emitted
    rw [hwait, filter_cons_of_neg]
    rw [live, hst]
    rintro ⟨⟩
  | emit id rest _ hwait hst _ =>
    have hlive := (h.waiting id (hwait ▸ mem_cons_self)).resolve_right hst
    have hops : ∀ i, i ≠ id → (emit (c.popWaiting rest) id).ops i = c.ops i := fun i hi => if_neg hi
    refine gate_congr ?_ (fun i => ?_) ⟨rfl, rfl, rfl⟩
    · obtain ⟨hnotin, -, -⟩ := h.head_fresh hwait
      show (rest.filter _ ++ (c.emitted ++ [id])).Perm (c.waiting.filter (live c) ++ c.emitted)
      rw [live_filter hnotin fun i hi => congrArg Operation.state (hops i hi), hwait,
        filter_cons_of_pos (by rw [live, hlive]; rfl),
        ← append_assoc]
      exact perm_append_singleton _ _
    · show (if i = id then { c.ops i with state := OpState.emitted }
        else c.ops i).sql = _
      split <;> rfl

theorem gate_moves (hmoves : Moves c c') : Queues c' ∧ c'.gate = c.gate := by
  induction hmoves with
  | refl => exact ⟨h, rfl⟩
  | tail _ hmove ih =>
    exact ⟨ih.1.move hmove, (gate_move ih.1 hmove).trans ih.2⟩

/-- What leaves the waiting queue was not answered. -/
theorem gate_leave {id : Nat} (hpend : c.pending.Perm (id :: c'.pending))
    (hemit : c'.emitted = c.emitted) (hsql : ∀ i, c'.sqlOf i = c.sqlOf i)
    (hbar : c'.barrier = (c.barrier && !isTransactionSql (c.sqlOf id)))
    (hrest : c'.status = c.status ∧ c'.messages = c.messages) :
    Turn control isTransactionSql idle c.gate c'.gate := by
  have hgate : c'.gate = { c.gate with
      inside := c'.gate.inside
      barrier := c.gate.barrier && !isTransactionSql (c.sqlOf id) } := by
    refine State.ext rfl hbar hrest.1 ?_
    show statuses c'.messages = statuses c.messages
    rw [hrest.2]
  rw [hgate]
  refine .leave c.gate (c.sqlOf id) _ (inside_leave hpend hsql) ?_
  have hqueued := h.queued
  rw [inside_card, Conn.pending, length_append, hemit]
  show (statuses c.messages).length ≤ _
  rw [statuses_length]
  omega

theorem gate_drop (hdrop : Drop c c') (hset : Settled c) :
    Turn control isTransactionSql idle c.gate c'.gate := by
  cases hdrop with
  | intro id rest _ hwait hst hfut =>
    have hid : id ∈ c.waiting := hwait ▸ mem_cons_self
    have hlive := (h.waiting id hid).resolve_right hst
    refine gate_leave h (List.Perm.of_eq (pending_pop h hwait hlive rfl rfl
      fun i hi => ?_)) rfl (fun i => ?_) ?_ ⟨rfl, rfl⟩
    · exact congrArg Operation.state (modify_ops_ne hi)
    · exact modify_ops_field Operation.sql i fun _ => rfl
    · show c.barrier = (c.barrier && !isTransactionSql (c.ops id).sql)
      rw [hset id hid hlive hfut, Bool.not_false, Bool.and_true]

end

theorem Settled.shrink (h : Settled c) (hwait : ∀ i ∈ c'.waiting, i ∈ c.waiting)
    (hops : ∀ i, (c'.ops i).state = .waiting → c'.ops i = c.ops i) : Settled c' := by
  intro i hi hst
  have hsame := hops i hst
  rw [hsame] at hst ⊢
  exact h i (hwait i hi) hst

/-- A flush is a sequence of turns. -/
theorem gate_sweep (h : Queues c) (hset : Settled c) (hsweep : Sweep c c') :
    Turns control isTransactionSql idle c.gate c'.gate := by
  suffices hall : Queues c' ∧ Settled c'
      ∧ Turns control isTransactionSql idle c.gate c'.gate from hall.2.2
  induction hsweep with
  | refl => exact ⟨h, hset, .refl⟩
  | tail _ hlast ih =>
    obtain ⟨hqs, hset, hturns⟩ := ih
    rcases hlast with hmove | hdrop
    · refine ⟨hqs.move hmove, ?_, gate_move hqs hmove ▸ hturns⟩
      cases hmove with
      | flags handle blocked => exact hset
      | skip id rest _ hwait _ =>
        exact hset.shrink (fun i hi =>
          hwait ▸ mem_cons_of_mem _ hi) fun _ _ => rfl
      | emit id rest _ hwait _ _ =>
        refine hset.shrink (fun i hi =>
          hwait ▸ mem_cons_of_mem _ hi) fun i hst => ?_
        by_cases heq : i = id
        · rw [heq, emit_ops, if_pos rfl] at hst
          cases hst
        · exact if_neg heq
    · refine ⟨hqs.drop hdrop, ?_, hturns.tail (gate_drop hqs hdrop hset)⟩
      cases hdrop with
      | intro id rest _ hwait _ _ =>
        refine hset.shrink (fun i hi =>
          hwait ▸ mem_cons_of_mem _ hi) fun i hst => ?_
        by_cases heq : i = id
        · rw [heq, modify_ops_self] at hst
          cases hst
        · exact modify_ops_ne heq

/-- The answer of the head reaches the driver. -/
theorem gate_finish {id : Nat} {rest : List Nat} {status : UInt8}
    {later : List UInt8} (h : Queues c) (hemit : c.emitted = id :: rest)
    (hrest : c'.emitted = rest ∧ c'.waiting = c.waiting
      ∧ c'.status = status ∧ statuses c'.messages = later)
    (hbar : c'.barrier = (c.barrier && !isTransactionSql (c.sqlOf id)))
    (hst : ∀ i, i ≠ id → (c'.ops i).state = (c.ops i).state)
    (hsql : ∀ i, c'.sqlOf i = c.sqlOf i) : Turn control isTransactionSql idle
      { c.gate with queued := status :: later } c'.gate := by
  obtain ⟨hemit', hwait, hstat, hlater⟩ := hrest
  have hgate : c'.gate = ⟨c'.gate.inside,
      c.gate.barrier && !isTransactionSql (c.sqlOf id), status, later⟩ :=
    State.ext rfl hbar hstat hlater
  have hins := inside_leave (pending_finish h hemit hemit' hwait hst) hsql
  rw [hgate]
  exact .complete { c.gate with queued := status :: later } (c.sqlOf id) _ status later hins rfl

/-- A completion keeps the texts. -/
theorem finishOperation_sql (lim : Limits) (id i : Nat) :
    ((finishOperation lim c id).ops i).sql = (c.ops i).sql := by
  refine modify_ops_field Operation.sql i fun o => ?_
  obtain ⟨future, hfin⟩ := finish_eq o
  rw [hfin]

variable {m : Message}

/-- The backend answers the operation at the head of the ring. -/
theorem gate_answer (h : Queues c)
    (hclass : Classified control c (.receive m)) (hz : m.kind = ch 'Z') (hring : c.ring ≠ []) :
    Turn control isTransactionSql idle c.gate { c.gate with
      queued := c.gate.queued ++ [m.payload.headD 0] } := by
  obtain ⟨x, xs, hx⟩ := exists_cons_of_ne_nil hring
  refine .answer c.gate (m.payload.headD 0) ?_ fun hlast hfree => ?_
  · have hlen := congrArg List.length h.ring
    rw [length_drop, length_map, hx, length_cons] at hlen
    rw [inside_card, Conn.pending, length_append]
    show (statuses c.messages).length < _
    rw [statuses_length]
    omega
  · refine hclass.2 hz hlast fun id hid => hfree _ ?_
    obtain rfl : x.op = id := Option.some.inj ((h.head_log hx).symm.trans hid)
    have hmem : x.op ∈ c.pending := mem_append_right _ (h.ring_emitted (hx ▸ mem_cons_self))
    exact Multiset.mem_coe.mpr (mem_map_of_mem hmem)

theorem gate_completes (h : Queues c) (hclass : Classified control c (.receive m))
    (hcomp : Completes lim c m c') :
    Turns control isTransactionSql idle c.gate (c'.answered m).gate := by
  obtain ⟨hz, x, xs, rest, handle, hring, hemit, -, -, rfl⟩ := hcomp.completed
  have hnone := h.completes_none hring hemit
  have hqueued : c.gate.queued = [] := by
    rw [← length_eq_zero_iff]
    exact (statuses_length).trans hnone
  have hans := gate_answer h hclass hz (by rw [hring]; exact nofun)
  rw [hqueued, nil_append] at hans
  refine .head hans (.single ?_)
  exact gate_finish h hemit ⟨rfl, rfl, rfl, hqueued⟩ rfl
    (fun i hi => congrArg Operation.state (finishOperation_ops_ne lim _ hi))
    (finishOperation_sql lim x.op)

theorem gate_finishes (h : Queues c) (hmsgs : c.messages = m :: ms)
    (hfin : Finishes lim { c with messages := ms } m c') :
    Turn control isTransactionSql idle c.gate c'.gate := by
  obtain ⟨hz, id, rest, handle, hemit, rfl⟩ := hfin.finished
  have hgate : c.gate = { c.gate with
      queued := m.payload.headD 0 :: statuses ms } := by
    refine State.ext rfl rfl rfl ?_
    show statuses c.messages = _
    rw [hmsgs, statuses_cons, if_pos hz]
  rw [hgate]
  exact gate_finish h hemit ⟨rfl, rfl, rfl, rfl⟩ rfl
    (fun i hi => congrArg Operation.state (finishOperation_ops_ne lim _ hi))
    (finishOperation_sql lim id)

theorem gate_touched {c₁ : Conn} (htouch : Touched c c₁) : c₁.gate = c.gate := by
  have hst := htouch.field Operation.state fun _ => rfl
  have hsql := htouch.field Operation.sql fun _ => rfl
  rw [htouch.rest]
  exact gate_congr (.of_eq (pending_congr hst rfl rfl)) hsql ⟨rfl, rfl, rfl⟩

/-- A message that ends no answer is not seen. -/
theorem gate_consumed (hmsgs : c.messages = m :: ms) (hz : m.kind ≠ ch 'Z') {ops : Nat → Operation}
    (hst : ∀ i, (ops i).state = (c.ops i).state) (hsql : ∀ i, (ops i).sql = (c.ops i).sql) :
    { c with messages := ms, ops := ops }.gate = c.gate := by
  refine gate_congr (.of_eq (pending_congr hst rfl rfl)) hsql ⟨rfl, rfl, ?_⟩
  rw [hmsgs, statuses_cons, if_neg hz]

/-- An operation changes in what the gate does not see. -/
theorem turns_modify {id : Nat} {f : Operation → Operation} (hst : ∀ o, (f o).state = o.state)
    (hsql : ∀ o, (f o).sql = o.sql) :
    Turns control isTransactionSql idle c.gate (c.modify id f).gate := by
  rw [gate_congr (c := c) (.of_eq (pending_congr
    (fun i => modify_ops_field Operation.state i hst) rfl rfl))
    (fun i => modify_ops_field Operation.sql i hsql) ⟨rfl, rfl, rfl⟩]

/-- **EVERY EVENT** of the driver is a sequence of turns of its gate. -/
theorem gate_stepped {e : Event} (hcontrol : ByKeyword control) (h : Queues c)
    (hclass : Classified control c e) (hstep : Stepped lim c e c') :
    Turns control isTransactionSql idle c.gate c'.gate := by
  cases hstep with
  | submitted r c₁ _ hadm hmoves =>
    have hturns := gate_admission h (plain_marked hcontrol hclass) hadm
    rw [(gate_moves (h.admission hadm) hmoves).2]
    exact hturns
  | flushed blocked _ hsweep => exact gate_sweep h hclass hsweep
  | drained | settled => exact .refl
  | cancelled | discarded => exact turns_modify (fun _ => rfl) fun _ => rfl
  | tombstone id hfut hst =>
    have hfilter := h.tombstone_filter hst (by rw [hfut]; exact nofun)
    exact .single (gate_leave h (hfilter.append_right c.emitted) rfl
      (fun i => modify_ops_field (f := fun o => { o with state := .cancelled })
        Operation.sql i fun _ => rfl) rfl ⟨rfl, rfl⟩)
  | touched m c₁ _ htouch =>
    have hgate : (c₁.answered m).gate = c₁.gate := rfl
    rw [hgate, gate_touched htouch]
  | completed m c₁ hcomp => exact gate_completes h hclass hcomp
  | queued m c₁ htouch hsame =>
    obtain ⟨ring, direct, heq, -, -, -⟩ := queueMessage_fields c₁
    have hgate : ((queueMessage c₁ m.kind m.payload).answered m).gate
        = { c₁.gate with queued := statuses (c₁.messages ++ [m]) } := by
      rw [heq]
      rfl
    rw [hgate, statuses_append]
    by_cases hz : m.kind = ch 'Z'
    · rw [if_pos hz, hsame hz]
      exact .single (gate_answer h hclass hz (h.ring_of_served
        (hclass.1.resolve_left fun hasync => class_ne hasync rfl hz)))
    · rw [if_neg hz]
      exact (gate_touched htouch) ▸ .refl
  | finished m ms _ hmsgs hfin =>
    exact .single (gate_finishes h hmsgs hfin)
  | ignored m ms hmsgs hz _ =>
    have hgate : { c with messages := ms }.gate = c.gate :=
      gate_consumed hmsgs hz (fun _ => rfl) fun _ => rfl
    rw [hgate]
  | consumed m ms id rest o hmsgs hz _ hconsume =>
    have hgate : ({ c with messages := ms }.modify id fun _ => o).gate = c.gate :=
      gate_consumed hmsgs hz (consumed_field hconsume Operation.state fun _ => rfl)
        (consumed_field hconsume Operation.sql fun _ => rfl)
    rw [hgate]

end Turns

/-! ## Runs -/

/-- An open connection is a barred gate. -/
structure Guarded (control : String → Bool) (c : Conn) : Prop where
  queues : Queues c
  barred : Barred control isTransactionSql idle c.gate

theorem Guarded.step {lim : Limits} {c c' : Conn} {e : Event} (hcontrol : ByKeyword control)
    (h : c.closed = false → Guarded control c) (hclass : Classified control c e)
    (hstep : PgDriver.step lim c e = some c') (hopen : c'.closed = false) : Guarded control c' := by
  have hopened := step_opened hstep hopen
  have hstepped := step_stepped (h hopened).queues hopened hstep hopen
  exact ⟨(h hopened).queues.stepped hclass.serves hstepped, (h hopened).barred.turns
      (gate_stepped hcontrol (h hopened).queues hclass hstepped)⟩

/-- **TRANSACTIONS ARE ALONE.** Let the server go by the keyword a text begins with. In every run
    whose events are classified, while the connection is open: a statement that controls a
    transaction is the only one outstanding; at most one is while the status is not idle; the
    barrier stands exactly while such a statement is outstanding; and when none is and the status is
    idle, every other plain text is accepted as far as the pipeline has room. -/
theorem transactions_alone {control : String → Bool} (hcontrol : ByKeyword control) (lim : Limits)
    {events : List Event} {c : Conn}
    (hrun : exec (guarded (Classified control) (step lim)) .fresh events = some c)
    (hopen : c.closed = false) : c.pending.length = c.outstanding
      ∧ (∀ id ∈ c.pending, control (c.ops id).sql = true → c.pending = [id])
      ∧ (c.backendStatus ≠ idle ∨ c.status ≠ idle → c.outstanding ≤ 1)
      ∧ (c.barrier = true ↔ ∃ id ∈ c.pending, control (c.ops id).sql = true)
      ∧ (c.status = idle → (∀ id ∈ c.pending, control (c.ops id).sql = false) →
        ∀ sql, sql ≠ "" → Plain control sql → control sql = false →
          c.outstanding < lim.maxQueued → preflight lim c sql = none) := by
  have hinv : c.closed = false → Guarded control c := exec_guarded_invariant
      (fun _ _ _ hinv hclass hstep => Guarded.step hcontrol hinv hclass hstep)
      (fun _ => ⟨queues_fresh, barred_empty idle⟩) hrun
  have h := hinv hopen
  have hlength := h.queues.pending_length
  have hmem : ∀ id ∈ c.pending, (c.ops id).sql ∈ c.gate.inside :=
    fun id hid => Multiset.mem_coe.mpr (mem_map_of_mem (f := c.sqlOf) hid)
  have hright := h.barred.right
  have hbarrier : c.barrier = true ↔ ∃ id ∈ c.pending, control (c.ops id).sql = true := by
    refine h.barred.barrier.trans ⟨?_, ?_⟩
    · rintro ⟨s, hs, hmarked⟩
      obtain ⟨id, hid, rfl⟩ := mem_map.mp (Multiset.mem_coe.mp hs)
      exact ⟨id, hid, (hright _ (hmem id hid)).trans hmarked⟩
    · rintro ⟨id, hid, hcontrol⟩
      exact ⟨_, hmem id hid, (hright _ (hmem id hid)).symm.trans hcontrol⟩
  refine ⟨hlength, fun id hid hcontrol => ?_, fun hbusy => ?_, hbarrier,
    fun hstatus hfree sql hsql hplain hother hroom => ?_⟩
  · have hcard := congrArg Multiset.card (h.barred.control_alone (hmem id hid) hcontrol)
    rw [inside_card, Multiset.card_singleton, length_eq_one_iff] at hcard
    obtain ⟨other, hother⟩ := hcard
    rw [hother] at hid
    rw [hother, mem_singleton.mp hid]
  · have hcard := h.barred.busy_alone hbusy
    rwa [inside_card, hlength] at hcard
  · have hdown : c.barrier = false := by
      rw [← Bool.not_eq_true, hbarrier]
      rintro ⟨id, hid, hcontrol⟩
      exact nomatch (hfree id hid).symm.trans hcontrol
    rw [preflight, if_neg (by rw [Conn.over, hopen]; exact nofun), if_neg hsql, if_neg,
      if_neg, if_neg (Nat.not_le.mpr hroom)]
    · rw [← plain_marked hcontrol hplain, hother]
      exact fun h => nomatch h.1
    · rw [hstatus, hdown]
      rintro ⟨h | h, -⟩
      · exact h rfl
      · cases h

/-- A transaction is begun, and a statement sent in it. -/
def begun : List Event := [.submit ⟨"begin", .execute, some 60, false⟩, .receive ⟨ch '1', []⟩,
    .receive ⟨ch 't', [0, 0]⟩, .receive ⟨ch 'n', []⟩, .receive ⟨ch '2', []⟩,
    .receive ⟨ch 'C', [ch 'B', 0]⟩, .receive ⟨ch 'Z', [ch 'T']⟩, .read,
    .submit ⟨"SELECT 1", .fetchval, some 60, false⟩]

theorem begun_alone : ∃ c : Conn, exec (guarded (Classified isTransactionSql)
      (step roomy)) .fresh begun = some c
      ∧ c.closed = false ∧ c.status = ch 'T' ∧ c.outstanding ≤ 1 := by
  refine run_ends (fun c => (c.closed, c.status)) (false, ch 'T') (by decide) fun c hrun hc => ?_
  rw [Prod.mk.injEq] at hc
  obtain ⟨-, -, halone, -⟩ := transactions_alone byKeyword_marked roomy hrun hc.1
  exact ⟨hc.1, hc.2, halone (.inr (by rw [hc.2]; decide))⟩

/-- A statement with its semicolon, and another one. -/
def unmarked : List Event :=
  [.submit ⟨"BEGIN;", .execute, some 60, false⟩, .submit ⟨"SELECT 1", .fetchval, some 60, false⟩]

/-- One statement is emitted at a time. -/
def oneAtATime : Limits := { roomy with maxEmitted := 1 }

/-- The second caller is cancelled when the answer to the first is there. The reader completes the
    first and schedules a flush; the second caller wakes and begins a transaction instead; the first
    wakes and cancels it once more; and the flush finds a `BEGIN` whose caller has not run since. -/
def dropped : List Event := [.submit ⟨"SELECT 1", .fetchval, some 60, false⟩,
    .submit ⟨"SELECT 2", .fetchval, some 60, false⟩, .flush false]
    ++ coldAnswer 49
    ++ [.cancel 1, .read, .resume 1, .submit ⟨"BEGIN", .execute, some 60, false⟩, .cancel 2,
      .flush false, .resume 2, .submit ⟨"SELECT 3", .fetchval, some 60, false⟩]

/-- **THE BARRIER IS LEFT BEHIND**, and a text with a semicolon has none. -/
theorem barrier_left_behind : (∃ c : Conn, exec (step roomy) .fresh unmarked = some c
      ∧ c.closed = false ∧ c.pending = [1, 0] ∧ (c.ops 0).sql = "BEGIN;")
    ∧ ∃ c : Conn, exec (guarded Orderly (step oneAtATime)) .fresh dropped = some c
      ∧ c.closed = false ∧ c.status = idle ∧ c.pending = [3]
      ∧ (c.ops 3).sql = "SELECT 3"
      ∧ preflight oneAtATime c "SELECT 4" = some .inTransaction := by
  constructor
  · refine run_ends (fun c => (c.closed, c.pending, (c.ops 0).sql)) (false, [1, 0], "BEGIN;")
      (by decide) fun c _ hc => ?_
    simpa only [Prod.mk.injEq] using hc
  · refine run_ends (fun c => (c.closed, c.status, c.pending, (c.ops 3).sql,
        preflight oneAtATime c "SELECT 4")) (false, idle, [3], "SELECT 3", some .inTransaction)
      (by decide) fun c _ hc => ?_
    simpa only [Prod.mk.injEq] using hc

end PgDriver
