import Wreath.PgPipelineProofs

/-! # Prepared statements — kept, or closed once and for good

A name is *alive* while the cache holds its plan or an operation is going to put it there,
and *doomed* once it waits to be closed or an operation carries its `Close`. No name is both
(`Statements`), so nothing binds a name behind its `Close`. That none is lost in between
(`Retained`) takes more than the driver does: a plan stored over another, a cold operation
that fails after its `Parse`, and a packet with `Close` that is never sent each lose one
(`statements_kept`, `statements_lost`). -/

namespace PgDriver

open ByteScan PgMessage List StepSystem

/-! ## Names -/

/-- What an operation is submitted with and keeps. -/
def Operation.plate (o : Operation) : Operation :=
  { o.core with state := .waiting, future := .pending, discarded := false }

section Plate

variable {o o' : Operation}

theorem plate_name (h : o'.plate = o.plate) : o'.name = o.name :=
  (congrArg Operation.name h : o'.plate.name = o.plate.name)

theorem plate_cold (h : o'.plate = o.plate) : o'.cold = o.cold :=
  (congrArg Operation.cold h : o'.plate.cold = o.plate.cold)

theorem plate_packet (h : o'.plate = o.plate) : o'.packet = o.packet :=
  (congrArg Operation.packet h : o'.plate.packet = o.plate.packet)

theorem cancelled_plate (ops : Nat → Operation) (id i : Nat) :
    (if i = id then { ops i with state := .cancelled } else ops i).plate = (ops i).plate := by
  split <;> rfl

end Plate

variable (c : Conn)

/-- The names the cache holds. -/
def Conn.planNames : List Nat := c.plans.entries.map fun e => e.value.name

/-- The names that are going to be in the cache. -/
def Conn.coldNames : List Nat :=
  ((c.waiting ++ c.emitted).filter fun id => (c.ops id).cold).map fun id => (c.ops id).name

def Conn.alive : List Nat := c.planNames ++ c.coldNames

/-- Everything that was admitted, in its order on the wire. -/
def Conn.admitted : List Nat := c.log ++ c.waiting

def Conn.packetOf (id : Nat) : List Frontend := (c.ops id).packet

/-- The name is going to be closed, or is. -/
def Doomed (n : Nat) : Prop :=
  n ∈ c.pendingCloses ∨ ∃ id ∈ c.admitted, Frontend.close n ∈ c.packetOf id

/-- **STATEMENTS**: no name is alive and doomed, and none is used behind its `Close`. -/
structure Statements (c : Conn) : Prop where
  queues : Queues c
  clean : c.plans.evicted = []
  sent : c.sent = c.log.flatMap c.packetOf
  binds : ∀ id ∈ c.admitted, ∀ n, Frontend.bind n ∈ c.packetOf id → n = (c.ops id).name
  own : ∀ id ∈ c.admitted, Frontend.close (c.ops id).name ∉ c.packetOf id
  order : c.admitted.Pairwise fun i j =>
    Frontend.close (c.ops j).name ∉ c.packetOf i
  alive : c.alive.Nodup
  bound : ∀ n ∈ c.alive, n ≤ c.statementId
  doomed : ∀ n, Doomed c n → n ∉ c.alive ∧ n ≤ c.statementId

theorem statements_fresh : Statements .fresh where
  queues := queues_fresh
  clean := rfl
  sent := rfl
  binds := nofun
  own := nofun
  order := .nil
  alive := nodup_nil
  bound := nofun
  doomed
    | _, .inl h => absurd h not_mem_nil
    | _, .inr ⟨_, h, _⟩ => absurd h not_mem_nil

section Frame

variable {c c' : Conn}

/-- The operations that are going to be in the cache, under names that do not change. -/
theorem coldNames_of_plate (hplate : ∀ i, (c'.ops i).plate = (c.ops i).plate) :
    c'.coldNames = ((c'.waiting ++ c'.emitted).filter fun id => (c.ops id).cold).map
      fun id => (c.ops id).name := by
  rw [Conn.coldNames, funext fun i => plate_cold (hplate i), funext fun i => plate_name (hplate i)]

section

variable (h : Statements c) (hqs : Queues c') (hplate : ∀ i, (c'.ops i).plate = (c.ops i).plate)
include h hqs hplate

/-- No operation is added: what is alive was so before, and what is to be closed was so or
    is not alive any more. -/
theorem Statements.keep (hclean : c'.plans.evicted = []) (hadm : c'.admitted.Sublist c.admitted)
    (hsent : c'.sent = c'.log.flatMap c.packetOf) (halive : c'.alive.Nodup)
    (hmem : ∀ n ∈ c'.alive, n ∈ c.alive) (hle : c.statementId ≤ c'.statementId)
    (hcls : ∀ n ∈ c'.pendingCloses, n ∈ c.pendingCloses ∨ n ∈ c.alive ∧ n ∉ c'.alive) :
    Statements c' := by
  have hpacket : c'.packetOf = c.packetOf := funext fun i => plate_packet (hplate i)
  have hname : ∀ i, (c'.ops i).name = (c.ops i).name := fun i => plate_name (hplate i)
  refine ⟨hqs, hclean, hpacket ▸ hsent, fun i hi n hn => ?_, fun i hi => ?_, ?_, halive,
    fun n hn => (h.bound n (hmem n hn)).trans hle, fun n hn => ?_⟩
  · rw [hname]
    exact h.binds i (hadm.subset hi) n (hpacket ▸ hn)
  · rw [hname, hpacket]
    exact h.own i (hadm.subset hi)
  · rw [hpacket]
    simp only [hname]
    exact h.order.sublist hadm
  · have hdoomed : Doomed c n ∨ n ∈ c.alive ∧ n ∉ c'.alive := by
      rcases hn with hn | ⟨i, hi, hn⟩
      · exact (hcls n hn).imp_left .inl
      · exact .inl (.inr ⟨i, hadm.subset hi, hpacket ▸ hn⟩)
    rcases hdoomed with hdoomed | ⟨hwas, hgone⟩
    · exact ⟨fun hn => (h.doomed n hdoomed).1 (hmem n hn), (h.doomed n hdoomed).2.trans hle⟩
    · exact ⟨hgone, (h.bound n hwas).trans hle⟩

/-- The names stay where they are; the waiting ones may become fewer. -/
theorem Statements.frame (hadm : c'.admitted.Sublist c.admitted)
    (hsent : c'.sent = c'.log.flatMap c.packetOf)
    (halive : ∃ ids, (c'.waiting ++ c'.emitted).Sublist ids ∧ ids.Perm (c.waiting ++ c.emitted))
    (hrest : c'.plans = c.plans ∧ c'.pendingCloses = c.pendingCloses
      ∧ c'.statementId = c.statementId) : Statements c' := by
  obtain ⟨hplans, hcls, hstmt⟩ := hrest
  -- what is alive now was so before
  obtain ⟨ids, hsub, hperm⟩ := halive
  have hnames : c'.alive.Sublist (c.planNames
      ++ (ids.filter fun id => (c.ops id).cold).map fun id => (c.ops id).name) := by
    rw [Conn.alive, Conn.planNames, hplans, coldNames_of_plate hplate]
    exact ((hsub.filter _).map _).append_left _
  have hsame : (c.planNames ++ (ids.filter fun id => (c.ops id).cold).map
      fun id => (c.ops id).name).Perm c.alive :=
    ((hperm.filter _).map _).append_left _
  exact h.keep hqs hplate (hplans ▸ h.clean) hadm hsent
    ((hsame.nodup_iff.mpr h.alive).sublist hnames) (fun n hn => hsame.subset (hnames.subset hn))
    hstmt.ge fun n hn => .inl (hcls ▸ hn)

end

end Frame

/-! ## Flushing -/

section Changes

variable {lim : Limits} {c c' : Conn}

/-- The waiting queue loses its head. -/
theorem Statements.pop (h : Statements c) {ops : Nat → Operation} {id count : Nat} {rest : List Nat}
    (hqs : Queues { c with ops := ops, waiting := rest, waitingLive := count })
    (hplate : ∀ i, (ops i).plate = (c.ops i).plate) (hwait : c.waiting = id :: rest) :
    Statements { c with ops := ops, waiting := rest, waitingLive := count } := by
  have hsub : rest.Sublist c.waiting := hwait ▸ sublist_cons_self id rest
  exact h.frame hqs hplate (hsub.append_left _) h.sent ⟨_, hsub.append_right _, .refl _⟩
    ⟨rfl, rfl, rfl⟩

/-- What the invariant reads besides the operations. -/
def Conn.wire (c : Conn) :=
  (c.log, c.waiting, c.emitted, c.sent, c.plans, c.pendingCloses, c.statementId)

/-- The queues, the names and the wire are left alone. -/
theorem Statements.still (h : Statements c) (hqs : Queues c')
    (hplate : ∀ i, (c'.ops i).plate = (c.ops i).plate) (hwire : c'.wire = c.wire) :
    Statements c' := by
  cases c
  cases c'
  cases hwire
  exact h.frame hqs hplate (.refl _) h.sent ⟨_, .refl _, .refl _⟩ ⟨rfl, rfl, rfl⟩

theorem Statements.move (h : Statements c) (hmove : Move c c') : Statements c' := by
  have hqs := h.queues.move hmove
  cases hmove with
  | flags handle blocked =>
    exact h.still hqs (fun _ => rfl) rfl
  | skip id rest _ hwait _ => exact h.pop hqs (fun _ => rfl) hwait
  | emit id rest _ hwait _ _ =>
    refine h.frame hqs (fun i => ?_) ?_ ?_ ⟨_, .refl _, ?_⟩ ⟨rfl, rfl, rfl⟩
    · rw [emit_ops]
      rfl
    · show (c.log ++ [id] ++ rest).Sublist (c.log ++ c.waiting)
      rw [hwait, append_assoc]
      exact .refl _
    · show c.sent ++ c.packetOf id = (c.log ++ [id]).flatMap c.packetOf
      rw [flatMap_append, ← h.sent, flatMap_singleton]
    · show (rest ++ (c.emitted ++ [id])).Perm (c.waiting ++ c.emitted)
      rw [hwait, ← append_assoc]
      exact perm_append_singleton _ _

theorem Statements.drop (h : Statements c) (hdrop : Drop c c') : Statements c' := by
  have hqs := h.queues.drop hdrop
  cases hdrop with
  | intro id rest _ hwait _ _ =>
    exact h.pop hqs (fun i => cancelled_plate c.ops id i) hwait

/-! ## Completion -/

/-- What a completion does to the names: those that go are to be closed, and one is added at
    most. -/
theorem keepPlan_names (hclean : c.plans.evicted = []) (o : Operation) : ∃ gone,
    (keepPlan lim c o).2 = c.pendingCloses ++ gone ∧ (keepPlan lim c o).1.evicted = []
      ∧ (gone ++ (keepPlan lim c o).1.entries.map fun e => e.value.name).Sublist
        (c.planNames ++ if o.cold then [o.name] else []) := by
  rw [keepPlan]
  split
  · rename_i hkeep
    have hpairs := (Kv.set_sublist lim.cache c.plans o.sql
      ⟨o.name, o.columns⟩ (lim.planCost o.sql ⟨o.name, o.columns⟩)).map
      fun p => p.2.name
    refine ⟨_, rfl, rfl, ?_⟩
    rw [hkeep.1, if_pos rfl]
    rw [map_append, Kv.Table.pairs, Kv.Table.pairs, hclean,
      nil_append, map_append, map_map, map_map] at hpairs
    exact hpairs
  · refine ⟨[], (append_nil _).symm, hclean, ?_⟩
    exact sublist_append_left _ _

theorem Statements.finish (h : Statements c) (hqs : Queues c') {id : Nat}
    {rest : List Nat} (hemit : c.emitted = id :: rest)
    (hplate : ∀ i, (c'.ops i).plate = (c.ops i).plate)
    (hplans : c'.plans = (keepPlan lim c (c.ops id)).1)
    (hcls : c'.pendingCloses = (keepPlan lim c (c.ops id)).2)
    (hrest : c'.emitted = rest ∧ c'.waiting = c.waiting ∧ c'.log = c.log
      ∧ c'.sent = c.sent ∧ c'.statementId = c.statementId) : Statements c' := by
  obtain ⟨hemit', hwait, hlog, hsent, hstmt⟩ := hrest
  obtain ⟨gone, hgone, hclean, hnames⟩ := keepPlan_names h.clean (c.ops id)
  have hadm : c'.admitted = c.admitted := by
    rw [Conn.admitted, Conn.admitted, hlog, hwait]
  -- the names that went and those alive now were alive before
  have hcold : c.coldNames.Perm
      ((if (c.ops id).cold then [(c.ops id).name] else []) ++ c'.coldNames) := by
    rw [Conn.coldNames, coldNames_of_plate hplate, hwait, hemit', hemit]
    refine ((perm_middle.filter _).map _).trans (.of_eq ?_)
    rw [filter_cons]
    split
    · rfl
    · rfl
  have halive : (gone ++ c'.alive).Sublist
      (c.planNames ++ ((if (c.ops id).cold then [(c.ops id).name] else []) ++ c'.coldNames)) := by
    rw [Conn.alive, ← append_assoc, ← append_assoc]
    refine List.Sublist.append_right ?_ _
    rw [Conn.planNames, hplans]
    exact hnames
  have hbef : (c.planNames ++ ((if (c.ops id).cold then [(c.ops id).name]
      else []) ++ c'.coldNames)).Perm c.alive := hcold.symm.append_left _
  have hnd := (hbef.nodup_iff.mpr h.alive).sublist halive
  rw [nodup_append] at hnd
  have hmem : ∀ n ∈ gone ++ c'.alive, n ∈ c.alive := fun n hn => hbef.subset (halive.subset hn)
  refine h.keep hqs hplate (hplans ▸ hclean) (hadm ▸ .refl _) ?_ hnd.2.1
    (fun n hn => hmem n (mem_append_right _ hn)) hstmt.ge fun n hn => ?_
  · rw [hsent, hlog]
    exact h.sent
  · rw [hcls, hgone] at hn
    exact (mem_append.mp hn).imp_right fun hwent =>
      ⟨hmem n (mem_append_left _ hwent), fun hn => hnd.2.2 n hwent n hn rfl⟩

/-! ## Submission -/

theorem consult_planNames (c : Conn) (sql : String) : (c.consult sql).planNames.Perm c.planNames :=
  (Kv.get_perm).map _

theorem consult_statementId (c : Conn) (sql : String) :
    c.statementId ≤ (c.consult sql).statementId := by
  show c.statementId ≤ if (Kv.get c.plans sql).1.isNone then c.statementId + 1
    else c.statementId
  split <;> omega

/-- A submission that is refused may take names off the list of those to close. -/
theorem Statements.consult (h : Statements c) {sql : String} {closes : List Nat}
    (hqs : Queues { c.consult sql with pendingCloses := closes })
    (hclose : ∀ n ∈ closes, n ∈ c.pendingCloses) :
    Statements { c.consult sql with pendingCloses := closes } := by
  have halive : Conn.alive { c.consult sql with pendingCloses := closes } |>.Perm c.alive :=
    (consult_planNames c sql).append_right _
  exact h.keep hqs (fun _ => rfl) (Kv.get_evicted.trans h.clean) (.refl _) h.sent
    (halive.nodup_iff.mpr h.alive) (fun n hn => halive.subset hn) (consult_statementId c sql)
    fun n hn => .inl (hclose n hn)

/-- The name of a new operation, and those its packet closes and binds. -/
theorem newOperation_names (c : Conn) (r : Request) (size : Nat) :
    ((newOperation c r size).cold = true → (newOperation c r size).name = c.statementId + 1
        ∧ (c.consult r.sql).statementId = c.statementId + 1)
    ∧ ((newOperation c r size).cold = false → (newOperation c r size).name ∈ c.planNames)
    ∧ (∀ n, Frontend.close n ∈ (newOperation c r size).packet ↔ n ∈ (closesPrefix c).1)
    ∧ ∀ n, Frontend.bind n ∈ (newOperation c r size).packet → n = (newOperation c r size).name := by
  have hfound := @Kv.get_some String Plan _ c.plans r.sql
  rw [newOperation, Operation.withCloses, Operation.new.eq_def]
  cases hget : (Kv.get c.plans r.sql).1 with
  | none =>
    refine ⟨fun _ => ⟨rfl, ?_⟩, (by rintro ⟨⟩), fun n => ?_, fun n => ?_⟩
    · show (if (Kv.get c.plans r.sql).1.isNone then c.statementId + 1
        else c.statementId) = _
      rw [hget]
      rfl
    · simp only [coldPacket]
      split <;> simp
    · simp only [coldPacket]
      split <;> simp
  | some p =>
    refine ⟨(by rintro ⟨⟩), fun _ => ?_, fun n => ?_, fun n => ?_⟩
    · obtain ⟨e, he, heq⟩ := mem_map.mp (hfound hget)
      refine mem_map.mpr ⟨e, he, ?_⟩
      exact congrArg Plan.name (congrArg Prod.snd heq)
    · simp [cachedPacket]
    · simp [cachedPacket]

theorem Statements.admit (h : Statements c) (r : Request) (size : Nat) :
    Statements ((c.consult r.sql).takeCloses.hold c.sequence (newOperation c r size)) := by
  have hqs := h.queues.admit r size
  obtain ⟨hcold, hwarm, hcls, hbinds⟩ := newOperation_names c r size
  generalize ho : newOperation c r size = o at *
  set c' := (c.consult r.sql).takeCloses.hold c.sequence o
  have hself : c'.ops c.sequence = o := hold_ops_self
  have hne : ∀ i ∈ c.admitted, c'.ops i = c.ops i :=
    fun i hi => hold_ops_ne (h.queues.below i hi).ne
  have hadm : c'.admitted = c.admitted ++ [c.sequence] := (append_assoc ..).symm
  have hstmt : c'.statementId = (c.consult r.sql).statementId := rfl
  have hle := consult_statementId c r.sql
  -- a name that is taken or new is not doomed
  have hfree : ¬ Doomed c o.name := by
    intro hdoomed
    obtain ⟨hdead, hbound⟩ := h.doomed _ hdoomed
    cases hc : o.cold with
    | true =>
      have := (hcold hc).1
      omega
    | false => exact hdead (mem_append_left _ (hwarm hc))
  have hpend : ∀ n, Frontend.close n ∈ o.packet → n ∈ c.pendingCloses :=
    fun n hn => (mem_filter.mp ((hcls n).mp hn)).1
  have hnames : c'.alive.Perm ((if o.cold then [o.name] else []) ++ c.alive) := by
    have hplans : c'.planNames.Perm c.planNames := consult_planNames c r.sql
    have hids : (c'.waiting ++ c'.emitted).Perm (c.sequence :: (c.waiting ++ c.emitted)) := by
      show (c.waiting ++ [c.sequence] ++ c.emitted).Perm _
      rw [append_assoc]
      exact perm_middle
    have hold : ∀ i ∈ c.waiting ++ c.emitted, c'.ops i = c.ops i := by
      intro i hi
      refine hne i ?_
      rcases mem_append.mp hi with hi | hi
      · exact mem_append_right _ hi
      · rw [Conn.admitted, h.queues.log]
        exact mem_append_left _ (mem_append_right _ hi)
    have hsame : ((c.waiting ++ c.emitted).filter
        fun i => (c'.ops i).cold).map (fun i => (c'.ops i).name)
        = c.coldNames := by
      rw [Conn.coldNames, filter_congr fun i hi => by rw [hold i hi]]
      exact map_congr_left fun i hi => by
        rw [hold i (mem_filter.mp hi).1]
    have hcolds : c'.coldNames.Perm ((if o.cold then [o.name] else []) ++ c.coldNames) := by
      refine ((hids.filter _).map _).trans (.of_eq ?_)
      rw [filter_cons, hself, ← hsame]
      split
      · rw [map_cons, hself]
        rfl
      · rfl
    refine (hplans.append hcolds).trans ?_
    rw [Conn.alive, ← append_assoc, ← append_assoc]
    exact perm_append_comm.append_right _
  have hnew : ∀ n, n ∈ (if o.cold then [o.name] else []) →
      n = c.statementId + 1 ∧ c'.statementId = c.statementId + 1 := by
    intro n hn
    split at hn
    · rename_i hc
      rw [mem_singleton.mp hn, hstmt]
      exact hcold hc
    · exact absurd hn not_mem_nil
  -- what holds of the operations before and of the new one
  have hall : ∀ {P : Operation → Prop}, (∀ i ∈ c.admitted, P (c.ops i)) → P o →
      ∀ i ∈ c'.admitted, P (c'.ops i) := by
    intro P hold hnew
    rw [hadm, forall_mem_append, forall_mem_singleton, hself]
    exact ⟨fun i hi => hne i hi ▸ hold i hi, hnew⟩
  have hdoomed : ∀ n, Doomed c' n → Doomed c n := by
    rintro n (hn | ⟨i, hi, hn⟩)
    · exact .inl (mem_filter.mp hn).1
    · exact hall (P := fun o => ∀ n, Frontend.close n ∈ o.packet → Doomed c n)
        (fun i hi n hn => .inr ⟨i, hi, hn⟩) (fun n hn => .inl (hpend n hn)) i hi n hn
  refine ⟨hqs, ?_, ?_, hall (P := fun o => ∀ n, Frontend.bind n ∈ o.packet → n = o.name)
      h.binds hbinds, hall (P := fun o => Frontend.close o.name ∉ o.packet) h.own
      fun hn => hfree (.inl (hpend _ hn)), ?_, ?_, fun n hn => ?_, fun n hn => ?_⟩
  · exact (Kv.get_evicted).trans h.clean
  · refine h.sent.trans ?_
    refine flatMap_congr fun i hi => ?_
    rw [Conn.packetOf, Conn.packetOf, hne i (mem_append_left _ hi)]
  · rw [hadm, pairwise_append]
    refine ⟨?_, pairwise_singleton _ _, fun i hi j hj => ?_⟩
    · refine h.order.imp_of_mem fun hi hj hclose => ?_
      rw [Conn.packetOf, hne _ hi, hne _ hj]
      exact hclose
    · rw [mem_singleton.mp hj, Conn.packetOf, hne i hi, hself]
      exact fun hn => hfree (.inr ⟨i, hi, hn⟩)
  · rw [hnames.nodup_iff, nodup_append]
    refine ⟨?_, h.alive, fun n hn k hk heq => ?_⟩
    · split
      · exact nodup_singleton _
      · exact nodup_nil
    · have := (hnew n hn).1
      have := h.bound k hk
      omega
  · rcases mem_append.mp (hnames.subset hn) with hn | hn
    · have := hnew n hn
      omega
    · rw [hstmt]
      exact (h.bound n hn).trans hle
  · obtain ⟨hdead, hbound⟩ := h.doomed n (hdoomed n hn)
    refine ⟨fun hn => ?_, hstmt ▸ hbound.trans hle⟩
    rcases mem_append.mp (hnames.subset hn) with hn | hn
    · have := (hnew n hn).1
      omega
    · exact hdead hn

theorem Statements.admission {r : Request} (h : Statements c)
    (hadm : Admission lim c r c') : Statements c' := by
  have hqs := h.queues.admission hadm
  cases hadm with
  | refused => exact h
  | unbuilt _ => exact h.consult hqs fun _ => id
  | oversize size _ _ _ => exact h.consult hqs fun _ hn => (mem_filter.mp hn).1
  | admitted size _ _ _ => exact h.admit r size

theorem finish_plate (o : Operation) : o.finish.plate = o.plate := by
  obtain ⟨future, hfin⟩ := finish_eq o
  rw [hfin]
  rfl

/-- What an event other than a submission keeps. -/
theorem stepped_plate {e : Event} (hstep : Stepped lim c e c')
    (hother : ∀ r, e ≠ .submit r) (i : Nat) : (c'.ops i).plate = (c.ops i).plate := by
  refine hstep.keeps (P := fun o => o.plate = (c.ops i).plate) (fun o o' hcore h => ?_)
    (fun _ _ _ h => h) (fun o h => (finish_plate o).trans h) (fun _ _ h => h)
    (fun r _ he => absurd he (hother r)) rfl
  rw [Operation.plate, hcore]
  exact h

/-- **THE NAMES** are kept apart by every event. -/
theorem Statements.stepped {e : Event} (h : Statements c)
    (hserve : Serves c e) (hstep : Stepped lim c e c') : Statements c' := by
  have hqs := h.queues.stepped hserve hstep
  have hplate := stepped_plate hstep
  cases hstep with
  | submitted r c₁ _ hadm hmoves =>
    clear hplate hqs
    induction hmoves with
    | refl => exact h.admission hadm
    | tail _ hmove ih => exact ih.move hmove
  | flushed blocked _ hsweep =>
    clear hplate hqs
    induction hsweep with
    | refl => exact h
    | tail _ hlast ih => exact hlast.elim ih.move ih.drop
  | drained | cancelled | tombstone | discarded | ignored | consumed =>
    exact h.still hqs (hplate nofun) rfl
  | settled id => exact h
  | touched m c₁ _ htouch =>
    refine h.still hqs (hplate nofun) ?_
    rw [htouch.rest]
    rfl
  | completed m c₁ hcomp =>
    obtain ⟨-, x, xs, rest, handle, -, hemit, -, -, rfl⟩ := hcomp.completed
    exact h.finish hqs hemit (hplate nofun) rfl rfl ⟨rfl, rfl, rfl, rfl, rfl⟩
  | queued m c₁ htouch _ =>
    refine h.still hqs (hplate nofun) ?_
    obtain ⟨ring, direct, heq, -, -, -⟩ := queueMessage_fields c₁
    rw [heq, htouch.rest]
    rfl
  | finished m ms _ hmsgs hfin =>
    obtain ⟨-, id, rest, handle, hemit, rfl⟩ := hfin.finished
    exact h.finish hqs hemit (hplate nofun) rfl rfl ⟨rfl, rfl, rfl, rfl, rfl⟩

/-- **NO BIND BEHIND A CLOSE.** -/
theorem Statements.closed_last (h : Statements c) {before after : List Frontend}
    {n : Nat} (hsent : c.sent = before ++ .close n :: after) : Frontend.bind n ∉ after := by
  have hwire : c.sent.Pairwise fun f g => ∀ n, f = .close n → g ≠ .bind n := by
    have hlog : ∀ i ∈ c.log, i ∈ c.admitted := fun _ hi =>
      mem_append_left _ hi
    rw [h.sent, pairwise_flatMap]
    constructor
    · intro i hi
      refine pairwise_of_forall_mem_list fun f hf g hg n hclose hbind => ?_
      rw [h.binds i (hlog i hi) n (hbind ▸ hg)] at hclose
      exact h.own i (hlog i hi) (hclose ▸ hf)
    · have horder := h.order.sublist (sublist_append_left c.log c.waiting)
      refine horder.imp_of_mem fun _ hj hapart f hf g hg n hclose hbind => ?_
      rw [h.binds _ (hlog _ hj) n (hbind ▸ hg)] at hclose
      exact hapart (hclose ▸ hf)
  rw [hsent, pairwise_append, pairwise_cons] at hwire
  exact fun hbind => hwire.2.1.1 _ hbind n rfl rfl

end Changes

/-! ## No name is lost -/

/-- The driver still knows the name, or has closed it. -/
def Held (n : Nat) : Prop :=
  n ∈ c.planNames ∨ n ∈ c.pendingCloses ∨ (∃ id ∈ c.waiting, (c.ops id).state = .waiting
      ∧ Frontend.close n ∈ c.packetOf id)
    ∨ Frontend.close n ∈ c.sent

/-- The backend has prepared the statement of an operation. -/
def Parsed (a : List Message) : Prop := ∃ m ∈ a, m.kind = ch '1'

/-- **RETAINED**: what was prepared is held, and what was cancelled while it waits carries
    no `Close`. -/
structure Retained (c : Conn) : Prop where
  carried : ∀ id ∈ c.waiting, (c.ops id).state = .waiting →
    (c.ops id).future = .cancelled → ∀ n, Frontend.close n ∉ c.packetOf id
  kept : ∀ (k id : Nat), c.finished[k]? = some id →
    (c.ops id).cold = true → Parsed (c.answers k) → Held c (c.ops id).name

section Retain

variable {lim : Limits} {c c' : Conn}

theorem Held.mono {n : Nat} (h : Held c n)
    (hplans : ∀ n ∈ c.planNames, n ∈ c'.planNames ∨ n ∈ c'.pendingCloses)
    (hcls : ∀ n ∈ c.pendingCloses, Held c' n)
    (hwait : ∀ id ∈ c.waiting, (c.ops id).state = .waiting → id ∈ c'.waiting ∧ c'.ops id = c.ops id
      ∨ ∀ n, Frontend.close n ∈ c.packetOf id → Held c' n)
    (hsent : ∀ f ∈ c.sent, f ∈ c'.sent) : Held c' n := by
  rcases h with hn | hn | ⟨id, hid, hst, hn⟩ | hn
  · exact (hplans n hn).elim .inl fun hn => .inr (.inl hn)
  · exact hcls n hn
  · rcases hwait id hid hst with ⟨hid, hops⟩ | hheld
    · refine .inr (.inr (.inl ⟨id, hid, hops ▸ hst, ?_⟩))
      rw [Conn.packetOf, hops]
      exact hn
    · exact hheld n hn
  · exact .inr (.inr (.inr (hsent _ hn)))

/-- No operation completes. -/
theorem Retained.frame (h : Retained c)
    (hplate : ∀ i ∈ c.finished, (c'.ops i).plate = (c.ops i).plate)
    (hfin : c'.finished = c.finished) (hans : ∀ k < c.finished.length, c'.answers k = c.answers k)
    (hheld : ∀ n, Held c n → Held c' n) (hcarry : ∀ id ∈ c'.waiting, (c'.ops id).state = .waiting →
      (c'.ops id).future = .cancelled →
      ∀ n, Frontend.close n ∉ c'.packetOf id) : Retained c' := by
  refine ⟨hcarry, fun k id hk hcold hparsed => ?_⟩
  rw [hfin] at hk
  have hid := hplate id (mem_of_getElem? hk)
  obtain ⟨hlt, -⟩ := List.getElem?_eq_some_iff.mp hk
  rw [plate_cold hid] at hcold
  rw [hans k hlt] at hparsed
  rw [plate_name hid]
  exact hheld _ (h.kept k id hk hcold hparsed)

/-- What it reads besides the operations and the answers. -/
def Conn.holdings (c : Conn) := (c.waiting, c.finished, c.plans, c.pendingCloses, c.sent)

section

variable (h : Retained c)
include h

/-- An event that leaves the queues and the wire alone. -/
theorem Retained.still (hplate : ∀ i, (c'.ops i).plate = (c.ops i).plate)
    (hst : ∀ i, (c'.ops i).state = (c.ops i).state)
    (hfut : ∀ id ∈ c.waiting, (c.ops id).state = .waiting →
      (c'.ops id).future = .cancelled → ∀ n, Frontend.close n ∉ c.packetOf id)
    (hans : ∀ k < c.finished.length, c'.answers k = c.answers k)
    (hholdings : c'.holdings = c.holdings) : Retained c' := by
  have hpacket : ∀ i, c'.packetOf i = c.packetOf i := fun i => plate_packet (hplate i)
  cases c
  cases c'
  cases hholdings
  refine h.frame (fun i _ => hplate i) rfl hans (fun n hn => ?_) ?_
  · refine hn.mono (fun n hn => .inl hn) (fun n hn => .inr (.inl hn))
      (fun id hid hs => .inr fun n hn => .inr (.inr (.inl ⟨id, hid, (hst id).trans hs, ?_⟩)))
      fun f hf => hf
    exact (hpacket id).symm ▸ hn
  · intro id hid hs hcanc n
    rw [hpacket]
    exact hfut id hid ((hst id).symm.trans hs) hcanc n

/-- An operation that carries no `Close`, or does not wait any more, leaves the waiting ones. -/
theorem Retained.leave (id : Nat) {ops : Nat → Operation} {waiting : List Nat}
    {count : Nat} {barrier : Bool} (hplate : ∀ i, (ops i).plate = (c.ops i).plate)
    (hops : ∀ i, i ≠ id → ops i = c.ops i) (hfut : (ops id).state ≠ .waiting)
    (hnone : (c.ops id).state = .waiting → ∀ n, Frontend.close n ∉ c.packetOf id)
    (hsub : ∀ i ∈ waiting, i ∈ c.waiting) (hkeep : ∀ i ∈ c.waiting, i ≠ id → i ∈ waiting) :
    Retained { c with ops := ops, waiting := waiting, waitingLive := count, barrier := barrier } := by
  refine h.frame (fun i _ => hplate i) rfl (fun _ _ => rfl) (fun n hn => ?_) ?_
  · refine hn.mono (fun n hn => .inl hn) (fun n hn => .inr (.inl hn))
      (fun i hi hs => ?_) fun f hf => hf
    by_cases hne : i = id
    · exact .inr fun n hn => absurd hn (hne ▸ hnone (hne ▸ hs) n)
    · exact .inl ⟨hkeep i hi hne, hops i hne⟩
  · intro i hi hs hcanc n
    have hne : i ≠ id := by
      rintro rfl
      exact hfut hs
    show Frontend.close n ∉ (ops i).packet
    rw [hops i hne]
    exact h.carried i (hsub i hi) (hops i hne ▸ hs) (hops i hne ▸ hcanc) n

theorem Retained.move (hqs : Queues c) (hmove : Move c c') : Retained c' := by
  cases hmove with
  | flags handle blocked =>
    exact h.still (fun _ => rfl) (fun _ => rfl) h.carried (fun _ _ => rfl) rfl
  | skip id rest _ hwait hst =>
    refine h.leave id (fun _ => rfl) (fun _ _ => rfl) ?_ (fun hs => nomatch hs.symm.trans hst)
      (fun i hi => hwait ▸ mem_cons_of_mem _ hi) (fun i hi hne => ?_)
    · rw [hst]
      exact nofun
    · rw [hwait] at hi
      exact (mem_cons.mp hi).resolve_left hne
  | emit id rest _ hwait _ _ =>
    obtain ⟨hnotin, -, -⟩ := hqs.head_fresh hwait
    have hne : ∀ i, i ≠ id → (emit (c.popWaiting rest) id).ops i = c.ops i := fun i hi => if_neg hi
    refine h.frame (fun i _ => ?_) rfl (fun _ _ => rfl) (fun n hn => ?_) ?_
    · rw [emit_ops]
      rfl
    · refine hn.mono (fun n hn => .inl hn) (fun n hn => .inr (.inl hn))
        (fun i hi _ => ?_) fun f hf => mem_append_left _ hf
      rw [hwait] at hi
      rcases mem_cons.mp hi with rfl | hi
      · exact .inr fun n hn => .inr (.inr (.inr (mem_append_right _ hn)))
      · exact .inl ⟨hi, hne i fun heq => hnotin (heq ▸ hi)⟩
    · intro i hi hs hcanc n
      have hother : i ≠ id := fun heq => hnotin (heq ▸ hi)
      rw [hne i hother] at hs hcanc
      rw [Conn.packetOf, hne i hother]
      exact h.carried i (hwait ▸ mem_cons_of_mem _ hi) hs hcanc n

theorem Retained.drop (hqs : Queues c) (hdrop : Drop c c') : Retained c' := by
  cases hdrop with
  | intro id rest _ hwait hst hfut =>
    have hid : id ∈ c.waiting := hwait ▸ mem_cons_self
    have hlive := (hqs.waiting id hid).resolve_right hst
    refine h.leave id (cancelled_plate c.ops id) (fun i hi => if_neg hi) ?_ (fun _ => h.carried id hid hlive hfut)
      (fun i hi => hwait ▸ mem_cons_of_mem _ hi) (fun i hi hne => ?_)
    · rw [if_pos rfl]
      exact nofun
    · rw [hwait] at hi
      exact (mem_cons.mp hi).resolve_left hne

theorem Retained.tombstone (hqs : Queues c) {id : Nat} (hfut : (c.ops id).future = .cancelled)
    (hst : (c.ops id).state = .waiting) : Retained (c.tombstone id) := by
  have hid := hqs.mem_waiting hst (by rw [hfut]; exact nofun)
  refine h.leave id (cancelled_plate c.ops id) (fun i hi => tombstone_ops_ne hi) ?_
    (fun _ => h.carried id hid hst hfut) (fun _ hi => hi) fun _ hi _ => hi
  rw [modify_ops_self]
  exact nofun

end

/-- A completion that stores under a new key loses no name. -/
theorem keepPlan_kept {o : Operation} (hclean : c.plans.evicted = [])
    (hnew : o.cold = true → o.error = none → Kv.lookup c.plans o.sql = none) :
    (∀ n ∈ c.planNames, n ∈ (keepPlan lim c o).1.entries.map (fun e => e.value.name)
        ∨ n ∈ (keepPlan lim c o).2)
    ∧ (o.cold = true → o.error = none →
      o.name ∈ (keepPlan lim c o).1.entries.map (fun e => e.value.name)
        ∨ o.name ∈ (keepPlan lim c o).2)
    ∧ ∀ n ∈ c.pendingCloses, n ∈ (keepPlan lim c o).2 := by
  rw [keepPlan]
  split
  · rename_i hkeep
    have hpairs := congrArg (List.map fun p => p.2.name) (Kv.set_pairs
      (hnew hkeep.1 hkeep.2) ⟨o.name, o.columns⟩
      (lim.planCost o.sql ⟨o.name, o.columns⟩) (b := lim.cache))
    rw [map_append, Kv.Table.pairs, Kv.Table.pairs, hclean,
      nil_append, map_append, map_map, map_map] at hpairs
    have hsplit : ∀ n, n ∈ c.planNames ++ [o.name] →
        n ∈ (Kv.takeEvicted (Kv.set lim.cache c.plans o.sql
          ⟨o.name, o.columns⟩ (lim.planCost o.sql
          ⟨o.name, o.columns⟩))).2.entries.map (fun e => e.value.name)
        ∨ n ∈ c.pendingCloses ++ (Kv.takeEvicted (Kv.set lim.cache c.plans
          o.sql ⟨o.name, o.columns⟩ (lim.planCost o.sql
          ⟨o.name, o.columns⟩))).1.map fun p => p.2.name := by
      intro n hn
      have hn := (show c.planNames ++ [o.name] = _ from hpairs.symm) ▸ hn
      rcases mem_append.mp hn with hn | hn
      · exact .inr (mem_append_right _ hn)
      · exact .inl hn
    exact ⟨fun n hn => hsplit n (mem_append_left _ hn),
      fun _ _ => hsplit _ (mem_append_right _ (mem_singleton_self _)),
      fun n hn => mem_append_left _ hn⟩
  · rename_i hkeep
    exact ⟨fun n hn => .inl hn, fun hcold herror => absurd ⟨hcold, herror⟩ hkeep, fun n hn => hn⟩

theorem Retained.finish (h : Retained c) (hqs : Queues c)
    (hclean : c.plans.evicted = []) {id : Nat} {rest : List Nat} (hemit : c.emitted = id :: rest)
    (hnew : (c.ops id).cold = true → (c.ops id).error = none →
      Kv.lookup c.plans (c.ops id).sql = none)
    (hfail : (c.ops id).cold = true → (c.ops id).error ≠ none →
      ¬ Parsed (c'.answers c.finished.length)) (hplate : ∀ i, (c'.ops i).plate = (c.ops i).plate)
    (hne : ∀ i, i ≠ id → c'.ops i = c.ops i)
    (hans : ∀ k < c.finished.length, c'.answers k = c.answers k)
    (hplans : c'.plans = (keepPlan lim c (c.ops id)).1)
    (hcls : c'.pendingCloses = (keepPlan lim c (c.ops id)).2)
    (hrest : c'.waiting = c.waiting ∧ c'.finished = c.finished ++ [id]
      ∧ c'.sent = c.sent) : Retained c' := by
  obtain ⟨hwait, hfin, hsent⟩ := hrest
  obtain ⟨hplan, hname, hclose⟩ := keepPlan_kept hclean hnew
  have hother : ∀ i ∈ c.waiting, c'.ops i = c.ops i := by
    intro i hi
    refine hne i ?_
    rintro rfl
    exact hqs.emitted_notin (hemit ▸ mem_cons_self) hi
  have hnames : c'.planNames
      = (keepPlan lim c (c.ops id)).1.entries.map fun e => e.value.name := by
    rw [Conn.planNames, hplans]
  have hheld : ∀ n, Held c n → Held c' n := by
    intro n hn
    refine hn.mono (fun n hn => ?_) (fun n hn => .inr (.inl ?_))
      (fun i hi _ => .inl ⟨hwait ▸ hi, hother i hi⟩) fun f hf => hsent ▸ hf
    · rw [hnames, hcls]
      exact hplan n hn
    · rw [hcls]
      exact hclose n hn
  refine ⟨fun i hi hs hcanc n => ?_, fun k i hk hcold hparsed => ?_⟩
  · rw [hwait] at hi
    rw [hother i hi] at hs hcanc
    rw [Conn.packetOf, hother i hi]
    exact h.carried i hi hs hcanc n
  · rw [plate_cold (hplate i)] at hcold
    rw [plate_name (hplate i)]
    rw [hfin] at hk
    rcases snoc_at hk with ⟨hold, hlt⟩ | ⟨hlast, rfl⟩
    · rw [hans k hlt] at hparsed
      exact hheld _ (h.kept k i hold hcold hparsed)
    · -- the operation that completes
      by_cases herror : (c.ops id).error = none
      · rcases hname hcold herror with hn | hn
        · exact .inl (hnames ▸ hn)
        · exact .inr (.inl (hcls ▸ hn))
      · exact absurd (hlast ▸ hparsed) (hfail hcold herror)

theorem Retained.admission {r : Request} (h : Retained c) (hqs : Queues c)
    (hroom : preflight lim c r.sql = none → ∀ size ∈ r.size,
      lim.maxOutbound < (newOperation c r size).size →
      (closesPrefix c).1 = []) (hadm : Admission lim c r c') : Retained c' := by
  have hplans : ∀ n ∈ c.planNames, n ∈ (c.consult r.sql).planNames :=
    fun n hn => (consult_planNames c r.sql).symm.subset hn
  have hsplit : ∀ n ∈ c.pendingCloses, n ∈ (closesPrefix c).1 ∨ n ∈ (closesPrefix c).2 := by
    intro n hn
    by_cases hused : (inFlight c).contains n = true
    · exact .inr (mem_filter.mpr ⟨hn, hused⟩)
    · exact .inl (mem_filter.mpr ⟨hn, by
        rw [Bool.not_eq_true] at hused
        rw [hused]
        rfl⟩)
  cases hadm with
  | refused => exact h
  | unbuilt _ =>
    refine h.frame (fun _ _ => rfl) rfl (fun _ _ => rfl) (fun n hn => ?_) h.carried
    exact hn.mono (fun n hn => .inl (hplans n hn)) (fun n hn => .inr (.inl hn))
      (fun id hid _ => .inl ⟨hid, rfl⟩) fun _ => id
  | oversize size hsize hpre hlarge =>
    refine h.frame (fun _ _ => rfl) rfl (fun _ _ => rfl) (fun n hn => ?_) h.carried
    refine hn.mono (fun n hn => .inl (hplans n hn)) (fun n hn => .inr (.inl ?_))
      (fun id hid _ => .inl ⟨hid, rfl⟩) fun _ => id
    have hnone := hroom hpre size hsize hlarge
    refine (hsplit n hn).resolve_left fun hn => ?_
    rw [hnone] at hn
    exact absurd hn not_mem_nil
  | admitted size _ _ _ =>
    obtain ⟨-, -, hcls, -⟩ := newOperation_names c r size
    obtain ⟨hst, hfut⟩ := newOperation_state c r size
    generalize newOperation c r size = o at *
    set c' := (c.consult r.sql).takeCloses.hold c.sequence o
    have hself : c'.ops c.sequence = o := hold_ops_self
    have hne : ∀ i ∈ c.admitted, c'.ops i = c.ops i := fun i hi => hold_ops_ne (hqs.below i hi).ne
    have hold : ∀ i ∈ c.waiting, c'.ops i = c.ops i := fun i hi => hne i (mem_append_right _ hi)
    refine h.frame (fun i hi => ?_) rfl (fun _ _ => rfl) (fun n hn => ?_) ?_
    · rw [hne i (mem_append_left _ (hqs.log ▸ mem_append_left _ hi))]
    · refine hn.mono (fun n hn => .inl (hplans n hn)) (fun n hn => ?_)
        (fun id hid _ => .inl ⟨mem_append_left _ hid, hold id hid⟩) fun _ => id
      rcases hsplit n hn with hn | hn
      · refine .inr (.inr (.inl ⟨c.sequence, mem_append_right _ (mem_singleton_self _), ?_, ?_⟩))
        · rw [hself]
          exact hst
        · rw [Conn.packetOf, hself]
          exact (hcls n).mpr hn
      · exact .inr (.inl hn)
    · intro i hi hs hcanc n
      rcases mem_append.mp hi with hi | hi
      · rw [hold i hi] at hs hcanc
        rw [Conn.packetOf, hold i hi]
        exact h.carried i hi hs hcanc n
      · rw [mem_singleton.mp hi, hself, hfut] at hcanc
        cases hcanc

end Retain

/-! ## The condition on the events -/

def Frontend.isClose : Frontend → Bool
  | .close _ => true
  | _ => false

/-- The operation's packet has a `Close`. -/
def Operation.carries (o : Operation) : Bool := o.packet.any Frontend.isClose

/-- A cold operation completes: without an error, its text has no plan yet; with one, its
    statement was not prepared. -/
def Completable (id : Nat) : Prop := (c.ops id).cold = true →
    if (c.ops id).error = none then
      (Kv.lookup c.plans (c.ops id).sql).isNone = true
    else ∀ m ∈ c.answers c.finished.length, m.kind ≠ ch '1'

instance (id : Nat) : Decidable (Completable c id) := inferInstanceAs (Decidable (_ → _))

/-- No submission is refused for its size with `Close` messages in it; an operation that
    carries one is not cancelled while it waits; the reader completes what is `Completable`;
    and the backend answers what was sent to it. -/
def Tidy (lim : Limits) (c : Conn) : Event → Prop
  | .submit r => preflight lim c r.sql = none → ∀ size ∈ r.size,
      lim.maxOutbound < (newOperation c r size).size → (closesPrefix c).1 = []
  | .cancel id => (c.ops id).state = .waiting → (c.ops id).carries = false
  | .receive m => Serves c (.receive m)
  | .read => ∀ m ∈ c.messages.head?, m.kind = ch 'Z' → ∀ id ∈ c.emitted.head?, Completable c id
  | _ => True

instance (lim : Limits) (c : Conn) : ∀ e, Decidable (Tidy lim c e)
  | .submit r => inferInstanceAs (Decidable (_ → ∀ size ∈ r.size, _))
  | .cancel _ => inferInstanceAs (Decidable (_ → _))
  | .receive m => inferInstanceAs (Decidable (Serves c (.receive m)))
  | .read => inferInstanceAs (Decidable (∀ m ∈ c.messages.head?, _))
  | .resume _ | .flush _ | .drain => isTrue trivial

theorem Tidy.serves {lim : Limits} {c : Conn} {e : Event} (h : Tidy lim c e) : Serves c e := by
  cases e with
  | receive m => exact h
  | _ => trivial

/-- **NO NAME IS LOST** by an event that is tidy. -/
theorem Retained.stepped {lim : Limits} {c c' : Conn} {e : Event} (h : Retained c)
    (hstmts : Statements c) (htidy : Tidy lim c e) (hstep : Stepped lim c e c') : Retained c' := by
  have hqs := hstmts.queues
  have hplate := stepped_plate hstep
  have hserved : c.finished.length ≤ c.served := by
    rw [hqs.served]
    exact Nat.le_add_right ..
  have hanswered : ∀ (d : Conn) (m : Message), d.answers = c.answers →
      d.served = c.served → ∀ k < c.finished.length,
      (d.answered m).answers k = c.answers k := by
    intro d m hans hd k hk
    show (if k = d.served then d.answers k ++ [m] else d.answers k) = _
    rw [if_neg (by omega), hans]
  -- an event after which every operation is where it was
  let standing (o : Operation) := (o.state, o.future)
  have hstill : (∀ i, (c'.ops i).plate = (c.ops i).plate) →
      (∀ i, standing (c'.ops i) = standing (c.ops i)) →
      (∀ k < c.finished.length, c'.answers k = c.answers k) →
      c'.holdings = c.holdings → Retained c' := by
    intro hplate hops hans hrest
    refine h.still hplate (fun i => (Prod.mk.inj (hops i)).1) (fun id hid hs hcanc => ?_) hans hrest
    exact h.carried id hid hs ((Prod.mk.inj (hops id)).2 ▸ hcanc)
  cases hstep with
  | submitted r c₁ _ hadm hmoves =>
    have hall : Queues c' ∧ Retained c' := by
      clear hstill hplate
      induction hmoves with
      | refl =>
        exact ⟨hqs.admission hadm, h.admission hqs htidy hadm⟩
      | tail _ hmove ih => exact ⟨ih.1.move hmove, ih.2.move ih.1 hmove⟩
    exact hall.2
  | flushed blocked _ hsweep =>
    have hall : Queues c' ∧ Retained c' := by
      clear hstill hplate
      induction hsweep with
      | refl => exact ⟨hqs, h⟩
      | tail _ hlast ih =>
        rcases hlast with hmove | hdrop
        · exact ⟨ih.1.move hmove, ih.2.move ih.1 hmove⟩
        · exact ⟨ih.1.drop hdrop, ih.2.drop ih.1 hdrop⟩
    exact hall.2
  | drained | ignored =>
    exact hstill (hplate nofun) (fun _ => rfl) (fun _ _ => rfl) rfl
  | cancelled id hid hpend =>
    refine h.still (hplate nofun) (fun i => modify_ops_field Operation.state i fun _ => rfl)
      (fun i hi hs hcanc => ?_) (fun _ _ => rfl) rfl
    by_cases heq : i = id
    · rw [heq] at hs ⊢
      exact fun n hn => any_eq_false.mp (htidy hs) _ hn rfl
    · rw [modify_ops_ne heq] at hcanc
      exact h.carried i hi hs hcanc
  | settled id => exact h
  | tombstone id hfut hst => exact h.tombstone hqs hfut hst
  | discarded id _ _ =>
    exact hstill (hplate nofun) (fun i => modify_ops_field standing i fun _ => rfl)
      (fun _ _ => rfl) rfl
  | touched m c₁ _ htouch =>
    have hrest := htouch.rest
    refine hstill (hplate nofun) (htouch.field standing fun _ => rfl) (hanswered c₁ m ?_ ?_) ?_
    · rw [hrest]
    · rw [hrest]
    · rw [hrest]
      rfl
  | completed m c₁ hcompletes =>
    obtain ⟨-, x, xs, rest, handle, -, hemit, -, hcold, rfl⟩ := hcompletes.completed
    exact h.finish hqs hstmts.clean hemit (fun hc => nomatch hcold.symm.trans hc)
      (fun hc => nomatch hcold.symm.trans hc) (hplate nofun)
      (fun i hi => modify_ops_ne hi)
      (hanswered (advance { finishOperation lim (c.popEmitted rest m) x.op with
        flushHandle := handle }) m rfl rfl) rfl rfl ⟨rfl, rfl, rfl⟩
  | queued m c₁ htouch _ =>
    have hrest := htouch.rest
    obtain ⟨ring, direct, heq, -, -, -⟩ := queueMessage_fields c₁
    have hplate := hplate nofun
    rw [heq] at hstill hplate ⊢
    refine hstill hplate (htouch.field standing fun _ => rfl) (hanswered _ m ?_ ?_) ?_
    · rw [hrest]
    · rw [hrest]
    · rw [hrest]
      rfl
  | finished m ms _ hmsgs hfin =>
    obtain ⟨hz, id, rest, handle, hemit, rfl⟩ := hfin.finished
    have hcomp : Completable c id := by
      refine htidy m ?_ hz id ?_
      · rw [hmsgs]
        rfl
      · rw [hemit]
        rfl
    refine h.finish hqs hstmts.clean hemit (fun hcold herror => ?_)
      (fun hcold herror => ?_) (hplate nofun) (fun i hi => modify_ops_ne hi)
      (fun _ _ => rfl) rfl rfl ⟨rfl, rfl, rfl⟩
    · have hnone := hcomp hcold
      rw [if_pos herror] at hnone
      exact Option.isNone_iff_eq_none.mp hnone
    · have hnone := hcomp hcold
      rw [if_neg herror] at hnone
      rintro ⟨m, hm, hkind⟩
      exact hnone m hm hkind
  | consumed m ms id rest o _ _ _ hconsume =>
    exact hstill (hplate nofun) (consumed_field hconsume standing fun _ => rfl) (fun _ _ => rfl) rfl

/-! ## Runs -/

/-- Every name the backend has prepared is in the cache, in the list of those to close, or
    closed on the wire. -/
def NamesKept (c : Conn) : Prop := ∀ k id : Nat, c.log[k]? = some id → (c.ops id).cold = true →
  (∃ m ∈ c.answers k, m.kind = ch '1') →
  (c.ops id).name ∈ c.plans.entries.map (fun e => e.value.name)
    ∨ (c.ops id).name ∈ c.pendingCloses ∨ Frontend.close (c.ops id).name ∈ c.sent

/-- **STATEMENTS ARE KEPT OR CLOSED.** In every run whose events are tidy, while the connection is
    open: when nothing waits and nothing is emitted, no name is lost; and none is bound behind its
    `Close`. -/
theorem statements_kept (lim : Limits) {events : List Event} {c : Conn}
    (hrun : exec (guarded (Tidy lim) (step lim)) .fresh events = some c)
    (hopen : c.closed = false) : (c.waitingLive = 0 → c.emitted = [] → NamesKept c)
      ∧ ∀ before after n, c.sent = before ++ .close n :: after → Frontend.bind n ∉ after := by
  have hkeep : ∀ d e d', (d.closed = false → Statements d ∧ Retained d) →
      Tidy lim d e → step lim d e = some d' →
      d'.closed = false → Statements d' ∧ Retained d' := by
    intro d e d' hd htidy hstep hopen'
    have hopen := step_opened hstep hopen'
    obtain ⟨hstatements, hretained⟩ := hd hopen
    have hstepped := step_stepped hstatements.queues hopen hstep hopen'
    exact ⟨hstatements.stepped htidy.serves hstepped, hretained.stepped hstatements htidy hstepped⟩
  have hinv := exec_guarded_invariant hkeep (fun _ => ⟨statements_fresh, nofun, nofun⟩) hrun
  obtain ⟨hstatements, hretained⟩ := hinv hopen
  refine ⟨fun hlive hemitted k id hk hcold hparsed => ?_,
    fun _ _ _ hsent => hstatements.closed_last hsent⟩
  have hqs := hstatements.queues
  rw [hqs.log, hemitted, append_nil] at hk
  rcases hretained.kept k id hk hcold hparsed with hn | hn | ⟨w, hw, hs, -⟩ | hn
  · exact .inl hn
  · exact .inr (.inl hn)
  · -- nothing waits
    have hnone := hqs.live.symm.trans hlive
    rw [countP_eq_zero] at hnone
    exact absurd (by rw [live, hs]; rfl) (hnone w hw)
  · exact .inr (.inr hn)

/-- One plan in the cache. -/
def narrow : Limits := { roomy with cache := ⟨1, 1024⟩, maxOutbound := 100 }

def select (sql : String) (size : Nat) : Event := .submit ⟨sql, .fetchval, some size, false⟩

/-- Two statements that the cache cannot both hold, and a third one, with the `Close` of the
    first. -/
def evicting : List Event :=
  [select "SELECT 1" 60] ++ coldAnswer 49 ++ [.read, select "SELECT 2" 60]
    ++ coldAnswer 50 ++ [.read, select "SELECT 3" 60, .receive ⟨ch '3', []⟩]
    ++ coldAnswer 51 ++ [.read, .read]

theorem evicting_kept : ∃ c : Conn,
    exec (guarded (Tidy narrow) (step narrow)) .fresh evicting = some c
      ∧ (c.closed, c.waitingLive, c.emitted, c.log) = (false, 0, [], [0, 1, 2])
      ∧ NamesKept c ∧ ∀ before after n, c.sent = before ++ .close n :: after → Frontend.bind n ∉ after := by
  refine run_ends (fun c => (c.closed, c.waitingLive, c.emitted, c.log)) _ (by decide)
    fun c hrun hc => ⟨hc, ?_⟩
  simp only [Prod.mk.injEq] at hc
  obtain ⟨hopen, hlive, hemitted, -⟩ := hc
  obtain ⟨hkept, hlast⟩ := statements_kept narrow hrun hopen
  exact ⟨hkept hlive hemitted, hlast⟩

/-- The first operation's statement was prepared, nothing is outstanding, and the driver has
    neither its name nor closed it. -/
def FirstLost : Prop := c.closed = false ∧ c.outstanding = 0 ∧ c.log.head? = some 0
    ∧ (c.ops 0).cold = true ∧ (∃ m ∈ c.answers 0, m.kind = ch '1')
    ∧ (c.ops 0).name ∉ c.planNames ∧ (c.ops 0).name ∉ c.pendingCloses
    ∧ Frontend.close (c.ops 0).name ∉ c.sent

instance : Decidable (FirstLost c) := inferInstanceAs (Decidable (_ ∧ _))

/-- The first use of a text, twice in one pipeline. -/
def twice : List Event :=
  [select "SELECT 1" 60, select "SELECT 1" 60, .flush false] ++ coldAnswer 49
    ++ [.read] ++ coldAnswer 49 ++ [.read]

/-- The statement is prepared, and fails when it is executed. -/
def failing : List Event := [select "SELECT 1/0" 60] ++ (coldAnswer 49).take 5
    ++ [.receive ⟨ch 'E', []⟩, .receive ⟨ch 'Z', [idle]⟩, .read, .read]

/-- The packet that was to carry a `Close` is too large with it. -/
def refused : List Event :=
  [select "SELECT 1" 60] ++ coldAnswer 49 ++ [.read, select "SELECT 2" 60]
    ++ coldAnswer 50 ++ [.read, select "SELECT 3" 95]

/-- The operation that carries a `Close` is cancelled while it waits. -/
def cancelledWaiting : List Event :=
  [select "SELECT 1" 60] ++ coldAnswer 49 ++ [.read, select "SELECT 2" 60,
    select "SELECT 3" 60, .flush false] ++ coldAnswer 50
    ++ [.read, select "SELECT 4" 60, .cancel 3, .resume 3] ++ coldAnswer 51
    ++ [.read]

/-- A run of an orderly backend at whose end the first statement is lost. -/
def Loses (events : List Event) : Prop :=
  ∃ c : Conn, exec (guarded Orderly (step narrow)) .fresh events = some c ∧ FirstLost c

theorem loses_of_run {events : List Event}
    (h : (exec (guarded Orderly (step narrow)) .fresh events).map
      (fun c => decide (FirstLost c)) = some true) : Loses events := by
  obtain ⟨c, hrun, hc⟩ := Option.map_eq_some_iff.mp h
  exact ⟨c, hrun, of_decide_eq_true hc⟩

/-- **STATEMENTS ARE LOST** in each of the four ways. -/
theorem statements_lost : Loses twice ∧ Loses failing ∧ Loses refused ∧ Loses cancelledWaiting :=
  ⟨loses_of_run (by decide), loses_of_run (by decide), loses_of_run (by decide),
    loses_of_run (by decide)⟩

end PgDriver
