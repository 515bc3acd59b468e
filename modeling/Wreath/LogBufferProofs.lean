import Mathlib.Data.List.OfFn
import Mathlib.Data.List.Flatten
import Mathlib.Data.List.Induction

/-! # The buffered log — batches over a ladder of statements

`append_many` cuts a batch over prepared statements for 1, 2, 4, … rows, the largest that
fits first; a table of more than 65535 columns has none (`appendMany_splits`).
`_Buffer.flush` takes the rows out of the queue before it awaits `append_many`: they are
counted as dropped when one of four exceptions ends it, and lost without a count by every
other end (`rows_accounted_iff`). -/

namespace LogBuffer

open List

/-! ## The ladder -/

def maxBatchRows : Nat := 512

/-- The parameters that one statement can bind. -/
def maxParameters : Nat := 65535

/-- The loop over the rungs, which starts at 1. -/
def climb (top rung : Nat) : List Nat :=
  if _h : 0 < rung ∧ rung ≤ top then rung :: climb top (rung * 2) else []
termination_by top + 1 - rung

/-- `_batch_sql`: the numbers of the placeholders, group by group. -/
def batchSql (width rows : Nat) : List (List Nat) :=
  (range rows).map fun row => (range width).map fun index => row * width + index + 1

/-- `_rungs`, descending, of a log with `width` columns. -/
def rungs (width : Nat) : List Nat := (climb (min maxBatchRows (maxParameters / width)) 1).reverse

def rungFor (width remaining : Nat) : Option Nat := (rungs width).find? (· ≤ remaining)

theorem mem_climb {top rung size : Nat} (h : size ∈ climb top rung) : 0 < size ∧ size ≤ top := by
  fun_induction climb top rung with
  | case1 rung hrung ih =>
    rcases mem_cons.mp h with rfl | h
    · exact hrung
    · exact ih h
  | case2 => exact absurd h not_mem_nil

theorem mem_rungs {width size : Nat} (h : size ∈ rungs width) :
    0 < size ∧ size * width ≤ maxParameters := by
  obtain ⟨hpos, htop⟩ := mem_climb (mem_reverse.mp h)
  exact ⟨hpos, (Nat.mul_le_mul_right _ (htop.trans (min_le_right _ _))).trans
    (Nat.div_mul_le_self _ _)⟩

/-- The search is total: the last rung is 1. -/
theorem rungFor_some {width remaining : Nat} (hpos : 0 < width) (hwidth : width ≤ maxParameters)
    (hrem : 0 < remaining) :
    ∃ size ∈ rungs width, rungFor width remaining = some size ∧ size ≤ remaining := by
  have hone : 1 ∈ rungs width := by
    have htop : 1 ≤ min maxBatchRows (maxParameters / width) :=
      le_min (by decide) (Nat.div_pos hwidth hpos)
    rw [rungs, mem_reverse, climb, dif_pos ⟨Nat.one_pos, htop⟩]
    exact mem_cons_self
  cases hfor : rungFor width remaining with
  | none => exact absurd (find?_eq_none.mp hfor 1 hone) (by simpa using Nat.ne_of_gt hrem)
  | some size =>
    exact ⟨size, mem_of_find?_eq_some hfor, rfl, by simpa using find?_some hfor⟩

/-! ## append_many -/

section Append

variable {α : Type} {width : Nat}

/-- One row as `_bind` orders it. -/
abbrev Row (α : Type) (width : Nat) := Fin width → α

/-- A statement with the rows whose values are its arguments. -/
structure Statement (α : Type) (width : Nat) where
  sql : List (List Nat)
  rows : List (Row α width)

variable (s : Statement α width) (execute : Nat → Statement α width → Option Nat)
  (bound : List (Row α width))

def Statement.arguments : List α := s.rows.flatMap ofFn

/-- The loop of `append_many`: the statements it issues and the rows it reports, if it
    comes to its end. `execute` answers the statement issued at an index with the count of
    its command tag, or raises. -/
def appendLoop : Nat → (index remaining written : Nat) → List (Statement α width) × Option Nat
  | 0, _, remaining, written => ([], if remaining = 0 then some written else none)
  | fuel + 1, index, remaining, written =>
    if remaining = 0 then ([], some written)
    else
      match rungFor width remaining with
      | none => ([], none)
      | some size =>
        let statement := ⟨batchSql width size, (bound.drop index).take size⟩
        if execute index statement = some size then
          let rest := appendLoop fuel (index + size) (remaining - size) (written + size)
          (statement :: rest.1, rest.2)
        else ([statement], none)

/-- A turn of the loop takes at least one row, so it has at most as many turns as rows. -/
def appendMany : List (Statement α width) × Option Nat :=
  appendLoop execute bound bound.length 0 bound.length 0

/-- The statement fits the protocol and its own text. -/
structure Statement.Sound : Prop where
  room : s.arguments.length ≤ maxParameters
  groups : s.sql.length = s.rows.length

theorem arguments_length : s.arguments.length = s.rows.length * width := by
  rw [Statement.arguments, length_flatMap]
  simp only [length_ofFn, map_const', sum_replicate_nat]

theorem sound_of_rung {s : Statement α width} (h : s.rows.length ∈ rungs width)
    (hsql : s.sql = batchSql width s.rows.length) : s.Sound where
  room := (arguments_length s).trans_le (mem_rungs h).2
  groups := by rw [hsql, batchSql, length_map, length_range]

/-- The statements bind the rows in order, and all of them if none fails. -/
structure Splits (rest : List (Row α width)) (total : Nat)
    (run : List (Statement α width) × Option Nat) : Prop where
  sound : ∀ s ∈ run.1, s.Sound
  order : run.1.flatMap Statement.rows <+: rest
  whole : (∀ i, ∀ s ∈ run.1, execute i s = some s.rows.length) →
    run.1.flatMap Statement.rows = rest ∧ run.2 = some total

theorem splits_nil (written : Nat) : Splits execute [] (written + 0) ([], some written) :=
  ⟨forall_mem_nil _, nil_prefix, fun _ => ⟨rfl, rfl⟩⟩

theorem appendLoop_splits (hpos : 0 < width) (hwidth : width ≤ maxParameters)
    {fuel index remaining : Nat} (written : Nat) (hfuel : remaining ≤ fuel)
    (hend : index + remaining = bound.length) :
    Splits execute (bound.drop index) (written + remaining)
      (appendLoop execute bound fuel index remaining written) := by
  induction fuel generalizing index remaining written with
  | zero =>
    obtain rfl := Nat.le_zero.mp hfuel
    rw [← Nat.add_zero index, hend, drop_length]
    exact splits_nil execute written
  | succ fuel ih =>
    rw [appendLoop]
    split
    · next hrem =>
      subst hrem
      rw [← Nat.add_zero index, hend, drop_length]
      exact splits_nil execute written
    · next hrem =>
      obtain ⟨size, hmem, hfor, hle⟩ := rungFor_some hpos hwidth (Nat.pos_of_ne_zero hrem)
      have hsize := (mem_rungs hmem).1
      simp only [hfor]
      generalize hs : (⟨batchSql width size, (bound.drop index).take size⟩ : Statement α width) = s
      have hrows : s.rows = (bound.drop index).take size := by rw [← hs]
      have hlen : s.rows.length = size := by
        rw [hrows, length_take, length_drop]
        omega
      have hsound : s.Sound := sound_of_rung (hlen ▸ hmem) (by rw [hlen, ← hs])
      have hcut : s.rows ++ bound.drop (index + size) = bound.drop index := by
        rw [hrows, ← drop_drop, take_append_drop]
      split
      · next hran =>
        have hrest := ih (written + size) (show remaining - size ≤ fuel by omega)
          (show index + size + (remaining - size) = bound.length by omega)
        refine ⟨forall_mem_cons.mpr ⟨hsound, hrest.sound⟩, ?_, fun hall => ?_⟩
        · rw [flatMap_cons, ← hcut]
          exact (prefix_append_right_inj _).mpr hrest.order
        · obtain ⟨hrows', htotal⟩ := hrest.whole fun i => (forall_mem_cons.mp (hall i)).2
          rw [flatMap_cons, hrows', hcut, htotal, show written + size + (remaining - size) =
            written + remaining by omega]
          exact ⟨rfl, rfl⟩
      · next hfailed =>
        refine ⟨forall_mem_singleton.mpr hsound, ?_, fun hall => ?_⟩
        · rw [flatMap_singleton, ← hcut]
          exact prefix_append _ _
        · exact absurd ((forall_mem_singleton.mp (hall index)).trans (congrArg some hlen)) hfailed

/-- **A BATCH IS SPLIT WITHOUT LOSS** over the statements of its log. -/
theorem appendMany_splits (hpos : 0 < width) (hwidth : width ≤ maxParameters) :
    Splits execute bound bound.length (appendMany execute bound) := by
  have h := appendLoop_splits execute bound hpos hwidth 0 le_rfl (Nat.zero_add bound.length)
  rwa [Nat.zero_add] at h

end Append

/-- Three rows of two columns. -/
theorem three_rows_split :
    Splits (fun _ s => some s.rows.length) (replicate 3 fun _ : Fin 2 => 0) 3
      (appendMany (fun _ s => some s.rows.length) (replicate 3 fun _ : Fin 2 => 0)) :=
  appendMany_splits _ _ (by decide) (by decide)

/-- A log of 65536 columns has no statement for a row. -/
theorem wide_row_unsplit :
    ¬ Splits (fun _ s => some s.rows.length) [fun _ : Fin 65536 => ()] 1
      (appendMany (fun _ s => some s.rows.length) [fun _ : Fin 65536 => ()]) := by
  have hnone : rungs 65536 = [] := by
    rw [rungs, climb, dif_neg (by decide)]
    rfl
  intro h
  have hrun := (h.whole (by simp [appendMany, appendLoop, rungFor, hnone])).2
  simp [appendMany, appendLoop, rungFor, hnone] at hrun

/-! ## The buffer -/

section Buffer

variable {ν : Type}

/-- What may end `append_many` other than its return. -/
inductive Raised where
  | postgresError | osError | runtimeError | valueError | cancelled | other
  deriving DecidableEq

/-- The `except` clause of `flush`. -/
def Raised.counted : Raised → Bool
  | .postgresError | .osError | .runtimeError | .valueError => true
  | .cancelled | .other => false

/-- A buffer with the rows its log has been given by it. -/
structure Buffer (ν : Type) where
  capacity : Nat
  pending : List ν := []
  written : List ν := []
  dropped : Nat := 0

variable (b : Buffer ν)

def Buffer.offer (row : ν) : Buffer ν × Bool :=
  if b.pending.length < b.capacity then ({ b with pending := b.pending ++ [row] }, true)
  else ({ b with dropped := b.dropped + 1 }, false)

def Buffer.abandon : Buffer ν := { b with pending := [], dropped := b.dropped + b.pending.length }

/-- The batch leaves the queue before `append_many` is awaited. -/
def Buffer.flush (ended : Option Raised) : Buffer ν :=
  if b.pending = [] then b
  else
    match ended with
    | none => { b with pending := [], written := b.written ++ b.pending }
    | some raised =>
      { b with
        pending := []
        dropped := b.dropped + if raised.counted then b.pending.length else 0 }

inductive Call (ν : Type) where
  | offer (row : ν)
  | flush (ended : Option Raised)
  | abandon

def Buffer.step : Call ν → Buffer ν
  | .offer row => (b.offer row).1
  | .flush ended => b.flush ended
  | .abandon => b.abandon

def run (capacity : Nat) (calls : List (Call ν)) : Buffer ν := calls.foldl Buffer.step { capacity }

def Call.row? : Call ν → Option ν
  | .offer row => some row
  | _ => none

def offered (calls : List (Call ν)) : List ν := calls.filterMap Call.row?

/-- The rows written and then the pending ones, in the order of the offers, are all of the
    rows offered but as many as were dropped. -/
structure Accounted (o : List ν) (b : Buffer ν) : Prop where
  order : b.written ++ b.pending <+ o
  count : o.length = b.written.length + b.pending.length + b.dropped

/-- The call loses no row without a count. -/
def Keeps (call : Call ν) : Prop :=
  ∀ raised, call = .flush (some raised) → b.pending = [] ∨ raised.counted

variable {o : List ν} {b : Buffer ν}

theorem Accounted.abandon (h : Accounted o b) : Accounted o b.abandon where
  order := ((Sublist.refl _).append (nil_sublist _)).trans h.order
  count := by
    show o.length = b.written.length + 0 + (b.dropped + b.pending.length)
    rw [h.count]
    omega

theorem Accounted.step (h : Accounted o b) {call : Call ν} (hcall : Keeps b call) :
    Accounted (o ++ call.row?.toList) (b.step call) := by
  cases call with
  | offer row =>
    have hlen : (o ++ [row]).length = o.length + 1 := length_append
    rw [Buffer.step, Buffer.offer]
    split
    · refine ⟨?_, hlen.trans ?_⟩
      · rw [← append_assoc]
        exact h.order.append (.refl _)
      · simp only [h.count, length_append, length_singleton]
        omega
    · refine ⟨h.order.trans (sublist_append_left _ _), hlen.trans ?_⟩
      rw [h.count, Nat.add_assoc]
  | abandon => exact (append_nil o).symm ▸ h.abandon
  | flush ended =>
    refine (append_nil o).symm ▸ ?_
    by_cases hempty : b.pending = []
    · rwa [Buffer.step, Buffer.flush.eq_def, if_pos hempty]
    · rw [Buffer.step, Buffer.flush.eq_def, if_neg hempty]
      cases ended with
      | none =>
        refine ⟨(append_nil _).symm ▸ h.order, ?_⟩
        rw [h.count, length_append]
        rfl
      | some raised =>
        simp only [if_pos ((hcall raised rfl).resolve_left hempty)]
        exact h.abandon

variable (capacity : Nat) (calls : List (Call ν))

theorem run_concat (call : Call ν) : run capacity (calls ++ [call]) =
    (run capacity calls).step call :=
  foldl_append

theorem offered_concat (call : Call ν) :
    offered (calls ++ [call]) = offered calls ++ call.row?.toList := by
  rw [offered, filterMap_append]
  cases call <;> rfl

theorem run_accounted (h : ∀ pre call, pre ++ [call] <+: calls → Keeps (run capacity pre) call) :
    Accounted (offered calls) (run capacity calls) := by
  induction calls using reverseRec with
  | nil => exact ⟨.refl _, rfl⟩
  | append_singleton calls call ih =>
    have hpre := ih fun pre c hc => h pre c (hc.trans (prefix_append _ _))
    rw [offered_concat, run_concat]
    exact hpre.step (h calls call prefix_rfl)

/-- **NO ROW IS LOST SILENTLY** in a run if and only if every flush of a row ends with its
    return or with an exception of the clause. -/
theorem rows_accounted_iff :
    (∀ pre, pre <+: calls → Accounted (offered pre) (run capacity pre)) ↔
    ∀ pre raised, pre ++ [.flush (some raised)] <+: calls →
      (run capacity pre).pending = [] ∨ raised.counted := by
  constructor
  · intro h pre raised hpre
    by_contra hlost
    obtain ⟨hne, hcount⟩ := not_or.mp hlost
    have hbefore := (h pre ((prefix_append _ _).trans hpre)).count
    have hafter := (h _ hpre).count
    rw [offered_concat, run_concat, Buffer.step, Buffer.flush] at hafter
    simp only [if_neg hne, if_neg hcount, Call.row?, Option.toList_none, append_nil,
      length_nil] at hafter
    have := length_pos_iff.mpr hne
    omega
  · intro h pre hpre
    refine run_accounted capacity pre fun front call hfront raised hcall => ?_
    subst hcall
    exact h front raised (hfront.trans hpre)

/-- A cancelled flush of one row. -/
theorem cancelled_flush_loses :
    ¬ Accounted (offered [.offer 7, .flush (some .cancelled)])
      (run 1 [.offer 7, .flush (some .cancelled)]) :=
  fun h => absurd h.count (by decide)

end Buffer

end LogBuffer
