import Wreath.StepSystemProofs
import Wreath.UndoLogProofs

/-! # Workflows — `workflows.py`

A saga records the result of each step before the next one starts. When a step raises, the
completed steps are undone, newest first, each record erased after its undo, and only then
is the instance marked as compensated. A call runs under the lock of its key and can die
between any two store writes or handler calls.

While records are erased the instance still says that it is running, so after a call that
dies there the next one runs erased steps again before the rest is undone
(`rerun_before_undone`). When no call dies in its undo chain and each finds the records in
the order of the steps, every log is an undo log as it should be (`unwinds_completely`). -/

namespace Workflow

open StepSystem UndoLog List
open Option (bind_some some.inj)

variable {V : Type}

/-- `compensate` is whether the step declares its undo. -/
structure Step where
  name : String
  compensate : Bool
  deriving Repr, DecidableEq

/-- Step names key durable records: no two are the same. -/
structure Definition where
  name : String
  steps : List Step
  nodup : (steps.map Step.name).Nodup

inductive Status where
  | running
  | completed
  | compensated
  | failed
  deriving Repr, DecidableEq

/-- One instance in the store; the results are in the order in which they were recorded
    (`completed_at`). -/
structure Record (V : Type) where
  workflow : String
  steps : List String
  results : List (String × V)
  state : Status
  compensationErrors : Nat

/-- Where a call is: before the next step, in its handler, before its result is recorded, before the
    next undo, before a record is erased, before `finish` of a failure without undo. -/
inductive Phase (V : Type) where
  | stepping (rest : List Step)
  | calling (step : Step) (rest : List Step)
  | recording (step : Step) (result : V) (rest : List Step)
  | undoing (todo : List Step) (failures : Nat)
  | erasing (step : Step) (todo : List Step) (failures : Nat)
  | failing

/-- A call of `run` or `resume`, with its own copy of the results and the completed steps. -/
structure Call (V : Type) where
  compensate : Bool
  results : List (String × V)
  completed : List Step
  phase : Phase V

/-- How a call came back. -/
inductive Answer (V : Type) where
  | outcome (results : List (String × V)) (completed : List String)
  | raised
  | unknownInstance
  | otherWorkflow (stored : String)
  | missingStep (name : String)

/-- The store's record of the key, the call that holds its lock, how the last one ended, and
    the log. -/
structure State (V : Type) where
  record : Option (Record V)
  call : Option (Call V)
  answer : Option (Answer V)
  log : List (Entry String)

def State.init : State V := ⟨none, none, none, []⟩

inductive Event (V : Type) where
  | run (compensate : Bool)
  | resume
  | advance
  | returns (result : V)
  | raises
  | complete
  | undo (ok : Bool)
  | uncomplete
  | finish
  | dies

/-! ## The store -/

variable (record : Record V)

def Record.names : List String := record.results.map Prod.fst

/-- `complete_step`: insert, or replace the result. -/
def completeStep (name : String) (result : V) : Record V :=
  if name ∈ record.names then
    { record with results := record.results.map fun p =>
        if p.1 = name then (name, result) else p }
  else { record with results := record.results ++ [(name, result)] }

def uncompleteStep (name : String) : Record V :=
  { record with results := record.results.filter fun p => p.1 ≠ name }

/-! ## Calls -/

variable (w : Definition)

variable (s : State V) (record : Record V)

/-- `begin`: the instance as it is, or a new one. -/
def beginRecord : Record V := s.record.getD ⟨w.name, w.steps.map Step.name, [], .running, 0⟩

/-- `_execute_bound` up to its loop: recorded steps are completed. -/
def enterLoop (compensate : Bool) : State V :=
  { s with
    record := some record
    call := some
      { compensate := compensate
        results := record.results
        completed := w.steps.filter fun step => step.name ∈ record.names
        phase := .stepping w.steps } }

def State.ends (answer : Answer V) : State V := { s with call := none, answer := some answer }

/-- The outcome of an instance that has completed. -/
def recorded : Answer V := .outcome record.results record.names

def run (compensate : Bool) : State V :=
  let record := beginRecord w s
  if record.workflow ≠ w.name then
    { s with record := some record }.ends (.otherWorkflow record.workflow)
  else if record.state = .completed then s.ends (recorded record)
  else enterLoop w s record compensate

def resume : State V :=
  match s.record with
  | none => s.ends .unknownInstance
  | some record =>
    if record.workflow ≠ w.name then s.ends (.otherWorkflow record.workflow)
    else
      match record.steps.find? fun name => name ∉ w.steps.map Step.name with
      | some name => s.ends (.missingStep name)
      | none =>
        if record.state = .completed then s.ends (recorded record)
        else enterLoop w s record true

/-- The next step without a result is called; after the last one the instance is completed. -/
def advance (call : Call V) (rest : List Step) : State V :=
  match rest.dropWhile fun step => step.name ∈ call.results.map Prod.fst with
  | [] =>
    { s with record := some { record with state := .completed, compensationErrors := 0 } }.ends
      (.outcome call.results (call.completed.map Step.name))
  | step :: rest =>
    { s with
      call := some { call with phase := .calling step rest }
      log := s.log ++ [.runs step.name] }

/-- A step raised. -/
def fails (call : Call V) : State V :=
  if call.compensate then
    { s with
      call := some { call with phase := .undoing call.completed.reverse 0 }
      log := s.log ++ [.fails] }
  else { s with call := some { call with phase := .failing } }

/-- One link of `_compensate`. -/
def undo (call : Call V) (step : Step) (todo : List Step) (failures : Nat) (ok : Bool) : State V :=
  if step.compensate = false then
    { s with
      record := some (uncompleteStep record step.name)
      call := some { call with phase := .undoing todo failures }
      log := s.log ++ [.attempt step.name .none] }
  else if ok then
    { s with
      call := some { call with phase := .erasing step todo failures }
      log := s.log ++ [.attempt step.name .ran] }
  else
    { s with
      call := some { call with phase := .undoing todo (failures + 1) }
      log := s.log ++ [.attempt step.name .failed] }

def finish (state : Status) (failures : Nat) : State V :=
  { s with record := some { record with
      state := state, compensationErrors := failures } }.ends .raised

/-- The result of a step is recorded. -/
def complete (call : Call V) (step : Step) (result : V) (rest : List Step) : State V :=
  { s with
    record := some (completeStep record step.name result)
    call := some { call with completed := call.completed ++ [step], phase := .stepping rest }
    log := s.log ++ [.done step.name] }

/-- What a call that is under way does next. -/
def proceed (call : Call V) : Event V → Option (State V)
  | .advance =>
    match call.phase with
    | .stepping rest => some (advance s record call rest)
    | _ => none
  | .returns result =>
    match call.phase with
    | .calling step rest =>
      some { s with call := some { call with
        results := call.results ++ [(step.name, result)]
        phase := .recording step result rest } }
    | _ => none
  | .raises =>
    match call.phase with
    | .calling _ _ => some (fails s call)
    | _ => none
  | .complete =>
    match call.phase with
    | .recording step result rest => some (complete s record call step result rest)
    | _ => none
  | .undo ok =>
    match call.phase with
    | .undoing (step :: todo) failures =>
      some (undo s record call step todo failures ok)
    | _ => none
  | .uncomplete =>
    match call.phase with
    | .erasing step todo failures =>
      some { s with
        record := some (uncompleteStep record step.name)
        call := some { call with phase := .undoing todo failures } }
    | _ => none
  | .finish =>
    match call.phase with
    | .undoing [] failures => some (finish s record .compensated failures)
    | .failing => some (finish s record .failed 0)
    | _ => none
  | _ => none

def step : Event V → Option (State V)
  | .run compensate => if s.call.isSome then none else some (run w s compensate)
  | .resume => if s.call.isSome then none else some (resume w s)
  | .dies => if s.call.isSome then some (s.ends .raised) else none
  | e => do
      let call ← s.call
      let record ← s.record
      proceed s record call e

/-! ## The books of a call -/

variable {w} {s s' : State V} {e : Event V} {b : Books String}

/-- The recorded steps of the instance, oldest first. -/
def names (s : State V) : List String := (s.record.map Record.names).getD []

/-- The condition on a step: no call dies in its undo chain, and a call that starts finds
    the steps recorded in their order. -/
def Steady (w : Definition) (s : State V) : Event V → Prop
  | .run _ | .resume =>
    (w.steps.filter fun step => step.name ∈ names s).map Step.name = names s
  | .dies =>
    match s.call.map Call.phase with
    | some (.undoing _ _) | some (.erasing _ _ _) => False
    | _ => True
  | _ => True

instance (s : State V) : (e : Event V) → Decidable (Steady w s e)
  | .run _ | .resume => inferInstanceAs (Decidable (_ = _))
  | .dies =>
    match h : s.call.map Call.phase with
    | some (.undoing _ _) => isFalse (by simp [Steady, h])
    | some (.erasing _ _ _) => isFalse (by simp [Steady, h])
    | some (.stepping _) => isTrue (by simp [Steady, h])
    | some (.calling _ _) => isTrue (by simp [Steady, h])
    | some (.recording _ _ _) => isTrue (by simp [Steady, h])
    | some .failing => isTrue (by simp [Steady, h])
    | none => isTrue (by simp [Steady, h])
  | .advance | .returns _ | .raises | .complete | .undo _ | .uncomplete
  | .finish => isTrue trivial

/-- The books while a call is where it is; `names` are the recorded steps. -/
def Tracks (names : List String) (b : Books String) (call : Call V) : Prop :=
  match call.phase with
  | .stepping _ => b = ⟨names, []⟩ ∧ call.completed.map Step.name = names ∧
      ∀ n, n ∈ call.results.map Prod.fst ↔ n ∈ names
  | .calling step _ => b = ⟨names, []⟩ ∧
      call.completed.map Step.name = names ∧
      (∀ n, n ∈ call.results.map Prod.fst ↔ n ∈ names) ∧ step.name ∉ names
  | .recording step _ _ => b = ⟨names, []⟩ ∧
      call.completed.map Step.name = names ∧
      (∀ n, n ∈ call.results.map Prod.fst ↔ n ∈ names ∨ n = step.name) ∧
      step.name ∉ names
  | .undoing todo _ => b = ⟨names, todo.map Step.name⟩
  | .erasing step todo _ => b = ⟨names.erase step.name, todo.map Step.name⟩
  | .failing => b = ⟨names, []⟩

/-- The log can be read, and the books agree with the records and with the call. -/
structure Follows (s : State V) (b : Books String) : Prop where
  read : UndoLog.read ⟨[], []⟩ s.log = some b
  nodup : (names s).Nodup
  idle : s.call = none → b = ⟨names s, []⟩
  busy : ∀ call, s.call = some call → s.record.isSome = true ∧ Tracks (names s) b call

theorem Follows.init : Follows (State.init : State V) ⟨[], []⟩ :=
  ⟨rfl, nodup_nil, fun _ => rfl, nofun⟩

/-- One more entry. -/
theorem Follows.enter {b' : Books String} {entry : Entry String}
    (h : UndoLog.read ⟨[], []⟩ s.log = some b) (henter : UndoLog.enter b entry = some b') :
    UndoLog.read ⟨[], []⟩ (s.log ++ [entry]) = some b' := by
  rw [read_append, h, bind_some, UndoLog.read, henter, bind_some, UndoLog.read]

variable {record : Record V}

theorem names_complete {name : String} {result : V} (h : name ∉ record.names) :
    (completeStep record name result).names = record.names ++ [name] := by
  rw [completeStep, if_neg h, Record.names, map_append]
  rfl

theorem names_uncomplete (hnd : record.names.Nodup) (name : String) :
    (uncompleteStep record name).names = record.names.erase name := by
  rw [hnd.erase_eq_filter, Record.names, Record.names, filter_map]
  congr 1
  refine filter_congr fun p _ => ?_
  by_cases hp : p.1 = name
  · simp [hp]
  · simp [hp, bne_iff_ne]

/-- A call that ends where the books are even. -/
theorem Follows.ends {record : Option (Record V)} {answer : Answer V} (h : Follows s b)
    (hb : b = ⟨names s, []⟩) (hnames : (record.map Record.names).getD [] = names s) :
    Follows ({ s with record := record }.ends answer) b := by
  refine ⟨h.read, ?_, fun _ => ?_, nofun⟩
  · show ((record.map Record.names).getD []).Nodup
    rw [hnames]
    exact h.nodup
  · show b = ⟨(record.map Record.names).getD [], []⟩
    rw [hnames]
    exact hb

/-- A call that finds the steps recorded in their order. -/
theorem Follows.enterLoop {compensate : Bool} (h : Follows s b) (hcall : s.call = none)
    (hnames : record.names = names s)
    (hordered : (w.steps.filter fun step => step.name ∈ names s).map Step.name = names s) :
    Follows (enterLoop w s record compensate) b := by
  have hb : b = ⟨record.names, []⟩ := by
    rw [hnames]
    exact h.idle hcall
  have hnd : record.names.Nodup := by
    rw [hnames]
    exact h.nodup
  refine ⟨h.read, hnd, nofun, ?_⟩
  rintro call ⟨⟩
  refine ⟨rfl, hb, ?_, fun n => Iff.rfl⟩
  show (w.steps.filter fun step => step.name ∈ record.names).map Step.name = record.names
  rw [hnames]
  exact hordered

theorem names_begin : (beginRecord w s).names = names s := by
  rw [beginRecord, names]
  cases s.record with
  | none | some => rfl

theorem Follows.run {compensate : Bool} (h : Follows s b) (hguard : Steady w s (.run compensate))
    (hcall : s.call = none) : Follows (run w s compensate) b := by
  rw [Workflow.run]
  split
  · exact h.ends (h.idle hcall) names_begin
  split
  · exact h.ends (h.idle hcall) rfl
  · exact h.enterLoop hcall names_begin hguard

theorem Follows.resume (h : Follows s b) (hguard : Steady w s .resume)
    (hcall : s.call = none) : Follows (resume w s) b := by
  rw [Workflow.resume]
  split
  · exact h.ends (h.idle hcall) rfl
  rename_i record hrecord
  split
  · exact h.ends (h.idle hcall) rfl
  split
  · exact h.ends (h.idle hcall) rfl
  split
  · exact h.ends (h.idle hcall) rfl
  · refine h.enterLoop hcall ?_ hguard
    rw [names, hrecord]
    rfl

variable {rest : List Step}

/-- The head of what is left after the recorded steps has no result. -/
theorem dropWhile_head {rest' : List Step} {step : Step} {results : List (String × V)}
    (h : (rest.dropWhile fun step => step.name ∈ results.map Prod.fst) = step :: rest') :
    step.name ∉ results.map Prod.fst := by
  have hhead := List.head?_dropWhile_not
    (fun step : Step => decide (step.name ∈ results.map Prod.fst)) rest
  rw [h] at hhead
  simpa using hhead

variable {call : Call V}

/-- A call goes on: the records, the books and where it is then. -/
theorem Follows.goes {b' : Books String} {log : List (Entry String)}
    (hread : UndoLog.read ⟨[], []⟩ log = some b')
    (hnd : record.names.Nodup) (htrack : Tracks record.names b' call)
    {answer : Option (Answer V)} : Follows ⟨some record, some call, answer, log⟩ b' := by
  refine ⟨hread, hnd, nofun, ?_⟩
  rintro call' ⟨⟩
  exact ⟨rfl, htrack⟩

section

variable (h : Follows s b) (hrecord : s.record = some record) (hcall : s.call = some call)
include h hrecord hcall

/-- The call is where the books say. -/
theorem Follows.running :
    names s = record.names ∧ record.names.Nodup ∧ Tracks record.names b call := by
  have hnames : names s = record.names := by rw [names, hrecord]; rfl
  exact ⟨hnames, hnames ▸ h.nodup, hnames ▸ (h.busy call hcall).2⟩

theorem Follows.advance (hph : call.phase = .stepping rest) :
    ∃ b', Follows (advance s record call rest) b' := by
  obtain ⟨hnames, hnd, htrack⟩ := h.running hrecord hcall
  rw [Tracks, hph] at htrack
  obtain ⟨hb, hcomp, hresults⟩ := htrack
  rw [Workflow.advance]
  split
  · exact ⟨b, h.ends (hnames ▸ hb) hnames.symm⟩
  · rename_i step rest' hdrop
    have hstep : step.name ∉ record.names := fun hmem =>
      dropWhile_head hdrop ((hresults step.name).mpr hmem)
    have henter : UndoLog.enter b (.runs step.name) = some b := by
      rw [hb]
      exact if_neg hstep
    refine ⟨b, ?_⟩
    rw [hrecord]
    refine .goes (enter h.read henter) hnd ?_
    exact ⟨hb, hcomp, hresults, hstep⟩

theorem Follows.fails {step : Step} (hph : call.phase = .calling step rest) :
    ∃ b', Follows (fails s call) b' := by
  obtain ⟨hnames, hnd, htrack⟩ := h.running hrecord hcall
  rw [Tracks, hph] at htrack
  obtain ⟨hb, hcomp, -, -⟩ := htrack
  rw [Workflow.fails, hrecord]
  split
  · have henter : UndoLog.enter b .fails = some ⟨record.names, record.names.reverse⟩ := by
      rw [hb]
      rfl
    refine ⟨_, .goes (enter h.read henter) hnd ?_⟩
    show _ = (⟨record.names, call.completed.reverse.map Step.name⟩ : Books String)
    rw [map_reverse, hcomp]
  · refine ⟨b, .goes h.read hnd ?_⟩
    exact hb

theorem Follows.undo {step : Step} {todo : List Step} {failures : Nat} {ok : Bool}
    (hph : call.phase = .undoing (step :: todo) failures) :
    ∃ b', Follows (undo s record call step todo failures ok) b' := by
  obtain ⟨hnames, hnd, htrack⟩ := h.running hrecord hcall
  rw [Tracks, hph] at htrack
  have henter : ∀ outcome, UndoLog.enter b (.attempt step.name outcome) =
      some ⟨stand record.names (.attempt step.name outcome), todo.map Step.name⟩ := by
    intro outcome
    rw [htrack]
    exact if_pos rfl
  rw [Workflow.undo, hrecord]
  split
  · refine ⟨_, .goes (enter h.read (henter .none)) ?_ ?_⟩
    · rw [names_uncomplete hnd]
      exact hnd.erase step.name
    · rw [names_uncomplete hnd]
      rfl
  split
  · refine ⟨_, .goes (enter h.read (henter .ran)) hnd ?_⟩
    rfl
  · refine ⟨_, .goes (enter h.read (henter .failed)) hnd ?_⟩
    rfl

theorem Follows.complete {step : Step} {result : V}
    (hph : call.phase = .recording step result rest) :
    ∃ b', Follows (complete s record call step result rest) b' := by
  obtain ⟨hnames, hnd, htrack⟩ := h.running hrecord hcall
  rw [Tracks, hph] at htrack
  obtain ⟨hb, hcomp, hresults, hstep⟩ := htrack
  have henter : UndoLog.enter b (.done step.name) = some ⟨record.names ++ [step.name], []⟩ := by
    rw [hb]
    exact if_neg hstep
  refine ⟨_, .goes (enter h.read henter) ?_ ?_⟩
  · rw [names_complete hstep]
    exact nodup_append.mpr ⟨hnd, nodup_singleton _,
      fun x hx y hy hxy => hstep (mem_singleton.mp hy ▸ hxy ▸ hx)⟩
  · rw [names_complete hstep]
    refine ⟨rfl, ?_, fun n => ?_⟩
    · rw [map_append, hcomp]
      rfl
    · rw [hresults, mem_append, mem_singleton]

theorem Follows.proceed (hstep : proceed s record call e = some s') : ∃ b', Follows s' b' := by
  obtain ⟨hnames, hnd, htrack⟩ := h.running hrecord hcall
  revert hstep
  fun_cases Workflow.proceed s record call e with
  | case1 rest hph =>
    rintro ⟨⟩
    exact h.advance hrecord hcall hph
  | case3 result step rest hph =>
    rintro ⟨⟩
    rw [Tracks, hph] at htrack
    obtain ⟨hb, hcomp, hresults, hname⟩ := htrack
    refine ⟨b, ?_⟩
    rw [hrecord]
    refine .goes h.read hnd ?_
    refine ⟨hb, hcomp, fun n => ?_, hname⟩
    rw [map_append, mem_append, hresults]
    exact or_congr_right mem_singleton
  | case5 step rest hph =>
    rintro ⟨⟩
    exact h.fails hrecord hcall hph
  | case7 step result rest hph =>
    rintro ⟨⟩
    exact h.complete hrecord hcall hph
  | case9 ok step todo failures hph =>
    rintro ⟨⟩
    exact h.undo hrecord hcall hph
  | case11 step todo failures hph =>
    rintro ⟨⟩
    rw [Tracks, hph] at htrack
    refine ⟨b, .goes h.read ?_ ?_⟩
    · rw [names_uncomplete hnd]
      exact hnd.erase step.name
    · rw [names_uncomplete hnd]
      exact htrack
  | case13 failures hph | case14 hph =>
    rintro ⟨⟩
    rw [Tracks, hph] at htrack
    exact ⟨b, h.ends (hnames ▸ htrack) hnames.symm⟩
  | _ => rintro ⟨⟩

end

/-- A call that dies outside its undo chain leaves even books. -/
theorem Follows.dies (h : Follows s b) (hguard : Steady w s .dies) (hcall : s.call = some call) :
    Follows (s.ends .raised) b := by
  obtain ⟨-, htrack⟩ := h.busy call hcall
  have hb : b = ⟨names s, []⟩ := by
    cases hph : call.phase with
    | undoing | erasing => simp [Steady, hcall, hph] at hguard
    | failing =>
      rw [Tracks, hph] at htrack
      exact htrack
    | stepping | calling | recording =>
      rw [Tracks, hph] at htrack
      exact htrack.1
  exact h.ends hb rfl

theorem Follows.step (h : Follows s b) (hguard : Steady w s e)
    (hstep : step w s e = some s') : ∃ b', Follows s' b' := by
  have hidle : ∀ {x : State V}, (if s.call.isSome then none else some x) =
      some s' → s.call = none ∧ x = s' := by
    intro x hx
    rw [Option.ite_none_left_eq_some] at hx
    exact ⟨Option.not_isSome_iff_eq_none.mp hx.1, some.inj hx.2⟩
  have hbusy : ∀ {e' : Event V}, (do
      let call ← s.call
      let record ← s.record
      Workflow.proceed s record call e') = some s' → ∃ b', Follows s' b' := by
    intro e' hx
    obtain ⟨call, hcall, hx⟩ := Option.bind_eq_some_iff.mp hx
    obtain ⟨record, hrecord, hx⟩ := Option.bind_eq_some_iff.mp hx
    exact h.proceed hrecord hcall hx
  cases e with
  | run compensate =>
    obtain ⟨hcall, rfl⟩ := hidle hstep
    exact ⟨b, h.run hguard hcall⟩
  | resume =>
    obtain ⟨hcall, rfl⟩ := hidle hstep
    exact ⟨b, h.resume hguard hcall⟩
  | dies =>
    simp only [Workflow.step, Option.ite_none_right_eq_some] at hstep
    obtain ⟨hsome, hs'⟩ := hstep
    obtain ⟨call, hcall⟩ := Option.isSome_iff_exists.mp hsome
    cases hs'
    exact ⟨b, h.dies hguard hcall⟩
  | advance | returns | raises | complete | undo | uncomplete | finish => exact hbusy hstep

theorem lawful_run {es : List (Event V)}
    (hrun : exec (guarded (Steady w) (step w)) State.init es = some s) : Lawful s.log := by
  have hsteps : ∀ (s : State V) e s', (∃ b, Follows s b) → Steady w s e →
      step w s e = some s' → ∃ b', Follows s' b' := by
    rintro s e s' ⟨b, hb⟩ hguard hstep
    exact hb.step hguard hstep
  obtain ⟨b, hb⟩ := exec_guarded_invariant hsteps ⟨_, Follows.init⟩ hrun
  rw [Lawful, hb.read]
  rfl

/-- **IT UNWINDS COMPLETELY**: no step runs again before its record was undone, after a
    failure nothing runs before what stood then has had its undo attempted, newest first,
    and what was undone is undone again only after it was completed again. -/
theorem unwinds_completely {es : List (Event V)}
    (hrun : exec (guarded (Steady w) (step w)) State.init es = some s) :
    (∀ before mid rest n, s.log = before ++ .done n :: (mid ++ .runs n :: rest) →
      ∃ outcome, outcome ≠ .failed ∧ .attempt n outcome ∈ mid) ∧
    (∀ before mid rest n, s.log = before ++ .fails :: (mid ++ .runs n :: rest) →
      ∃ first later, mid = first ++ later ∧
        first.map Entry.attempted = (standing before).reverse.map some) ∧
    ∀ before mid rest n outcome, s.log = before ++ .attempt n .ran ::
      (mid ++ .attempt n outcome :: rest) → .done n ∈ mid := by
  have hlawful := lawful_run hrun
  refine ⟨?_, ?_, ?_⟩
  · intro before mid rest n hlog
    rw [hlog] at hlawful
    exact stands hlawful
  · intro before mid rest n hlog
    rw [hlog] at hlawful
    exact owed_first hlawful
  · intro before mid rest n outcome hlog
    rw [hlog] at hlawful
    exact undone_once (by decide) hlawful

/-- Reserve, charge, ship; the first two can be undone. -/
def checkout : Definition where
  name := "checkout"
  steps := [⟨"reserve", true⟩, ⟨"charge", true⟩, ⟨"ship", false⟩]
  nodup := by decide

/-- Two steps complete and the third raises. -/
def shipFails : List (Event Nat) :=
  [.run true, .advance, .returns 1, .complete, .advance, .returns 2, .complete, .advance, .raises]

theorem unwinds_completely_checkout :
    ∃ s, exec (guarded (Steady checkout) (step checkout)) State.init
        (shipFails ++ [.undo true, .uncomplete, .undo true, .uncomplete,
          .finish, .resume, .advance]) = some s ∧
      s.log = [.runs "reserve", .done "reserve", .runs "charge",
        .done "charge", .runs "ship", .fails, .attempt "charge" .ran,
        .attempt "reserve" .ran, .runs "reserve"] ∧
      ∀ before mid rest n, s.log = before ++ .fails :: (mid ++ .runs n :: rest) →
        ∃ first later, mid = first ++ later ∧
          first.map Entry.attempted = (standing before).reverse.map some := by
  refine run_ends State.log _ ?_ fun s hrun hs => ⟨hs, (unwinds_completely hrun).2.1⟩
  decide +kernel

/-- **RUN AGAIN BEFORE THE REST IS UNDONE**: the call dies after the newest step is undone,
    and the next one runs that step while the older one still waits for its undo. -/
theorem rerun_before_undone : ∃ s, exec (step checkout) State.init
        (shipFails ++ [.undo true, .uncomplete, .dies, .resume, .advance]) = some s ∧
      ∃ before mid rest n, s.log = before ++ .fails :: (mid ++ .runs n :: rest) ∧
        standing before = ["reserve", "charge"] ∧
        mid = [.attempt "charge" .ran] := by
  refine run_ends State.log _ ?_ fun s _ hs => ⟨[.runs "reserve", .done "reserve",
    .runs "charge", .done "charge", .runs "ship"], [.attempt "charge" .ran], [], "charge", hs,
    by decide, rfl⟩
  decide +kernel

end Workflow
