import Mathlib.Data.List.Induction
import Mathlib.Data.List.Sort
import Mathlib.Data.Prod.Lex
import Wreath.StepSystemProofs

/-! # The log — one reader behind the horizon

Rows of `log.py` become visible in another order than their `(xid, seq)`. A reader takes
pages in that order, stops at `pg_snapshot_xmin` and resumes behind the last row it was
given: what it has been given is always the committed rows up to its cursor
(`log_read_once`). -/

namespace LogRead

open List StepSystem

/-- A transaction id and a sequence number, compared as a row. -/
abbrev Cursor := Nat ×ₗ Nat

def Cursor.start : Cursor := toLex (0, 0)

structure Record (V : Type) where
  cursor : Cursor
  stream : String
  values : V
  deriving DecidableEq

variable {V : Type}

def Record.xid (r : Record V) : Nat := (ofLex r.cursor).1

/-- The table with the transactions that wrote to it, and what the reader was given. -/
structure State (V : Type) where
  nextXid : Nat := 3
  active : List Nat := []
  aborted : List Nat := []
  rows : List (Record V) := []
  cursor : Cursor := .start
  delivered : List (Record V) := []
  deriving DecidableEq

variable (stream : Option String) (s : State V)

def State.committed (r : Record V) : Prop := r.xid ∉ s.active ∧ r.xid ∉ s.aborted

instance (r : Record V) : Decidable (s.committed r) := inferInstanceAs (Decidable (_ ∧ _))

/-- No transaction below it is in progress. -/
def State.horizon : Nat := s.active.foldr min s.nextXid

/-- `read` asks for one stream, `read_all` for every one. -/
def selects (r : Record V) : Bool := stream.all (· = r.stream)

/-- The rows that the statement selects. -/
def State.due (xmin : Nat) (r : Record V) : Prop :=
  s.committed r ∧ selects stream r = true ∧ r.xid < xmin ∧ s.cursor < r.cursor

instance (xmin : Nat) (r : Record V) :
    Decidable (s.due stream xmin r) := inferInstanceAs (Decidable (_ ∧ _))

def read (xmin limit : Nat) : List (Record V) :=
  ((s.rows.filter fun r => s.due stream xmin r).insertionSort
    fun a b => a.cursor ≤ b.cursor).take limit

/-- `log_batch`: the cursor of the last row, or the one the reader had. -/
def batchCursor (rows : List (Record V)) (after : Cursor) : Cursor :=
  (rows.getLast?.map Record.cursor).getD after

/-- The reader adopts the cursor of its batch. -/
def State.adopt (rows : List (Record V)) : State V :=
  { s with cursor := batchCursor rows s.cursor, delivered := s.delivered ++ rows }

/-- A transaction has its id from `begin` on; a read has a snapshot of its own. -/
inductive Event (V : Type) where
  | begin
  | append (xid seq : Nat) (stream : String) (values : V)
  | commit (xid : Nat)
  | abort (xid : Nat)
  | read (xmin limit : Nat)

def step : Event V → Option (State V)
  | .begin => some { s with nextXid := s.nextXid + 1, active := s.nextXid :: s.active }
  | .append xid seq name values =>
    -- the sequence gives out no value twice
    if xid ∈ s.active ∧ ∀ r ∈ s.rows, (ofLex r.cursor).2 ≠ seq then
      some { s with rows := ⟨toLex (xid, seq), name, values⟩ :: s.rows }
    else none
  | .commit xid =>
    if xid ∈ s.active then some { s with active := s.active.filter (· ≠ xid) } else none
  | .abort xid =>
    if xid ∈ s.active then
      some { s with active := s.active.filter (· ≠ xid), aborted := xid :: s.aborted }
    else none
  | .read xmin limit =>
    if xmin ≤ s.horizon ∧ 1 ≤ limit then some (s.adopt (read stream s xmin limit)) else none

variable {stream : Option String} {s s' : State V} {e : Event V} {xmin limit : Nat} {r : Record V}

theorem le_horizon : xmin ≤ s.horizon ↔ xmin ≤ s.nextXid ∧ ∀ x ∈ s.active, xmin ≤ x := by
  rw [State.horizon]
  induction s.active with
  | nil => simp
  | cons x xs ih =>
    rw [foldr_cons, Nat.le_min, ih, forall_mem_cons]
    exact and_left_comm

/-! ## One page -/

variable {rows : List (Record V)} {after : Cursor}

theorem batchCursor_le (h : rows.Pairwise (·.cursor < ·.cursor)) (hr : r ∈ rows) :
    r.cursor ≤ batchCursor rows after := by
  obtain ⟨init, last, rfl⟩ := eq_nil_or_concat' rows |>.resolve_left (ne_nil_of_mem hr)
  rw [batchCursor, getLast?_concat]
  rcases mem_append.mp hr with hr | hr
  · exact le_of_lt ((pairwise_append.mp h).2.2 r hr last (mem_singleton_self last))
  · rw [mem_singleton.mp hr]
    rfl

/-- The cursor of a page is the old one or that of a row on it. -/
theorem batchCursor_cases (rows : List (Record V)) (after : Cursor) :
    rows = [] ∧ batchCursor rows after = after ∨ ∃ r ∈ rows, batchCursor rows after = r.cursor := by
  rcases eq_nil_or_concat' rows with rfl | ⟨init, last, rfl⟩
  · exact .inl ⟨rfl, rfl⟩
  · refine .inr ⟨last, mem_append_right _ (mem_singleton_self last), ?_⟩
    rw [batchCursor, getLast?_concat]
    rfl

/-- **ONE PAGE**: due rows, in strict order, and of the due rows those up to its cursor. -/
theorem read_page (hrows : s.rows.Pairwise (·.cursor ≠ ·.cursor)) :
    (read stream s xmin limit).Pairwise (·.cursor < ·.cursor)
      ∧ (∀ r ∈ read stream s xmin limit, r ∈ s.rows ∧ s.due stream xmin r)
      ∧ (∀ r ∈ s.rows, s.due stream xmin r →
          r.cursor ≤ batchCursor (read stream s xmin limit) s.cursor → r ∈ read stream s xmin limit)
      ∧ (1 ≤ limit → read stream s xmin limit = [] → ∀ r ∈ s.rows, ¬s.due stream xmin r) := by
  let byCursor : Record V → Record V → Prop := fun a b => a.cursor ≤ b.cursor
  let sorted := (s.rows.filter fun r => s.due stream xmin r).insertionSort byCursor
  have hread : read stream s xmin limit = sorted.take limit := rfl
  have hmem : ∀ r, r ∈ sorted ↔ r ∈ s.rows ∧ s.due stream xmin r := by
    intro r
    rw [mem_insertionSort, mem_filter, decide_eq_true_eq]
  have hstrict : sorted.Pairwise (·.cursor < ·.cursor) := by
    have hle : sorted.Pairwise byCursor := pairwise_insertionSort byCursor _
    have hne : sorted.Pairwise (·.cursor ≠ ·.cursor) :=
      ((perm_insertionSort byCursor _).pairwise_iff fun h => h.symm).mpr (hrows.filter _)
    exact hle.imp₂ (fun _ _ => lt_of_le_of_ne) hne
  rw [hread]
  refine ⟨hstrict.sublist (take_sublist ..), fun r hr => (hmem r).mp (mem_of_mem_take hr),
    ?_, fun hlimit hnone r hr hdue => ?_⟩
  rotate_left
  · have hnil := (take_eq_nil_iff.mp hnone).resolve_left (Nat.ne_of_gt hlimit)
    exact absurd ((hmem r).mpr ⟨hr, hdue⟩) (hnil ▸ not_mem_nil)
  intro r hr hdue hle
  have hsplit := (hmem r).mpr ⟨hr, hdue⟩
  rw [← take_append_drop limit sorted] at hsplit hstrict
  refine (mem_append.mp hsplit).resolve_right fun hdrop => ?_
  rcases batchCursor_cases (sorted.take limit) s.cursor with ⟨-, h⟩ | ⟨last, hlast, h⟩
  · rw [h] at hle
    exact absurd hle (not_le_of_gt hdue.2.2.2)
  · rw [h] at hle
    exact absurd hle (not_le_of_gt ((pairwise_append.mp hstrict).2.2 last hlast r hdrop))

/-! ## All runs -/

/-- What the reader was given is what is committed up to its cursor, and whatever can still
    be committed lies behind the cursor. -/
structure Exact (stream : Option String) (s : State V) : Prop where
  open_ : ∀ x ∈ s.active, x < s.nextXid ∧ (ofLex s.cursor).1 < x
  next : (ofLex s.cursor).1 < s.nextXid
  begun : ∀ r ∈ s.rows, r.xid < s.nextXid
  places : s.rows.Pairwise (·.cursor ≠ ·.cursor)
  order : s.delivered.Pairwise (·.cursor < ·.cursor)
  given : ∀ r, r ∈ s.delivered ↔ r ∈ s.rows ∧ s.committed r
    ∧ selects stream r = true ∧ r.cursor ≤ s.cursor

theorem xid_le (h : r.cursor ≤ after) : r.xid ≤ (ofLex after).1 := Prod.Lex.monotone_fst_ofLex h

/-- A transaction ends: its rows lie behind the cursor, whether they count now or not. -/
theorem Exact.ends (h : Exact stream s) {x : Nat} (hx : x ∈ s.active) {aborted : List Nat}
    (haborted : ∀ y ≠ x, y ∈ aborted ↔ y ∈ s.aborted) :
    Exact stream { s with active := s.active.filter (· ≠ x), aborted := aborted } where
  open_ y hy := h.open_ y (mem_of_mem_filter hy)
  next := h.next
  begun := h.begun
  places := h.places
  order := h.order
  given r := by
    rw [h.given]
    refine and_congr_right fun _ => ?_
    by_cases hr : r.xid = x
    · have hbehind : ¬r.cursor ≤ s.cursor :=
        fun hle => absurd (xid_le hle) (Nat.not_le_of_lt (hr ▸ (h.open_ x hx).2))
      simp only [hbehind, and_false]
    · simp [State.committed, haborted _ hr, mem_filter, hr]

theorem Exact.adopt (h : Exact stream s) (hxmin : xmin ≤ s.horizon) (limit : Nat) :
    Exact stream (s.adopt (read stream s xmin limit)) := by
  obtain ⟨horder, hdue, hupto, -⟩ := read_page h.places
  obtain ⟨hnext, hopen⟩ := le_horizon.mp hxmin
  rcases batchCursor_cases (read stream s xmin limit) s.cursor with ⟨hnone, -⟩ | ⟨last, hlast, hc⟩
  · rw [hnone, State.adopt, append_nil]
    exact h
  -- the cursor moves to a row below the horizon
  obtain ⟨-, -, -, hxid, hforward⟩ := hdue last hlast
  rw [State.adopt, hc]
  refine ⟨fun x hx => ⟨(h.open_ x hx).1, Nat.lt_of_lt_of_le hxid (hopen x hx)⟩,
    Nat.lt_of_lt_of_le hxid hnext, h.begun, h.places, pairwise_append.mpr ⟨h.order, horder, ?_⟩,
    fun r => ?_⟩
  · intro a ha b hb
    exact lt_of_le_of_lt ((h.given a).mp ha).2.2.2 (hdue b hb).2.2.2.2
  rw [mem_append, h.given]
  constructor
  · rintro (⟨hr, hcomm, hstream, hle⟩ | hr)
    · exact ⟨hr, hcomm, hstream, hle.trans hforward.le⟩
    · obtain ⟨hrows, hcomm, hstream, -⟩ := hdue r hr
      exact ⟨hrows, hcomm, hstream, hc ▸ batchCursor_le horder hr⟩
  · rintro ⟨hr, hcomm, hstream, hle⟩
    rcases le_or_gt r.cursor s.cursor with hold | hnew
    · exact .inl ⟨hr, hcomm, hstream, hold⟩
    · have hbelow := Nat.lt_of_le_of_lt (xid_le hle) hxid
      exact .inr (hupto r hr ⟨hcomm, hstream, hbelow, hnew⟩ (hc ▸ hle))

theorem Exact.step (h : Exact stream s) (hs : step stream s e = some s') : Exact stream s' := by
  revert hs
  fun_cases LogRead.step stream s e with
  | case1 =>
    rintro ⟨⟩
    obtain ⟨hopen, hnext, hbegun, hplaces, horder, hgiven⟩ := h
    refine ⟨?_, Nat.lt_succ_of_lt hnext, fun r hr => Nat.lt_succ_of_lt (hbegun r hr), hplaces,
      horder, fun r => ?_⟩
    · rw [forall_mem_cons]
      exact ⟨⟨Nat.lt_succ_self _, hnext⟩,
        fun x hx => ⟨Nat.lt_succ_of_lt (hopen x hx).1, (hopen x hx).2⟩⟩
    · rw [hgiven]
      refine and_congr_right fun hr => ?_
      simp only [State.committed, mem_cons, Nat.ne_of_lt (hbegun r hr), false_or]
  | case2 xid seq name values hx =>
    rintro ⟨⟩
    obtain ⟨hx, hseq⟩ := hx
    obtain ⟨hopen, hnext, hbegun, hplaces, horder, hgiven⟩ := h
    refine ⟨hopen, hnext, forall_mem_cons.mpr ⟨(hopen xid hx).1, hbegun⟩, ?_, horder, fun r => ?_⟩
    · refine pairwise_cons.mpr ⟨fun r hr h => hseq r hr ?_, hplaces⟩
      rw [← h]
      rfl
    · -- the row is not committed yet
      rw [hgiven, mem_cons]
      refine and_congr_left fun ⟨hc, _⟩ => ⟨.inr, fun hr => hr.resolve_left ?_⟩
      rintro rfl
      exact hc.1 hx
  | case4 xid hx =>
    rintro ⟨⟩
    exact h.ends hx fun _ _ => Iff.rfl
  | case6 xid hx =>
    rintro ⟨⟩
    exact h.ends hx fun y hy => by simp [hy]
  | case8 xmin limit hx =>
    rintro ⟨⟩
    exact h.adopt hx.1 limit
  | _ => rintro ⟨⟩

/-- Reads after the last writer: nothing is left, or every one of them gave a row. -/
theorem reads_deliver (h : Exact stream s) (hquiet : s.active = []) (limits : List Nat)
    (hlimits : ∀ n ∈ limits, 1 ≤ n) :
    ∃ cursor delivered, exec (step stream) s (limits.map (.read s.nextXid)) =
        some { s with cursor, delivered }
      ∧ Exact stream { s with cursor, delivered }
      ∧ ((∀ r ∈ s.rows, ¬{ s with cursor, delivered }.due stream s.nextXid r)
        ∨ limits.length ≤ delivered.length) := by
  induction limits using List.reverseRecOn with
  | nil => exact ⟨s.cursor, s.delivered, rfl, h, .inr (Nat.zero_le _)⟩
  | append_singleton limits n ih =>
    obtain ⟨hlimits, hn⟩ := forall_mem_append.mp hlimits
    obtain ⟨cursor, delivered, hrun, hexact, hleft⟩ := ih hlimits
    have hhorizon : s.nextXid ≤ s.horizon := le_horizon.mpr ⟨le_rfl, by simp [hquiet]⟩
    obtain ⟨-, hdue, -, hnone⟩ := read_page hexact.places
    refine ⟨_, _, ?_, hexact.adopt hhorizon n, ?_⟩
    · rw [map_append, map_singleton, exec_concat, hrun, Option.bind_some, step]
      exact if_pos ⟨hhorizon, hn n (mem_singleton_self n)⟩
    · generalize read stream _ s.nextXid n = page at *
      cases page with
      | nil => exact .inl (hnone (hn n (mem_singleton_self n)) rfl)
      | cons r page =>
        obtain ⟨hr, hdue⟩ := hdue r mem_cons_self
        refine .inr ?_
        have := hleft.resolve_left fun hleft => hleft r hr hdue
        simp only [length_append, length_cons, length_nil]
        omega

/-- **READ ONCE**: what the reader was given is in strict order, and it is the committed rows
    up to its cursor; a row that may still be committed lies behind. Once the writers are
    done, reads of one row or more deliver the rest. -/
theorem log_read_once {events : List (Event V)} (hrun : exec (step stream) {} events = some s) :
    s.delivered.Pairwise (·.cursor < ·.cursor)
      ∧ (∀ r, r ∈ s.delivered ↔ r ∈ s.rows ∧ s.committed r
        ∧ selects stream r = true ∧ r.cursor ≤ s.cursor)
      ∧ (∀ r ∈ s.rows, r.xid ∈ s.active → s.cursor < r.cursor)
      ∧ ∀ limits : List Nat, s.active = [] → (∀ n ∈ limits, 1 ≤ n) →
        s.rows.length ≤ limits.length →
        ∃ s', exec (step stream) s (limits.map (.read s.nextXid)) = some s'
          ∧ ∀ r ∈ s.rows, s.committed r → selects stream r = true → r ∈ s'.delivered := by
  have hstart : Exact stream ({} : State V) :=
    ⟨nofun, Nat.zero_lt_succ 2, nofun, .nil, .nil, by simp⟩
  have h : Exact stream s := exec_invariant (fun _ _ _ h hs => h.step hs) events hstart hrun
  refine ⟨h.order, h.given, fun r _ hr => ?_, fun limits hquiet hlimits hlength => ?_⟩
  · exact lt_of_not_ge fun hle => absurd (xid_le hle) (Nat.not_le_of_lt (h.open_ _ hr).2)
  · obtain ⟨cursor, delivered, hreads, hexact, hleft⟩ := reads_deliver h hquiet limits hlimits
    refine ⟨_, hreads, fun r hr hcommitted hstream => ?_⟩
    rcases le_or_gt r.cursor cursor with hle | hgt
    · exact (hexact.given r).mpr ⟨hr, hcommitted, hstream, hle⟩
    -- there are no more rows than reads, and `r` is one that was not given
    have hfull := hleft.resolve_left fun hnone =>
      hnone r hr ⟨hcommitted, hstream, h.begun r hr, hgt⟩
    have hnodup : (r :: delivered).Nodup := nodup_cons.mpr
      ⟨fun hr => absurd ((hexact.given r).mp hr).2.2.2 (not_le_of_gt hgt),
        hexact.order.imp fun h heq => absurd (heq ▸ h) (lt_irrefl _)⟩
    have hsubset : r :: delivered ⊆ s.rows :=
      cons_subset.mpr ⟨hr, fun a ha => ((hexact.given a).mp ha).1⟩
    have hle := (subperm_of_subset hnodup hsubset).length_le
    rw [length_cons] at hle
    omega

/-- The first transaction commits last; the reader waits for it and has both rows in order. -/
theorem log_read_once_late : ∃ s, exec (step (some "a")) ({} : State Unit)
      [.begin, .begin, .append 4 1 "a" (), .commit 4, .read 3 9, .append 3 2 "a" (),
        .append 3 5 "b" (), .commit 3, .read 5 9] = some s
    ∧ (s.delivered.map fun r => ofLex r.cursor) = [(3, 2), (4, 1)]
    ∧ s.delivered.Pairwise (·.cursor < ·.cursor) :=
  run_ends (fun s => s.delivered.map fun r => ofLex r.cursor) _ (by decide) fun _ hrun hread =>
    ⟨hread, (log_read_once hrun).1⟩

end LogRead
