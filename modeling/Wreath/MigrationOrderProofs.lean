import Wreath.StepSystemProofs
import Wreath.MigrationSqlProofs
import Wreath.SearchProofs

/-! # Migration order — what a statement needs before it

The statements of a plan run in the order of `operation_rank`. An operation depends on
another when PostgreSQL refuses it before the other has run (`Depends`). The ranks respect
this but for two mixtures with generated columns (`statements_in_order`): one is added before
a column it reads gets its type (`generated_before_retype`), and one that is not stored is
dropped in the order of the plan. -/

namespace Migration

open ByteScan StableSort List

/-! ## Dependencies -/

section Dependencies

-- which columns the expression in a signature names: PostgreSQL's parser says
variable (mentions : Bytes → Bytes → Prop)

/-- Whether a column's signature is one of a generated column: its sixth field is
    `attgenerated`, and is empty for any other column. -/
def isGenerated (signature : Bytes) : Bool := (signature.splitOn 0x1f).getD 5 [] ≠ []

/-- The operations are on one table. -/
def SameTable (x y : Operation) : Prop := x.schema = y.schema ∧ x.table = y.table

/-- A column that gets another type. -/
def retypes (op : Operation) : Bool := op.action = .alter && op.kind = 2
    && match splitColumn op.before.bytes, splitColumn op.after.bytes with
      | some before, some after =>
        match parseOid before.oid, parseOid after.oid with
        | some beforeOid, some afterOid =>
          retyped before after beforeOid afterOid
        | _, _ => false
      | _, _ => false

/-- The foreign key `f` references the key or the unique index `k`. -/
def References (f k : Operation) : Prop :=
  f.kind = 3 ∧ ∃ form, constraintForm f = some form ∧ form.tag = ascii "f"
    ∧ k.schema.bytes = form.schema ∧ k.table.bytes = form.table
    ∧ ((k.kind = 3 ∧ ∃ key, constraintForm k = some key ∧ key.tag ≠ ascii "f"
          ∧ (key.columns.splitOn 44).Perm (form.reference.splitOn 44))
      ∨ (k.kind = 4 ∧ ∃ index, indexForm k = some index ∧ index.unique = true
          ∧ (index.columns.splitOn 44).Perm (form.reference.splitOn 44)))

/-- The object of `o`, with its signature, uses the column of `c`. -/
def Uses (o : Operation) (signature : Bytes) (c : Operation) : Prop :=
  (o.kind = 2 ∧ isGenerated signature = true ∧ SameTable o c ∧ mentions signature c.name.bytes)
    ∨ (o.kind = 3 ∧ ∃ form, constraintForm o = some form
      ∧ (SameTable o c ∧ c.name.bytes ∈ form.columns.splitOn 44
        ∨ c.schema.bytes = form.schema ∧ c.table.bytes = form.table
          ∧ c.name.bytes ∈ form.reference.splitOn 44))
    ∨ (o.kind = 4 ∧ SameTable o c ∧ ((∃ form, indexForm o = some form
          ∧ c.name.bytes ∈ form.columns.splitOn 44)
        ∨ mentions signature c.name.bytes))

/-- **DEPENDS**: `x` is refused before `y` has run. -/
inductive Depends (x y : Operation) : Prop where
  -- a foreign key is added after its key and dropped before it
  | reference : x.action = .add → y.action = .add → References x y → Depends x y
  | referenced : x.action = .drop → y.action = .drop → References y x → Depends x y
  -- a column, constraint or index is added after its table and dropped
  -- before it
  | member : x.action = .add → x.kind ≠ 1 → y.action = .add → y.kind = 1 →
      SameTable x y → Depends x y
  | container : x.action = .drop → x.kind = 1 → y.action = .drop → y.kind ≠ 1 →
      SameTable x y → Depends x y
  -- what uses a column is added when it is there, with its final type
  | user : x.action = .add → Uses mentions x x.after.bytes y →
      (y.action = .add ∧ y.kind = 2 ∨ retypes y = true) → Depends x y
  -- a column is dropped or retyped when what used it is gone
  | used : (x.action = .drop ∧ x.kind = 2 ∨ retypes x = true) →
      y.action = .drop → Uses mentions y y.before.bytes x → Depends x y

/-- Whether an operation has a statement: it is not MANUAL. -/
def rendered (op : Operation) : Bool := (renderOperation op).isOk

/-- What stands on a tape for an operation; nothing, when it is MANUAL. -/
def StatementFor (op : Operation) (s : Statement) : Prop :=
  match renderOperation op with
  | .ok sql => s.sql = sql
  | .error _ => s.sql = []

/-- No statement on the tape of the plan runs before one it depends on. -/
def InOrder (plan tape : Bytes) : Prop := ∃ operations statements,
    parsePlan plan = .ok operations ∧ tape = tapeBytes statements
      ∧ Forall₂ StatementFor operations statements
      ∧ (operations.filter rendered).Pairwise fun x y => ¬Depends mentions x y

/-- What is needed of a valid schema: a generated column does not read another one. -/
def ValidSchema (schema : Schema) : Prop :=
  ∀ g ∈ schema, ∀ c ∈ schema, g.1.kind = 2 → c.1.kind = 2 →
    g.1.schema = c.1.schema → g.1.table = c.1.table →
    isGenerated g.2.bytes = true → mentions g.2.bytes c.1.name.bytes →
    isGenerated c.2.bytes = false

/-- The operations of a plan from one schema to another. -/
structure Between (source target : Schema) (ops : List Operation) : Prop where
  adds : ∀ op ∈ ops, op.action = .add → (op.object, op.after) ∈ target
  drops : ∀ op ∈ ops, op.action = .drop → (op.object, op.before) ∈ source
  alters : ∀ op ∈ ops, op.action = .alter →
    (op.object, op.before) ∈ source ∧ (op.object, op.after) ∈ target

/-- A generated column is added, and a column it names gets another type. -/
structure AddsBeforeRetype (g c : Operation) : Prop where
  adds : g.action = .add
  column : g.kind = 2
  generated : isGenerated g.after.bytes = true
  retypes : retypes c = true
  table : SameTable g c
  names : mentions g.after.bytes c.name.bytes

/-- A column is dropped, and so is a generated column that names it and that the ranks do
    not tell from an ordinary one. -/
structure DropsUnranked (c g : Operation) : Prop where
  drops : c.action = .drop ∧ g.action = .drop
  columns : c.kind = 2 ∧ g.kind = 2
  generated : isGenerated g.before.bytes = true
  unranked : columnSignatureIsGenerated g.before.bytes = false
  table : SameTable g c
  names : mentions g.before.bytes c.name.bytes

/-- **CALM**: the two mixtures do not occur; of two columns that are dropped only the one
    that is listed first matters. -/
structure Calm (ops : List Operation) : Prop where
  adds : ∀ g ∈ ops, ∀ c ∈ ops, rendered g = true → rendered c = true →
    ¬AddsBeforeRetype mentions g c
  drops : ops.Pairwise fun c g => rendered c = true → rendered g = true →
    ¬DropsUnranked mentions c g

end Dependencies

/-! ## Ranks -/

/-- The comparator is the order by rank and position. -/
theorem operationCompare_ne_gt (x y : Operation × Nat) : operationCompare x y ≠ .gt
      ↔ toLex (operationRank x.1, x.2) ≤ toLex (operationRank y.1, y.2) := by
  rw [operationCompare, Prod.Lex.toLex_le_toLex]
  split
  · split
    · simp; omega
    · simp; omega
  · split
    · simp; omega
    · split
      · simp; omega
      · simp; omega

/-- What holds in the sorted plan, read off the plan. -/
theorem sortOperations_pairwise {R : Operation → Operation → Prop} {ops : List Operation} :
    (sortOperations ops).Pairwise R ↔ ops.Pairwise (Arranged operationRank R) :=
  pairwise_sort_zipIdx_iff operationCompare_ne_gt

/-- Sorting only reorders. -/
theorem sortOperations_perm (ops : List Operation) : (sortOperations ops).Perm ops := by
  have h := (ops.zipIdx.perm_insertionSort fun a b => operationCompare a b ≠ .gt).map Prod.fst
  rwa [zipIdx_map_fst] at h

section Ranks

variable {op : Operation}

/-- Tables are added after every drop. -/
theorem rank_add_table (ha : op.action = .add) (hk : op.kind = 1) : operationRank op = 6 := by
  simp [operationRank, ha, hk]

/-- Tables are the last to be dropped. -/
theorem rank_drop_table (ha : op.action = .drop) (hk : op.kind = 1) : operationRank op = 5 := by
  simp [operationRank, ha, hk]

/-- Generated columns are added after plain ones. -/
theorem rank_add_column (ha : op.action = .add) (hk : op.kind = 2) :
    operationRank op = if columnSignatureIsGenerated op.after.bytes then 8 else 7 := by
  simp [operationRank, ha, hk]

/-- Generated columns are dropped before plain ones. -/
theorem rank_drop_column (ha : op.action = .drop) (hk : op.kind = 2) :
    operationRank op = if columnSignatureIsGenerated op.before.bytes then 3 else 4 := by
  simp [operationRank, ha, hk]

/-- Columns are altered once all are added. -/
theorem rank_alter_column (ha : op.action = .alter) (hk : op.kind = 2) : operationRank op = 9 := by
  simp [operationRank, ha, hk]

/-- Foreign keys are added last. -/
theorem rank_add_constraint (ha : op.action = .add) (hk : op.kind = 3) :
    operationRank op = if constraintIsForeignKey op then 12 else 10 := by
  simp [operationRank, ha, hk]

/-- Foreign keys are dropped first. -/
theorem rank_drop_constraint (ha : op.action = .drop) (hk : op.kind = 3) :
    operationRank op = if constraintIsForeignKey op then 0 else 2 := by
  simp [operationRank, ha, hk]

/-- Indexes are added after the plain constraints. -/
theorem rank_add_index (ha : op.action = .add) (hk : op.kind = 4) : operationRank op = 11 := by
  simp [operationRank, ha, hk]

/-- Indexes are dropped after the foreign keys. -/
theorem rank_drop_index (ha : op.action = .drop) (hk : op.kind = 4) : operationRank op = 1 := by
  simp [operationRank, ha, hk]

end Ranks

/-! ## What the ranks are decided by -/

variable {op : Operation}

/-- The tag of a constraint's form is the one the rank looks at. -/
theorem foreignKey_iff_tag {form : ConstraintForm} (h : constraintForm op = some form) :
    constraintIsForeignKey op = true ↔ form.tag = ascii "f" := by
  rw [constraintForm] at h
  split at h
  case h_2 => cases h
  rename_i tag columns schema table reference hsplit
  split at h
  case isFalse => cases h
  cases h
  have hname : [58].intercalate (op.name.bytes.splitOn 58) = op.name.bytes := intercalate_splitOn 58
  rw [hsplit] at hname
  rw [constraintIsForeignKey, decide_eq_true_eq, ← hname]
  rename_i htag
  rcases htag with rfl | rfl | rfl
  · exact iff_of_false nofun (show ascii "p" ≠ ascii "f" by decide)
  · exact iff_of_false nofun (show ascii "u" ≠ ascii "f" by decide)
  · exact iff_of_true rfl rfl

variable {signature : Bytes}

/-- The seven parts are the pieces of the signature. -/
theorem splitColumn_eq {c : ColumnParts} (h : splitColumn signature = some c) :
    signature.splitOn 0x1f = [c.tag, c.oid, c.spelling, c.notNull, c.identity,
      c.generated, c.expression] := by
  rw [splitColumn] at h
  split at h
  · rename_i hsplit
    cases h
    exact hsplit
  · cases h

/-- A column is generated when it says how. -/
theorem isGenerated_eq {c : ColumnParts} (h : splitColumn signature = some c) :
    isGenerated signature = true ↔ c.generated ≠ [] := by
  rw [isGenerated, splitColumn_eq h, decide_eq_true_eq]
  rfl

/-- What the rank takes for a generated column is one. -/
theorem isGenerated_of_ranked (h : columnSignatureIsGenerated signature = true) :
    isGenerated signature = true := by
  rw [columnSignatureIsGenerated] at h
  split at h
  · cases h
  rename_i c hsplit
  rw [Bool.and_eq_true, decide_eq_true_eq, decide_eq_true_eq] at h
  rw [isGenerated_eq hsplit, h.2]
  decide

/-- The rank takes no plain column for a generated one. -/
theorem ranked_false (h : isGenerated signature = false) :
    columnSignatureIsGenerated signature = false := by
  by_contra hne
  rw [isGenerated_of_ranked (Bool.not_eq_false _ ▸ hne)] at h
  cases h

/-- A column that is added has a definition. -/
theorem rendered_add_column (ha : op.action = .add) (hk : op.kind = 2) (h : rendered op = true) :
    ∃ definition, renderColumnDefinition op.after.bytes = .ok definition := by
  have hop : renderOperation op = renderAddColumn op := by
    simp [renderOperation, ha, hk]
  rw [rendered, hop, renderAddColumn] at h
  cases hq : appendQualified op with
  | error e => rw [hq] at h; cases h
  | ok table =>
    cases hn : appendIdentifier op.name.bytes with
    | error e => rw [hq, hn] at h; cases h
    | ok name =>
      cases hd : renderColumnDefinition op.after.bytes with
      | error e => rw [hq, hn, hd] at h; cases h
      | ok definition => exact ⟨definition, rfl⟩

/-- A generated column that is rendered is a stored one, and the rank knows it. -/
theorem ranked_of_rendered (ha : op.action = .add)
    (hk : op.kind = 2) (hgen : isGenerated op.after.bytes = true) (h : rendered op = true) :
    columnSignatureIsGenerated op.after.bytes = true := by
  obtain ⟨definition, hdef⟩ := rendered_add_column ha hk h
  rw [renderColumnDefinition] at hdef
  split at hdef
  · cases hdef
  rename_i c hsplit
  have hfield := (isGenerated_eq hsplit).mp hgen
  split at hdef
  case h_2 => cases hdef
  rename_i oid htag hoid
  rw [columnSignatureIsGenerated, hsplit]
  simp only [Bool.and_eq_true, htag, decide_eq_true_eq, true_and]
  by_contra hstored
  rw [if_pos ⟨hstored, hfield⟩] at hdef
  cases hdef

/-! ## The ranks respect the dependencies -/

section Order

variable {mentions : Bytes → Bytes → Prop}

/-- A foreign key is added last and dropped first. -/
theorem rank_references {f k : Operation} (h : References f k) :
    (f.action = .add → k.action = .add → operationRank k < operationRank f)
      ∧ (f.action = .drop → k.action = .drop → operationRank f < operationRank k) := by
  obtain ⟨hf, form, hform, htag, -, -, hkey⟩ := h
  have hforeign := (foreignKey_iff_tag hform).mpr htag
  rcases hkey with ⟨hk, key, hkform, hktag, -⟩ | ⟨hk, -⟩
  · have hown : ¬constraintIsForeignKey k = true := mt (foreignKey_iff_tag hkform).mp hktag
    constructor
    · intro hfa hka
      rw [rank_add_constraint hfa hf, rank_add_constraint hka hk, if_pos hforeign, if_neg hown]
      decide
    · intro hfa hka
      rw [rank_drop_constraint hfa hf, rank_drop_constraint hka hk, if_pos hforeign, if_neg hown]
      decide
  · constructor
    · intro hfa hka
      rw [rank_add_constraint hfa hf, rank_add_index hka hk, if_pos hforeign]
      decide
    · intro hfa hka
      rw [rank_drop_constraint hfa hf, rank_drop_index hka hk, if_pos hforeign]
      decide

variable {op : Operation}

/-- There are four kinds. -/
theorem Operation.WellFormed.kind_cases (h : op.WellFormed) :
    op.kind = 1 ∨ op.kind = 2 ∨ op.kind = 3 ∨ op.kind = 4 := by
  have hkind := h.kind
  simp only [← UInt32.toNat_inj]
  show _ = 1 ∨ _ = 2 ∨ _ = 3 ∨ _ = 4
  omega

/-- What a table holds is added after it. -/
theorem rank_add_member (h : op.WellFormed)
    (ha : op.action = .add) (hk : op.kind ≠ 1) : 6 < operationRank op := by
  rcases h.kind_cases with hk' | hk' | hk' | hk'
  · exact absurd hk' hk
  · rw [rank_add_column ha hk']
    split <;> decide
  · rw [rank_add_constraint ha hk']
    split <;> decide
  · rw [rank_add_index ha hk']
    decide

/-- What a table holds is dropped before it. -/
theorem rank_drop_member (h : op.WellFormed)
    (ha : op.action = .drop) (hk : op.kind ≠ 1) : operationRank op < 5 := by
  rcases h.kind_cases with hk' | hk' | hk' | hk'
  · exact absurd hk' hk
  · rw [rank_drop_column ha hk']
    split <;> decide
  · rw [rank_drop_constraint ha hk']
    split <;> decide
  · rw [rank_drop_index ha hk']
    decide

/-- Only a column is retyped. -/
theorem retypes_column (h : retypes op = true) : op.action = .alter ∧ op.kind = 2 := by
  rw [retypes, Bool.and_eq_true, Bool.and_eq_true] at h
  exact ⟨of_decide_eq_true h.1.1, of_decide_eq_true h.1.2⟩

/-- Constraints and indexes are added after any change of a column. -/
theorem rank_add_user {o c : Operation} (ha : o.action = .add) (hk : o.kind = 3 ∨ o.kind = 4)
    (hc : c.action = .add ∧ c.kind = 2 ∨ retypes c = true) : operationRank c < operationRank o := by
  have ho : 10 ≤ operationRank o := by
    rcases hk with hk | hk
    · rw [rank_add_constraint ha hk]
      split <;> decide
    · rw [rank_add_index ha hk]
      decide
  have hcol : operationRank c ≤ 9 := by
    rcases hc with ⟨hca, hck⟩ | hretypes
    · rw [rank_add_column hca hck]
      split <;> decide
    · obtain ⟨hca, hck⟩ := retypes_column hretypes
      rw [rank_alter_column hca hck]
  omega

/-- Constraints and indexes are dropped before any change of a column. -/
theorem rank_drop_user {o c : Operation} (ha : o.action = .drop) (hk : o.kind = 3 ∨ o.kind = 4)
    (hc : c.action = .drop ∧ c.kind = 2 ∨ retypes c = true) :
    operationRank o < operationRank c := by
  have ho : operationRank o ≤ 2 := by
    rcases hk with hk | hk
    · rw [rank_drop_constraint ha hk]
      split <;> decide
    · rw [rank_drop_index ha hk]
      decide
  have hcol : 3 ≤ operationRank c := by
    rcases hc with ⟨hca, hck⟩ | hretypes
    · rw [rank_drop_column hca hck]
      split <;> decide
    · obtain ⟨hca, hck⟩ := retypes_column hretypes
      rw [rank_alter_column hca hck]
      decide
  omega

section Plan

variable {source target : Schema} {ops : List Operation}
  (hsource : ValidSchema mentions source)
  (htarget : ValidSchema mentions target)
  (hbetween : Between source target ops)
  (hformed : ∀ op ∈ ops, op.WellFormed)

variable {op : Operation}

/-- A column's object carries its name. -/
theorem object_column (h : op.kind = 2) : op.object = ⟨2, op.schema, op.table, op.name⟩ := by
  rw [Operation.object, objectOf, h]
  rfl

/-- A column that a generated one reads is an ordinary one. -/
theorem ValidSchema.ordinary {schema : Schema} {g c : Operation} {gs cs : Short}
    (hvalid : ValidSchema mentions schema) (hg : (g.object, gs) ∈ schema)
    (hc : (c.object, cs) ∈ schema) (hgk : g.kind = 2) (hck : c.kind = 2)
    (hgen : isGenerated gs.bytes = true) (htable : SameTable g c)
    (hnames : mentions gs.bytes c.name.bytes) : columnSignatureIsGenerated cs.bytes = false := by
  rw [object_column hgk] at hg
  rw [object_column hck] at hc
  exact ranked_false (hvalid _ hg _ hc rfl rfl htable.1 htable.2 hgen hnames)

include hsource htarget hbetween hformed in
/-- **RANKED**: a statement has a higher rank than one it depends on, but for two mixtures. -/
theorem rank_of_depends {x y : Operation} (hx : x ∈ ops) (hy : y ∈ ops)
    (hrendered : rendered x = true) (h : Depends mentions x y) :
    operationRank y < operationRank x ∨ AddsBeforeRetype mentions x y
      ∨ (DropsUnranked mentions x y ∧ operationRank x = operationRank y) := by
  cases h with
  | reference hxa hya href => exact .inl ((rank_references href).1 hxa hya)
  | referenced hxa hya href => exact .inl ((rank_references href).2 hya hxa)
  | member hxa hxk hya hyk htable =>
    left
    rw [rank_add_table hya hyk]
    exact rank_add_member (hformed x hx) hxa hxk
  | container hxa hxk hya hyk htable =>
    left
    rw [rank_drop_table hxa hxk]
    exact rank_drop_member (hformed y hy) hya hyk
  | user hxa huses hcol =>
    rcases huses with ⟨hxk, hgen, htable, hnames⟩ | ⟨hxk, -⟩ | ⟨hxk, -⟩
    · rcases hcol with ⟨hya, hyk⟩ | hretypes
      · left
        rw [rank_add_column hxa hxk, rank_add_column hya hyk,
          if_pos (ranked_of_rendered hxa hxk hgen hrendered),
          htarget.ordinary (hbetween.adds x hx hxa) (hbetween.adds y hy hya) hxk hyk hgen
            htable hnames]
        decide
      · exact .inr (.inl ⟨hxa, hxk, hgen, hretypes, htable, hnames⟩)
    · exact .inl (rank_add_user hxa (.inl hxk) hcol)
    · exact .inl (rank_add_user hxa (.inr hxk) hcol)
  | used hcol hya huses =>
    rcases huses with ⟨hyk, hgen, htable, hnames⟩ | ⟨hyk, -⟩ | ⟨hyk, -⟩
    · rcases hcol with ⟨hxa, hxk⟩ | hretypes
      · have hordinary := hsource.ordinary (hbetween.drops y hy hya) (hbetween.drops x hx hxa)
          hyk hxk hgen htable hnames
        rw [rank_drop_column hxa hxk, rank_drop_column hya hyk, hordinary]
        cases hranked : columnSignatureIsGenerated y.before.bytes with
        | true => exact .inl (by decide)
        | false =>
          exact .inr (.inr ⟨⟨⟨hxa, hya⟩, ⟨hxk, hyk⟩, hgen, hranked, htable, hnames⟩, rfl⟩)
      · obtain ⟨hxa, hxk⟩ := retypes_column hretypes
        left
        rw [rank_alter_column hxa hxk, rank_drop_column hya hyk]
        split <;> decide
    · exact .inl (rank_drop_user hya (.inl hyk) hcol)
    · exact .inl (rank_drop_user hya (.inr hyk) hcol)

/-- Two statements the first of which does not depend on the second. -/
def Free (mentions : Bytes → Bytes → Prop) (x y : Operation) : Prop :=
  rendered x = true → rendered y = true → ¬Depends mentions x y

/-- Nothing rendered comes before what it depends on. -/
theorem free_sorted : ((sortOperations ops).filter rendered).Pairwise
        (fun x y => ¬Depends mentions x y)
      ↔ ops.Pairwise (Arranged operationRank (Free mentions)) := by
  rw [pairwise_filter, sortOperations_pairwise]
  rfl

/-- It is a dependency. -/
theorem AddsBeforeRetype.depends {g c : Operation}
    (h : AddsBeforeRetype mentions g c) : Depends mentions g c :=
  .user h.adds (.inl ⟨h.column, h.generated, h.table, h.names⟩) (.inr h.retypes)

/-- It is a dependency. -/
theorem DropsUnranked.depends {c g : Operation}
    (h : DropsUnranked mentions c g) : Depends mentions c g :=
  .used (.inl ⟨h.drops.1, h.columns.1⟩) h.drops.2
    (.inl ⟨h.columns.2, h.generated, h.table, h.names⟩)

include hsource hbetween in
/-- The rank does not tell the two apart. -/
theorem DropsUnranked.rank {c g : Operation} (h : DropsUnranked mentions c g) (hc : c ∈ ops)
    (hg : g ∈ ops) : operationRank c = 4 ∧ operationRank g = 4 := by
  rw [rank_drop_column h.drops.1 h.columns.1, rank_drop_column h.drops.2 h.columns.2, h.unranked,
    hsource.ordinary (hbetween.drops g hg h.drops.2) (hbetween.drops c hc h.drops.1)
      h.columns.2 h.columns.1 h.generated h.table h.names]
  exact ⟨rfl, rfl⟩

/-- The rank puts them the wrong way round. -/
theorem AddsBeforeRetype.rank {g c : Operation} (h : AddsBeforeRetype mentions g c)
    (hg : rendered g = true) : operationRank g < operationRank c := by
  obtain ⟨hca, hck⟩ := retypes_column h.retypes
  rw [rank_alter_column hca hck, rank_add_column h.adds h.column,
    if_pos (ranked_of_rendered h.adds h.column h.generated hg)]
  decide

include hsource htarget hbetween hformed in
/-- The statements are in order exactly when the two mixtures are absent. -/
theorem free_iff_calm :
    ops.Pairwise (Arranged operationRank (Free mentions)) ↔ Calm mentions ops := by
  constructor
  · intro hfree
    refine ⟨fun g hg c hc hgr hcr h => ?_, ?_⟩
    · exact arranged_mem hfree hg hc (h.rank hgr) hgr hcr h.depends
    · refine hfree.imp_of_mem fun {c g} hc hg hpair hcr hgr h => ?_
      obtain ⟨hcrank, hgrank⟩ := h.rank hsource hbetween hc hg
      rw [arranged_of_le (by omega)] at hpair
      exact hpair hcr hgr h.depends
  · intro hcalm
    refine hcalm.drops.imp_of_mem fun {a b} ha hb hdrops => ?_
    rcases le_or_gt (operationRank a) (operationRank b) with hle | hlt
    · rw [arranged_of_le hle]
      intro har hbr hdepends
      rcases rank_of_depends hsource htarget hbetween hformed ha hb har
        hdepends with hrank | hadds | ⟨hunranked, -⟩
      · omega
      · exact hcalm.adds a ha b hb har hbr hadds
      · exact hdrops har hbr hunranked
    · rw [arranged_of_lt hlt]
      intro hbr har hdepends
      rcases rank_of_depends hsource htarget hbetween hformed hb ha hbr
        hdepends with hrank | hadds | ⟨-, hrank⟩
      · omega
      · exact hcalm.adds b hb a ha hbr har hadds
      · omega

/-! ## The reverse plan -/

/-- A reversed operation is well formed. -/
theorem reverse_wellFormed (h : op.WellFormed) : (reverseOperation op).WellFormed :=
  ⟨h.kind, h.table⟩

/-- What is given is taken back. -/
theorem reverse_exchanges (op : Operation) :
    (reverseOperation op).takes = op.gives ∧ (reverseOperation op).gives = op.takes := by
  unfold Operation.takes Operation.gives reverseOperation
  cases op.action <;> exact ⟨rfl, rfl⟩

/-- Adding and dropping change places. -/
theorem reverse_action : ((reverseOperation op).action = .add ↔ op.action = .drop)
      ∧ ((reverseOperation op).action = .drop ↔ op.action = .add)
      ∧ ((reverseOperation op).action = .alter ↔ op.action = .alter) := by
  rw [reverseOperation]
  cases op.action <;> simp

include hbetween in
/-- The reversed plan leads back. -/
theorem reverse_between {back : List Operation} (hback : back.Perm (ops.map reverseOperation)) :
    Between target source back := by
  have hmem : ∀ op ∈ back, ∃ o ∈ ops, reverseOperation o = op :=
    fun op hop => mem_map.mp (hback.mem_iff.mp hop)
  refine ⟨fun op hop ha => ?_, fun op hop ha => ?_, fun op hop ha => ?_⟩
  all_goals obtain ⟨o, ho, rfl⟩ := hmem op hop
  · exact hbetween.drops o ho (reverse_action.1.mp ha)
  · exact hbetween.adds o ho (reverse_action.2.1.mp ha)
  · exact (hbetween.alters o ho (reverse_action.2.2.mp ha)).symm

include htarget hbetween in
/-- What the plan's own order decides in the reverse plan is decided by the forward plan's order. -/
theorem reverse_calm : Calm mentions ((sortOperations ops).map reverseOperation)
      ↔ Calm mentions (ops.map reverseOperation) := by
  have hperm := (sortOperations_perm ops).map reverseOperation
  have hdrops : ((sortOperations ops).map reverseOperation).Pairwise
        (fun c g => rendered c = true → rendered g = true → ¬DropsUnranked mentions c g)
      ↔ (ops.map reverseOperation).Pairwise (fun c g => rendered c = true → rendered g = true →
          ¬DropsUnranked mentions c g) := by
    rw [pairwise_map, sortOperations_pairwise, pairwise_map]
    -- two added columns of one rank: the sort leaves them as they stand
    have hrank : ∀ c ∈ ops, ∀ g ∈ ops,
        DropsUnranked mentions (reverseOperation c) (reverseOperation g) →
        operationRank c = operationRank g := by
      intro c hc g hg h
      have hca := reverse_action.2.1.mp h.drops.1
      have hga := reverse_action.2.1.mp h.drops.2
      have hordinary := htarget.ordinary (hbetween.adds g hg hga) (hbetween.adds c hc hca)
        h.columns.2 h.columns.1 h.generated h.table h.names
      have hunranked : columnSignatureIsGenerated g.after.bytes = false := h.unranked
      rw [rank_add_column hca h.columns.1, rank_add_column hga h.columns.2, hordinary, hunranked]
    constructor
    · intro h
      refine h.imp_of_mem fun {c g} hc hg hpair hcr hgr hdrops => ?_
      rw [arranged_of_le (hrank c hc g hg hdrops).le] at hpair
      exact hpair hcr hgr hdrops
    · intro h
      refine h.imp_of_mem fun {a b} ha hb hpair => ?_
      rcases le_or_gt (operationRank a) (operationRank b) with hle | hlt
      · rw [arranged_of_le hle]
        exact hpair
      · rw [arranged_of_lt hlt]
        intro _ _ hdrops
        exact hlt.ne (hrank b hb a ha hdrops)
  constructor
  · intro h
    refine ⟨fun g hg c hc => ?_, hdrops.mp h.drops⟩
    exact h.adds g (hperm.mem_iff.mpr hg) c (hperm.mem_iff.mpr hc)
  · intro h
    refine ⟨fun g hg c hc => ?_, hdrops.mpr h.drops⟩
    exact h.adds g (hperm.mem_iff.mp hg) c (hperm.mem_iff.mp hc)

/-- A tape has the statements of the operations, in the order in which they were read. -/
theorem renderSql_statements {plan tape : Bytes} (h : renderSql plan = .ok tape) :
    ∃ operations statements, parsePlan plan = .ok operations ∧ tape = tapeBytes statements
      ∧ Forall₂ StatementFor operations statements := by
  rw [renderSql] at h
  split at h
  · cases h
  · rename_i operations hparse
    obtain ⟨statements, hstatements, htape⟩ := Lockstep.bind_ok.mp h
    refine ⟨operations, statements, hparse, (Except.ok.inj htape).symm, ?_⟩
    refine (Lockstep.mapM_ok.mp hstatements).imp fun op s hs => ?_
    rw [statementOf] at hs
    rw [StatementFor]
    split at hs
    · cases hs
    · rename_i hmanual
      cases hs
      rw [hmanual]
    · rename_i sql hsql
      rw [hsql]
      split at hs
      · cases hs
      · cases hs
        rfl

/-- The order of the tape, read off the plan. -/
theorem inOrder_iff {plan tape : Bytes} (hplan : planOperations plan = .ok ops)
    (htape : renderSql plan = .ok tape) :
    InOrder mentions plan tape ↔ ops.Pairwise (Arranged operationRank (Free mentions)) := by
  have hparse : parsePlan plan = .ok (sortOperations ops) := by
    rw [parsePlan, hplan]
    rfl
  rw [← free_sorted]
  constructor
  · rintro ⟨operations, statements, hread, -, -, horder⟩
    rwa [Except.ok.inj (hparse.symm.trans hread)]
  · intro h
    obtain ⟨operations, statements, hread, htape, hall⟩ := renderSql_statements htape
    refine ⟨operations, statements, hread, htape, hall, ?_⟩
    rwa [← Except.ok.inj (hparse.symm.trans hread)]

/-- **ROLLBACK**: where a plan has one operation for an object and fits the schema, what is
    read from its reverse turns the migrated schema into the one before. -/
theorem rollback_restores {plan : Bytes} (hplan : planOperations plan = .ok ops)
    (hdistinct : ops.Pairwise fun x y => x.object ≠ y.object)
    (hfits : ∀ op ∈ ops, ∀ p : Object × Short, p.1 = op.object → (p ∈ source ↔ p ∈ op.takes)) :
    ∃ back turned, reversePlan plan = .ok back ∧ planOperations back = .ok turned
      ∧ applyAll turned (applyAll ops source) = source := by
  obtain ⟨hcount, hformed⟩ := planOperations_wellFormed hplan
  let turned := (sortOperations ops).map reverseOperation
  have hperm : turned.Perm (ops.map reverseOperation) := (sortOperations_perm ops).map _
  have hread : planOperations (planBytes turned) = .ok turned := by
    refine planOperations_planBytes (fun op hop => ?_) ?_
    · obtain ⟨o, ho, rfl⟩ := mem_map.mp (hperm.mem_iff.mp hop)
      exact reverse_wellFormed (hformed o ho)
    · rwa [hperm.length_eq, length_map]
  refine ⟨_, turned, by rw [reversePlan, parsePlan, hplan]; rfl, hread, Set.ext fun p => ?_⟩
  have hturned : turned.Pairwise fun x y => x.object ≠ y.object :=
    (hperm.pairwise_iff Ne.symm).mpr (pairwise_map.mpr hdistinct)
  rw [mem_applyAll hturned, mem_applyAll hdistinct]
  simp only [hperm.mem_iff, mem_map, exists_exists_and_eq_and, forall_exists_index, and_imp,
    forall_apply_eq_imp_iff₂, reverse_exchanges]
  constructor
  · rintro (⟨op, hop, htakes⟩ | ⟨⟨op, hop, hgives⟩ | ⟨hin, -⟩, hkept⟩)
    · exact (hfits op hop p (takes_object htakes)).mpr htakes
    · exact absurd hgives (hkept op hop)
    · exact hin
  · intro hin
    by_cases htaken : ∃ op ∈ ops, p ∈ op.takes
    · exact .inl htaken
    · push Not at htaken
      -- what it gives would stand where it takes nothing
      refine .inr ⟨.inr ⟨hin, htaken⟩, fun op hop hgives => htaken op hop ?_⟩
      exact (hfits op hop p (gives_object hgives)).mp hin

end Plan

/-- The plan of two descriptors is one between their schemas. -/
theorem planned_between {ds as : List Record} (hds : ds.Pairwise fun a b => a.key < b.key)
    (has : as.Pairwise fun a b => a.key < b.key) (hids : DistinctIds (ds ++ as)) :
    Between (schemaOf as) (schemaOf ds) (planned ds as) := by
  have hcases : ∀ op ∈ planned ds as, (∃ d ∈ ds, op = addOf d) ∨ (∃ a ∈ as, op = dropOf a)
        ∨ ∃ d ∈ ds, ∃ a ∈ as, d.object = a.object ∧ op = alterOf d a := by
    intro op hop
    rw [(planned_perm hds has hids).mem_iff, mem_append, mem_filterMap, mem_map] at hop
    rcases hop with ⟨d, hd, hmade⟩ | ⟨a, ha, rfl⟩
    · rw [plannedOf] at hmade
      split at hmade
      · exact .inl ⟨d, hd, (Option.some.inj hmade).symm⟩
      · rename_i a hfind
        obtain ⟨ha, hobj⟩ := found_object hfind
        split at hmade
        · cases hmade
        · exact .inr (.inr ⟨d, hd, a, ha, hobj, (Option.some.inj hmade).symm⟩)
    · exact .inr (.inl ⟨a, (mem_undesired.mp ha).1, rfl⟩)
  refine ⟨fun op hop ha => ?_, fun op hop ha => ?_, fun op hop ha => ?_⟩
  all_goals
    rcases hcases op hop with ⟨d, hd, rfl⟩ | ⟨a, ha', rfl⟩
      | ⟨d, hd, a, ha', hobj, rfl⟩
  · exact ⟨d, hd, rfl⟩
  · cases ha
  · cases ha
  · cases ha
  · exact ⟨a, ha', rfl⟩
  · cases ha
  · cases ha
  · cases ha
  · exact ⟨⟨a, ha', by rw [← hobj]; rfl⟩, d, hd, rfl⟩

/-- **STATEMENTS IN ORDER**: the statements on the tape of a plan between two valid schemas,
    and on that of its reverse, run after what they depend on, exactly when the two mixtures do not
    occur in the direction that runs. -/
theorem statements_in_order {source target : Schema} {plan : Bytes} {ops : List Operation}
    (hsource : ValidSchema mentions source) (htarget : ValidSchema mentions target)
    (hplan : planOperations plan = .ok ops) (hbetween : Between source target ops) :
    (∀ tape, renderSql plan = .ok tape → (InOrder mentions plan tape ↔ Calm mentions ops))
      ∧ ∃ back, reversePlan plan = .ok back ∧ ∀ tape, renderSql back = .ok tape →
          (InOrder mentions back tape ↔ Calm mentions (ops.map reverseOperation)) := by
  obtain ⟨hcount, hformed⟩ := planOperations_wellFormed hplan
  constructor
  · intro tape htape
    rw [inOrder_iff hplan htape]
    exact free_iff_calm hsource htarget hbetween hformed
  · let turned := (sortOperations ops).map reverseOperation
    have hperm : turned.Perm (ops.map reverseOperation) := (sortOperations_perm ops).map _
    have hturned : ∀ op ∈ turned, op.WellFormed := by
      intro op hop
      obtain ⟨o, ho, rfl⟩ := mem_map.mp (hperm.mem_iff.mp hop)
      exact reverse_wellFormed (hformed o ho)
    have hback : planOperations (planBytes turned) = .ok turned := by
      refine planOperations_planBytes hturned ?_
      rw [hperm.length_eq, length_map]
      exact hcount
    refine ⟨planBytes turned, ?_, fun tape htape => ?_⟩
    · rw [reversePlan, parsePlan, hplan]
      rfl
    · rw [inOrder_iff hback htape, free_iff_calm htarget hsource
        (reverse_between hbetween hperm) hturned]
      exact reverse_calm htarget hbetween

end Order

/-! ### An account with a total -/

/-- A column of `public.account`. -/
def accountColumn (name signature : Short) : Record where
  kind := 2
  schema := publicSchema
  table := accountTable
  name := name
  signature := signature

def smallTotal : Record := accountColumn ⟨ascii "total", by decide⟩
    ⟨ascii "column\x1f23\x1f\x1f1\x1f\x1f\x1f", by decide⟩

def bigTotal : Record := accountColumn ⟨ascii "total", by decide⟩
    ⟨ascii "column\x1f20\x1f\x1f1\x1f\x1f\x1f", by decide⟩

/-- `twice bigint generated always as (total * 2) stored`. -/
def twiceTotal : Record := accountColumn ⟨ascii "twice", by decide⟩
    ⟨ascii "column\x1f20\x1f\x1f0\x1f\x1fs\x1ftotal * 2", by decide⟩

/-- The generated column reads the total. -/
def readsTotal (signature column : Bytes) : Prop :=
  signature = twiceTotal.signature.bytes ∧ column = ascii "total"

/-- Its schemas are valid. -/
theorem account_valid {records : List Record}
    (h : ∀ r ∈ records, r = smallTotal ∨ r = bigTotal ∨ r = twiceTotal) :
    ValidSchema readsTotal (schemaOf records) := by
  rintro g - c ⟨r, hr, rfl⟩ - - - - - ⟨-, hname⟩
  rcases h r hr with rfl | rfl | rfl
  · decide
  · decide
  · exact absurd hname (by decide)

/-- Adding a column is well formed. -/
theorem addOf_wellFormed {r : Record} (h : r.table.bytes ≠ [])
    (hkind : r.kind = 2) : (addOf r).WellFormed :=
  ⟨by rw [show (addOf r).kind = 2 from hkind]; decide, h⟩

/-- Altering a column is well formed. -/
theorem alterOf_wellFormed {d a : Record} (h : d.table.bytes ≠ [])
    (hkind : d.kind = 2) : (alterOf d a).WellFormed :=
  ⟨by rw [show (alterOf d a).kind = 2 from hkind]; decide, h⟩

/-- A plan that drops the generated column and retypes the column it reads. -/
def shrinkPlan : List Operation := [dropOf twiceTotal, alterOf smallTotal bigTotal]

/-- The generated column and the larger type come back. -/
theorem total_rolled_back : ∃ back turned, reversePlan (planBytes shrinkPlan) = .ok back
      ∧ planOperations back = .ok turned
      ∧ applyAll turned (applyAll shrinkPlan (schemaOf [bigTotal, twiceTotal]))
        = schemaOf [bigTotal, twiceTotal] := by
  have hformed : ∀ op ∈ shrinkPlan, op.WellFormed := by
    intro op hop
    rcases hop with _ | ⟨_, _ | ⟨_, hop⟩⟩
    · exact ⟨by decide, by decide⟩
    · exact alterOf_wellFormed (by decide) rfl
    · cases hop
  have hother : bigTotal.object ≠ twiceTotal.object := by decide
  refine rollback_restores (planOperations_planBytes hformed (by decide)) ?_ fun op hop p hp => ?_
  · exact pairwise_pair.mpr hother.symm
  · rcases hop with _ | ⟨_, _ | ⟨_, hop⟩⟩
    · constructor
      · rintro ⟨r, hr, rfl⟩
        rcases hr with _ | ⟨_, _ | ⟨_, hr⟩⟩
        · exact absurd hp hother
        · rfl
        · cases hr
      · rintro rfl
        exact ⟨twiceTotal, by simp, rfl⟩
    · constructor
      · rintro ⟨r, hr, rfl⟩
        rcases hr with _ | ⟨_, _ | ⟨_, hr⟩⟩
        · rfl
        · exact absurd hp.symm hother
        · cases hr
      · rintro rfl
        exact ⟨bigTotal, by simp, rfl⟩
    · cases hop

/-- A plan that adds the generated column and the column it reads. -/
def totalPlan : List Operation := [addOf twiceTotal, addOf bigTotal]

/-- The plan builds the table's columns. -/
theorem totalPlan_between : Between (schemaOf []) (schemaOf [bigTotal, twiceTotal]) totalPlan := by
  refine ⟨fun op hop _ => ?_, fun op hop ha => ?_, fun op hop ha => ?_⟩
  all_goals rcases hop with _ | ⟨_, _ | ⟨_, hop⟩⟩
  · exact ⟨twiceTotal, by simp, rfl⟩
  · exact ⟨bigTotal, by simp, rfl⟩
  all_goals first
    | cases hop
    | cases ha

theorem total_added : (∀ tape, renderSql (planBytes totalPlan) = .ok tape →
        (InOrder readsTotal (planBytes totalPlan) tape ↔ Calm readsTotal totalPlan))
      ∧ ∃ back, reversePlan (planBytes totalPlan) = .ok back
        ∧ ∀ tape, renderSql back = .ok tape → (InOrder readsTotal back tape
            ↔ Calm readsTotal (totalPlan.map reverseOperation)) := by
  have hread : planOperations (planBytes totalPlan) = .ok totalPlan := by
    refine planOperations_planBytes (fun op hop => ?_) (by decide)
    rcases hop with _ | ⟨_, _ | ⟨_, hop⟩⟩
    · exact addOf_wellFormed (by decide) rfl
    · exact addOf_wellFormed (by decide) rfl
    · cases hop
  exact statements_in_order (account_valid (by simp)) (account_valid (by simp))
    hread totalPlan_between

/-- A plan that adds the generated column and retypes the column it reads. -/
def retypePlan : List Operation := [addOf twiceTotal, alterOf bigTotal smallTotal]

/-- The plan retypes one column and adds one. -/
theorem retypePlan_between :
    Between (schemaOf [smallTotal]) (schemaOf [bigTotal, twiceTotal]) retypePlan := by
  refine ⟨fun op hop ha => ?_, fun op hop ha => ?_, fun op hop ha => ?_⟩
  all_goals rcases hop with _ | ⟨_, _ | ⟨_, hop⟩⟩
  · exact ⟨twiceTotal, by simp, rfl⟩
  · cases ha
  · cases hop
  · cases ha
  · cases ha
  · cases hop
  · cases ha
  · exact ⟨⟨smallTotal, by simp, rfl⟩, bigTotal, by simp, rfl⟩
  · cases hop

/-- **GENERATED BEFORE RETYPE**: the generated column is added first, when the column it
    reads does not have its final type. -/
theorem generated_before_retype : ValidSchema readsTotal (schemaOf [smallTotal])
      ∧ ValidSchema readsTotal (schemaOf [bigTotal, twiceTotal])
      ∧ Between (schemaOf [smallTotal]) (schemaOf [bigTotal, twiceTotal]) retypePlan
      ∧ ∃ tape, renderSql (planBytes retypePlan) = .ok tape
        ∧ ¬InOrder readsTotal (planBytes retypePlan) tape := by
  have hformed : ∀ op ∈ retypePlan, op.WellFormed := by
    intro op hop
    rcases hop with _ | ⟨_, _ | ⟨_, hop⟩⟩
    · exact addOf_wellFormed (by decide) rfl
    · exact alterOf_wellFormed (by decide) rfl
    · cases hop
  have hread := planOperations_planBytes hformed (by decide)
  have hsource : ValidSchema readsTotal (schemaOf [smallTotal]) := account_valid (by simp)
  have htarget : ValidSchema readsTotal (schemaOf [bigTotal, twiceTotal]) := account_valid (by simp)
  obtain ⟨tape, htape⟩ : ∃ tape, renderSql (planBytes retypePlan) = .ok tape := by
    rw [renderSql, parsePlan, hread]
    exact ⟨_, rfl⟩
  refine ⟨hsource, htarget, retypePlan_between, tape, htape, ?_⟩
  rw [inOrder_iff hread htape, free_iff_calm hsource htarget retypePlan_between hformed]
  intro hcalm
  refine hcalm.adds (addOf twiceTotal) (by simp [retypePlan])
    (alterOf bigTotal smallTotal) (by simp [retypePlan]) rfl rfl ?_
  exact ⟨rfl, rfl, by decide, by decide, ⟨rfl, rfl⟩, rfl, rfl⟩

end Migration
