import Wreath.MigrationPlanProofs

/-! # Migration SQL — from a plan to its statements

A WMP1 plan is read, its operations are sorted by rank and every one is rendered as DDL,
is left to the operator (MANUAL), or refuses the whole plan. The statements make up a
WMS1 tape, and the runner puts a tape into one `DO` block. The downgrade of a plan is
the plan with every operation turned around. -/

namespace Migration

open ByteScan LittleEndian List

/-! ## Reading a plan -/

def Action.ofCode : Nat → Option Action
  | 1 => some .add
  | 2 => some .drop
  | 3 => some .alter
  | _ => none

/-- The loop of `parse_plan`, over what is left of the data. -/
def readOperations : Nat → Nat → Bytes → Except String (List Operation × Bytes)
  | 0, _, rest => .ok ([], rest)
  | count + 1, index, rest =>
    if rest.length < 20 then .error "named migration plan is truncated"
    else
      let kind := loadAt rest 4 4
      let body := rest.drop 20
      let schemaLength := loadAt rest 8 2
      let tableLength := loadAt rest 10 2
      let nameLength := loadAt rest 12 2
      let beforeLength := loadAt rest 14 2
      let payload := schemaLength + tableLength + nameLength + beforeLength + loadAt rest 16 2
      match Action.ofCode (loadAt rest 0 4),
          decide (loadAt rest 18 2 = 0 ∧ 1 ≤ kind ∧ kind ≤ 4) with
      | some action, true =>
        if tableLength = 0 ∨ body.length < payload then
          .error ("invalid WMP1 operation " ++ toString index
            ++ ": the table name must be nonempty and its "
            ++ toString payload ++ "-byte payload must fit in the remaining "
            ++ toString body.length ++ " bytes")
        else
          let nameAt := schemaLength + tableLength
          let operation : Operation := {
            action := action
            kind := UInt32.ofNat kind
            schema := shortAt rest 8 body
            table := shortAt rest 10 (body.drop schemaLength)
            name := shortAt rest 12 (body.drop nameAt)
            before := shortAt rest 14 (body.drop (nameAt + nameLength))
            after := shortAt rest 16 (body.drop (nameAt + nameLength + beforeLength)) }
          match readOperations count (index + 1) (body.drop payload) with
          | .error e => .error e
          | .ok (operations, rest) => .ok (operation :: operations, rest)
      | _, _ =>
        .error ("invalid WMP1 operation " ++ toString index
          ++ ": action must be add (1), drop (2), or alter (3); object "
          ++ "kind must be table (1) through index (4); reserved flags "
          ++ "must be zero")

/-- `column_signature_is_generated`'s seven fields, and those of the renderers:
    `split_value(…, 0x1f, parts, 7)`. -/
structure ColumnParts where
  tag : Bytes
  oid : Bytes
  spelling : Bytes
  notNull : Bytes
  identity : Bytes
  generated : Bytes
  expression : Bytes
  deriving DecidableEq

variable (op : Operation) (signature : Bytes) (before after : ColumnParts) (c : ColumnParts)

def splitColumn : Option ColumnParts :=
  match signature.splitOn 0x1f with
  | [tag, oid, spelling, notNull, identity, generated, expression] =>
    some ⟨tag, oid, spelling, notNull, identity, generated, expression⟩
  | _ => none

/-- `column_signature_is_generated`. -/
def columnSignatureIsGenerated : Bool :=
  match splitColumn signature with
  | none => false
  | some c => c.tag = ascii "column" && c.generated = ascii "s"

/-- `constraint_is_foreign_key`. -/
def constraintIsForeignKey : Bool := op.name.bytes.take 2 = ascii "f:"

/-- `operation_rank`: kinds are table (1), column (2), constraint (3) and index (4). -/
def operationRank : Nat :=
  if op.action = .drop ∧ op.kind = 3 then
    if constraintIsForeignKey op then 0 else 2
  else if op.action = .drop ∧ op.kind = 4 then 1
  else if op.action = .drop ∧ op.kind = 2 then
    if columnSignatureIsGenerated op.before.bytes then 3 else 4
  else if op.action = .drop ∧ op.kind = 1 then 5
  else if op.action = .add ∧ op.kind = 1 then 6
  else if op.action = .add ∧ op.kind = 2 then
    if columnSignatureIsGenerated op.after.bytes then 8 else 7
  else if op.action = .alter ∧ op.kind = 2 then 9
  else if op.action = .add ∧ op.kind = 3 then
    if constraintIsForeignKey op then 12 else 10
  else if op.action = .add ∧ op.kind = 4 then 11
  else 99

/-- `operation_compare`, on operations with their ordinals. -/
def operationCompare (left right : Operation × Nat) : Ordering :=
  if operationRank left.1 ≠ operationRank right.1 then
    if operationRank left.1 < operationRank right.1 then .lt else .gt
  else if left.2 = right.2 then .eq
  else if left.2 < right.2 then .lt
  else .gt

def sortOperations (operations : List Operation) : List Operation :=
  (operations.zipIdx.insertionSort fun a b => operationCompare a b ≠ .gt).map Prod.fst

/-- `parse_plan` up to its sort: the operations as the plan lists them. The bound on the
    count is above every 32-bit number. -/
def planOperations (data : Bytes) : Except String (List Operation) :=
  if data.length < 12 ∨ data.take 4 ≠ ascii "WMP1" ∨ loadAt data 4 4 ≠ 1 then
    .error ("invalid WMP1 named plan: expected WMP1 magic, format 1, and a " ++ "12-byte header")
  else
    match readOperations (loadAt data 8 4) 0 (data.drop 12) with
    | .error e => .error e
    | .ok (operations, rest) =>
      if rest ≠ [] then .error "named migration plan has trailing bytes"
      else .ok operations

/-- `parse_plan`. -/
def parsePlan (data : Bytes) : Except String (List Operation) :=
  (planOperations data).map sortOperations

/-! ## Identifiers -/

/-- Why an operation has no statement: it is left to the operator, or the plan is refused,
    where `none` is a failure without an exception. -/
inductive Stop where
  | manual
  | refused (error : Option String)
  deriving DecidableEq

/-- The text of an identifier between its quotes. -/
def doubled (value : Bytes) : Bytes := value.flatMap fun b => if b = 34 then [34, 34] else [b]

/-- `append_identifier`. -/
def appendIdentifier (value : Bytes) : Except Stop Bytes :=
  if value = [] ∨ 0 ∈ value then
    .error (.refused (some "migration identifier is empty or contains NUL"))
  else .ok ([34] ++ doubled value ++ [34])

/-- `append_qualified`: without a schema the table is rendered alone. -/
def appendQualified : Except Stop Bytes :=
  if op.schema.bytes = [] then appendIdentifier op.table.bytes
  else do
    let schema ← appendIdentifier op.schema.bytes
    let table ← appendIdentifier op.table.bytes
    return schema ++ ascii "." ++ table

/-- `operation_object_id`. -/
def operationObjectId : UInt64 :=
  migrationObjectId op.kind op.schema.bytes op.table.bytes op.name.bytes

/-- A digit of `append_derived_object_name`. -/
def hexDigit (n : Nat) : UInt8 := if n < 10 then UInt8.ofNat (48 + n) else UInt8.ofNat (87 + n)

def derivedObjectName : Bytes :=
  ascii "wreath_" ++ (List.range 16).map fun nibble =>
    hexDigit ((operationObjectId op).toNat / 16 ^ (15 - nibble) % 16)

/-- `append_derived_object_name`. -/
def appendDerivedObjectName : Except Stop Bytes := appendIdentifier (derivedObjectName op)

/-- `append_identifier_list`. -/
def appendIdentifierList (part : Bytes) : Except Stop Bytes := do
  let names ← (part.splitOn 44).mapM fun name =>
    if name = [] then .error (.refused none) else appendIdentifier name
  return (ascii ", ").intercalate names

/-! ## Columns -/

/-- `parse_oid`. -/
def parseOid (part : Bytes) : Option Nat :=
  if part = [] then none
  else part.foldlM (fun value digit =>
    if digit < 48 ∨ 57 < digit ∨ (4294967295 - (digit.toNat - 48)) / 10 < value
    then none
    else some (value * 10 + (digit.toNat - 48))) 0

/-- `sql_type_for_oid`. -/
def sqlTypeForOid : Nat → Option Bytes
  | 16 => some (ascii "boolean")
  | 17 => some (ascii "bytea")
  | 20 => some (ascii "bigint")
  | 21 => some (ascii "smallint")
  | 23 => some (ascii "integer")
  | 25 => some (ascii "text")
  | 114 => some (ascii "json")
  | 1043 => some (ascii "character varying")
  | 700 => some (ascii "real")
  | 701 => some (ascii "double precision")
  | 1082 => some (ascii "date")
  | 1114 => some (ascii "timestamp without time zone")
  | 1184 => some (ascii "timestamp with time zone")
  | 1700 => some (ascii "numeric")
  | 600 => some (ascii "point")
  | 2950 => some (ascii "uuid")
  | 3614 => some (ascii "tsvector")
  | 3802 => some (ascii "jsonb")
  | 1000 => some (ascii "boolean[]")
  | 1001 => some (ascii "bytea[]")
  | 1016 => some (ascii "bigint[]")
  | 1005 => some (ascii "smallint[]")
  | 1007 => some (ascii "integer[]")
  | 1009 => some (ascii "text[]")
  | 199 => some (ascii "json[]")
  | 1021 => some (ascii "real[]")
  | 1022 => some (ascii "double precision[]")
  | 1015 => some (ascii "character varying[]")
  | 1182 => some (ascii "date[]")
  | 1115 => some (ascii "timestamp without time zone[]")
  | 1185 => some (ascii "timestamp with time zone[]")
  | 2951 => some (ascii "uuid[]")
  | 3807 => some (ascii "jsonb[]")
  | _ => none

def isLower (b : UInt8) : Bool := 97 ≤ b && b ≤ 122

def isUpper (b : UInt8) : Bool := 65 ≤ b && b ≤ 90

def isDigit (b : UInt8) : Bool := 48 ≤ b && b ≤ 57

/-- The loop of `spelling_is_safe` between the parentheses: the one that closes must be the
    last byte. -/
def spellingInParens : Bytes → Bool
  | [] => false
  | b :: rest =>
    if b = 41 then rest = []
    else if isDigit b || isLower b || isUpper b || b = 44 || b = 32 || b = 95
    then spellingInParens rest
    else false

/-- The loop of `spelling_is_safe`; `first` is for the byte at index 0. -/
def spellingOutside : Bool → Bytes → Bool
  | _, [] => true
  | first, b :: rest =>
    if b = 40 then if first then false else spellingInParens rest
    else if isLower b then spellingOutside false rest
    else if isDigit b && !first then spellingOutside false rest
    else if b = 95 && !first then spellingOutside false rest
    else false

/-- `spelling_is_safe`. -/
def spellingIsSafe (part : Bytes) : Bool :=
  part.length ≠ 0 && part.length ≤ 128 && spellingOutside true part

/-- `render_column_type`. -/
def renderColumnType (spelling : Bytes) (oid : Nat) : Except Stop Bytes :=
  if spelling ≠ [] then
    if spellingIsSafe spelling then .ok spelling else .error .manual
  else
    match sqlTypeForOid oid with
    | none => .error .manual
    | some type => .ok type

def columnIdentity : Except Stop Bytes :=
  if c.identity = ascii "a" then .ok (ascii " generated always as identity")
  else if c.identity = ascii "d" then
    .ok (ascii " generated by default as identity")
  else if c.identity ≠ [] then .error .manual
  else .ok []

/-- A stored column is `s`; its expression and a default share a field. -/
def columnExpression : Except Stop Bytes :=
  if c.generated = ascii "s" then
    if c.expression = [] then .error .manual
    else .ok (ascii " generated always as (" ++ c.expression ++ ascii ") stored")
  else if c.expression ≠ [] then .ok (ascii " default " ++ c.expression)
  else .ok []

def columnNullability : Except Stop Bytes :=
  if c.notNull = ascii "1" then .ok (ascii " not null")
  else if c.notNull ≠ ascii "0" then .error .manual
  else .ok []

/-- `render_column_definition`. -/
def renderColumnDefinition : Except Stop Bytes :=
  match splitColumn signature with
  | none => .error .manual
  | some c =>
    match decide (c.tag = ascii "column"), parseOid c.oid with
    | true, some oid =>
      if ¬c.generated = ascii "s" ∧ c.generated ≠ [] then .error .manual
      else if c.generated = ascii "s" ∧ c.identity ≠ [] then .error .manual
      else do
        let type ← renderColumnType c.spelling oid
        let identity ← columnIdentity c
        let expression ← columnExpression c
        let nullability ← columnNullability c
        return type ++ identity ++ expression ++ nullability
    | _, _ => .error .manual

/-- `append_alter_column_prefix`. -/
def appendAlterColumnPrefix : Except Stop Bytes := do
  let table ← appendQualified op
  let name ← appendIdentifier op.name.bytes
  return ascii "alter table " ++ table ++ ascii " alter column " ++ name

/-- A change of the type is one of the OID or of the spelling. -/
def retyped (beforeOid afterOid : Nat) : Bool :=
  beforeOid ≠ afterOid || before.spelling ≠ after.spelling

/-- The columns `render_column_change` takes: plain ones, with a known nullability. -/
def changeable : Bool :=
  c.tag = ascii "column" && c.identity = [] && c.generated = []
    && (c.notNull = ascii "0" || c.notNull = ascii "1")

/-- The three changes of `render_column_change`, each with its statement. -/
def typeChange (beforeOid afterOid : Nat) : Except Stop (List Bytes) :=
  if retyped before after beforeOid afterOid then do
    let column ← appendAlterColumnPrefix op
    let type ← renderColumnType after.spelling afterOid
    return [column ++ ascii " type " ++ type ++ ascii ";"]
  else .ok []

def defaultChange : Except Stop (List Bytes) :=
  if before.expression ≠ after.expression then do
    let column ← appendAlterColumnPrefix op
    return [column ++ if after.expression = [] then ascii " drop default;"
      else ascii " set default " ++ after.expression ++ ascii ";"]
  else .ok []

def nullChange : Except Stop (List Bytes) :=
  if decide (before.notNull = ascii "1") ≠ decide (after.notNull = ascii "1")
  then do
    let column ← appendAlterColumnPrefix op
    return [column ++ if after.notNull = ascii "1" then ascii " set not null;"
      else ascii " drop not null;"]
  else .ok []

/-- `render_column_change`. -/
def renderColumnChange : Except Stop Bytes :=
  match splitColumn op.before.bytes, splitColumn op.after.bytes with
  | some before, some after =>
    match parseOid before.oid, parseOid after.oid,
        changeable before && changeable after with
    | some beforeOid, some afterOid, true => do
        let typed ← typeChange op before after beforeOid afterOid
        let defaulted ← defaultChange op before after
        let nulled ← nullChange op before after
        if typed ++ defaulted ++ nulled = [] then .error .manual
        else .ok ((ascii " ").intercalate (typed ++ defaulted ++ nulled))
    | _, _, _ => .error .manual
  | _, _ => .error .manual

/-! ## Indexes -/

structure IndexForm where
  columns : Bytes
  method : Bytes
  unique : Bool
  deriving DecidableEq

/-- The tag of an index: `i` or, for a unique one, `ui`. -/
def indexUnique (tag : Bytes) : Option Bool :=
  if tag = ascii "i" then some false
  else if tag = ascii "ui" then some true
  else none

/-- `index_form`. -/
def indexForm : Option IndexForm :=
  match op.name.bytes.splitOn 58 with
  | [tag, columns, method, _] => (indexUnique tag).map (⟨columns, method, ·⟩)
  | [tag, columns, method] => (indexUnique tag).map (⟨columns, method, ·⟩)
  | [tag, columns] => (indexUnique tag).map (⟨columns, ascii "btree", ·⟩)
  | _ => none

structure IndexExtras where
  predicate : Bytes
  opclasses : Bytes
  options : Bytes
  deriving DecidableEq

/-- `index_extras`: absent trailing fields are empty. -/
def indexExtras : IndexExtras :=
  let fields := (op.after.bytes.splitOn 0x1f).tail
  ⟨fields.getD 0 [], fields.getD 1 [], fields.getD 2 []⟩

/-- `is_lower_identifier`. -/
def isLowerIdentifier : Bytes → Bool
  | [] => false
  | b :: rest =>
    (b :: rest).length ≤ 63 && (isLower b || b = 95)
      && rest.all fun b => isLower b || isDigit b || b = 95

/-- An operator class, if the column has one. -/
def appendOpclass (opclass : Bytes) : Except Stop Bytes :=
  if opclass = [] then .ok []
  else if isLowerIdentifier opclass then .ok (ascii " " ++ opclass)
  else .error .manual

/-- The loop of `append_index_columns`, over the columns and in step with it over the
    operator classes. -/
def appendIndexColumn : List Bytes → List Bytes → Except Stop (List Bytes)
  | [], _ => .ok []
  | column :: columns, opclasses =>
    if column = [] then .error .manual
    else do
      let name ← appendIdentifier column
      let opclass ← appendOpclass (opclasses.headD [])
      let rest ← appendIndexColumn columns opclasses.tail
      return (name ++ opclass) :: rest

/-- `append_index_columns`. -/
def appendIndexColumns (columns opclasses : Bytes) : Except Stop Bytes := do
  let written ← appendIndexColumn (columns.splitOn 44) (opclasses.splitOn 44)
  return (ascii ", ").intercalate written

/-- The bytes of an option's value. -/
def isOptionByte (b : UInt8) : Bool :=
  isLower b || isUpper b || isDigit b || b = 95 || b = 46 || b = 45

/-- One turn of the loop of `append_index_options`. -/
def appendIndexOption (option : Bytes) : Except Stop Bytes :=
  let (name, value) := cutAt 61 option
  if 61 ∉ option ∨ name = [] then .error .manual
  else if !isLowerIdentifier name then .error .manual
  else if !value.all isOptionByte then .error .manual
  else if value = [] then .error .manual
  else .ok (name ++ ascii " = " ++ value)

/-- `append_index_options`. -/
def appendIndexOptions (options : Bytes) : Except Stop Bytes :=
  if options = [] then .ok []
  else do
    let written ← (options.splitOn 44).mapM appendIndexOption
    return ascii " with (" ++ (ascii ", ").intercalate written ++ ascii ")"

/-- `index_method_is_known`. -/
def indexMethodIsKnown (method : Bytes) : Bool :=
  method ∈ [ascii "btree", ascii "gin", ascii "gist", ascii "hnsw", ascii "ivfflat"]

/-- `render_index`. -/
def renderIndex : Except Stop Bytes :=
  match indexForm op with
  | none => .error .manual
  | some form =>
    if !indexMethodIsKnown form.method then .error .manual
    else do
      let extras := indexExtras op
      let name ← appendDerivedObjectName op
      let table ← appendQualified op
      let columns ← appendIndexColumns form.columns extras.opclasses
      let options ← appendIndexOptions extras.options
      return (if form.unique then ascii "create unique index "
          else ascii "create index ")
        ++ name ++ ascii " on " ++ table
        ++ (if form.method = ascii "btree" then []
          else ascii " using " ++ form.method)
        ++ ascii " (" ++ columns ++ ascii ")" ++ options
        ++ (if extras.predicate = [] then []
          else ascii " where " ++ extras.predicate)
        ++ ascii ";"

/-- A tenant template drops unqualified. -/
def dropIndexSchema : Except Stop Bytes :=
  if op.schema.bytes = [] then .ok []
  else do
    let schema ← appendIdentifier op.schema.bytes
    return schema ++ ascii "."

/-- `render_drop_index`. -/
def renderDropIndex : Except Stop Bytes :=
  match indexForm op with
  | none => .error .manual
  | some form =>
    if !indexMethodIsKnown form.method then .error .manual
    else do
      let schema ← dropIndexSchema op
      let name ← appendDerivedObjectName op
      return ascii "drop index " ++ schema ++ name ++ ascii ";"

/-! ## Constraints -/

structure ConstraintForm where
  tag : Bytes
  columns : Bytes
  schema : Bytes
  table : Bytes
  reference : Bytes
  deriving DecidableEq

/-- `constraint_form`. -/
def constraintForm : Option ConstraintForm :=
  match op.name.bytes.splitOn 58 with
  | [tag, columns, schema, table, reference] =>
    if tag = ascii "p" ∨ tag = ascii "u" ∨ tag = ascii "f" then
      some ⟨tag, columns, schema, table, reference⟩
    else none
  | _ => none

/-- `render_fk_action`: no action is the default. -/
def renderFkAction (clause code : Bytes) : Except Stop Bytes :=
  if code = ascii "a" then .ok []
  else if code = ascii "r" then .ok (clause ++ ascii " restrict")
  else if code = ascii "c" then .ok (clause ++ ascii " cascade")
  else if code = ascii "n" then .ok (clause ++ ascii " set null")
  else if code = ascii "d" then .ok (clause ++ ascii " set default")
  else .error .manual

def renderDeferred (code : Bytes) : Except Stop Bytes :=
  if code = ascii "1" then .ok (ascii " deferrable initially deferred")
  else if code ≠ ascii "0" then .error .manual
  else .ok []

/-- The part of a foreign key that only its signature has: on-delete code, on-update code,
    and deferrability. -/
def renderFkTail : Except Stop Bytes :=
  match signature.splitOn 58 with
  | [_, _, _, _, _, onDelete, onUpdate, deferred] => do
      let onDelete ← renderFkAction (ascii " on delete") onDelete
      let onUpdate ← renderFkAction (ascii " on update") onUpdate
      let deferred ← renderDeferred deferred
      return onDelete ++ onUpdate ++ deferred
  | _ => .error .manual

/-- `render_constraint`. -/
def renderConstraint : Except Stop Bytes :=
  match constraintForm op with
  | none => .error .manual
  | some form => do
      let table ← appendQualified op
      let name ← appendDerivedObjectName op
      let head := ascii "alter table " ++ table ++ ascii " add constraint " ++ name
      if form.tag = ascii "p" then
        let columns ← appendIdentifierList form.columns
        return head ++ ascii " primary key (" ++ columns ++ ascii ");"
      else if form.tag = ascii "u" then
        let columns ← appendIdentifierList form.columns
        return head ++ ascii " unique (" ++ columns ++ ascii ");"
      else
        let columns ← appendIdentifierList form.columns
        let schema ← appendIdentifier form.schema
        let target ← appendIdentifier form.table
        let reference ← appendIdentifierList form.reference
        let tail ← renderFkTail op.after.bytes
        return head ++ ascii " foreign key (" ++ columns
          ++ ascii ") references " ++ schema ++ ascii "." ++ target
          ++ ascii " (" ++ reference ++ ascii ")" ++ tail ++ ascii ";"

/-- `render_drop_constraint`. -/
def renderDropConstraint : Except Stop Bytes :=
  match constraintForm op with
  | none => .error .manual
  | some _ => do
      let table ← appendQualified op
      let name ← appendDerivedObjectName op
      return ascii "alter table " ++ table ++ ascii " drop constraint " ++ name ++ ascii ";"

/-! ## Statements -/

def renderAddTable : Except Stop Bytes := do
  let table ← appendQualified op
  return ascii "create table " ++ table ++ ascii " ();"

def renderDropTable : Except Stop Bytes := do
  let table ← appendQualified op
  return ascii "drop table " ++ table ++ ascii ";"

def renderAddColumn : Except Stop Bytes := do
  let table ← appendQualified op
  let name ← appendIdentifier op.name.bytes
  let definition ← renderColumnDefinition op.after.bytes
  return ascii "alter table " ++ table ++ ascii " add column " ++ name
    ++ ascii " " ++ definition ++ ascii ";"

def renderDropColumn : Except Stop Bytes := do
  let table ← appendQualified op
  let name ← appendIdentifier op.name.bytes
  return ascii "alter table " ++ table ++ ascii " drop column " ++ name ++ ascii ";"

/-- `render_operation`. -/
def renderOperation : Except Stop Bytes :=
  if op.action = .add ∧ op.kind = 1 then renderAddTable op
  else if op.action = .drop ∧ op.kind = 1 then renderDropTable op
  else if op.action = .add ∧ op.kind = 2 then renderAddColumn op
  else if op.action = .drop ∧ op.kind = 2 then renderDropColumn op
  else if op.action = .alter ∧ op.kind = 2 then renderColumnChange op
  else if op.action = .add ∧ op.kind = 3 then renderConstraint op
  else if op.action = .drop ∧ op.kind = 3 then renderDropConstraint op
  else if op.action = .add ∧ op.kind = 4 then renderIndex op
  else if op.action = .drop ∧ op.kind = 4 then renderDropIndex op
  else .error .manual

/-- A statement of a tape: destructive (1) and MANUAL (2) flags, and text. -/
structure Statement where
  flags : Nat
  sql : Bytes
  deriving DecidableEq

/-- One turn of the loop of `wreath_pg_migration_render_sql`. -/
def statementOf : Except (Option String) Statement :=
  let flags := if op.action = .drop then 1 else 0
  match renderOperation op with
  | .error (.refused e) => .error e
  | .error .manual => .ok ⟨flags + 2, []⟩
  | .ok sql => if 2 ^ 32 ≤ sql.length then .error none else .ok ⟨flags, sql⟩

def statementBytes (s : Statement) : Bytes := store 4 s.flags ++ store 4 s.sql.length ++ s.sql

def tapeBytes (statements : List Statement) : Bytes :=
  ascii "WMS1" ++ store 4 1 ++ store 4 statements.length ++ statements.flatMap statementBytes

/-- `wreath_pg_migration_render_sql`. -/
def renderSql (plan : Bytes) : Except (Option String) Bytes :=
  match parsePlan plan with
  | .error e => .error (some e)
  | .ok operations => do
      let statements ← operations.mapM statementOf
      return tapeBytes statements

/-- An operation turned around. -/
def reverseOperation : Operation where
  action := match op.action with
    | .add => .drop
    | .drop => .add
    | .alter => .alter
  kind := op.kind
  schema := op.schema
  table := op.table
  name := op.name
  before := op.after
  after := op.before

/-- `wreath_pg_migration_reverse_plan`. -/
def reversePlan (plan : Bytes) : Except String Bytes := do
  let operations ← parsePlan plan
  return planBytes (operations.map reverseOperation)

/-! ## The block of a tape -/

/-- `%u`. -/
def decimalText (n : Nat) : Bytes := (Nat.toDigits 10 n).map ch

/-- `contains_bytes`, of a needle that is not empty. -/
def containsBytes (haystack needle : Bytes) : Bool := (findSub needle haystack).isSome

def delimiterText (suffix : Nat) : Bytes :=
  ascii "$wreath_migration_" ++ decimalText suffix ++ ascii "$"

/-- `select_delimiter`: a first argument counts the suffixes that are left. -/
def selectDelimiter (tape : Bytes) : Nat → Nat → Option Bytes
  | 0, _ => none
  | left + 1, suffix =>
    if containsBytes tape (delimiterText suffix) then
      selectDelimiter tape left (suffix + 1)
    else some (delimiterText suffix)

def markerText (index : Nat) : Bytes :=
  ascii "  -- Wreath operation " ++ decimalText (index + 1) ++ ascii "\n  "

/-- The loop of `migration_build_ddl_block`, over what is left of the tape; what is left is
    compared as a 32-bit number. -/
def blockBody (allowDestructive : Bool) : Nat → Nat → Bytes → Except String (Bytes × Bytes)
  | 0, _, rest => .ok ([], rest)
  | count + 1, index, rest =>
    if rest.length < 8 then
      .error ("invalid WMS1 SQL tape: statement " ++ toString index ++ " lacks its 8-byte header")
    else
      let flags := loadAt rest 0 4
      let sqlLength := loadAt rest 4 4
      let body := rest.drop 8
      if 3 < flags ∨ body.length % 2 ^ 32 < sqlLength then
        .error ("invalid WMS1 SQL tape: statement " ++ toString index
          ++ " has flags " ++ toString flags ++ " or length "
          ++ toString sqlLength ++ " outside the remaining tape")
      else if flags / 2 % 2 = 1 then
        .error ("cannot apply migration: operation " ++ toString (index + 1)
          ++ " is marked MANUAL and has no authoritative SQL")
      else if flags % 2 = 1 ∧ !allowDestructive then
        .error ("cannot apply migration: operation " ++ toString (index + 1)
          ++ " is destructive; pass explicit destructive approval")
      else if sqlLength = 0 then
        .error ("invalid WMS1 SQL tape: executable operation "
          ++ toString (index + 1) ++ " has an empty SQL statement")
      else
        match blockBody allowDestructive count (index + 1)
            (body.drop sqlLength) with
        | .error e => .error e
        | .ok (text, rest) =>
          .ok (markerText index ++ body.take sqlLength ++ ascii "\n" ++ text, rest)

/-- Where a strict decoder of UTF-8 stands: at the end of a character, or before some
    continuation bytes, the next of them in a range. -/
inductive Utf8State where
  | ready
  | more (left : Nat) (low high : UInt8)
  deriving DecidableEq

def utf8Step : Utf8State → UInt8 → Option Utf8State
  | .ready, b =>
    if b < 0x80 then some .ready
    else if 0xc2 ≤ b ∧ b ≤ 0xdf then some (.more 0 0x80 0xbf)
    else if b = 0xe0 then some (.more 1 0xa0 0xbf)
    else if b = 0xed then some (.more 1 0x80 0x9f)
    else if 0xe1 ≤ b ∧ b ≤ 0xef then some (.more 1 0x80 0xbf)
    else if b = 0xf0 then some (.more 2 0x90 0xbf)
    else if 0xf1 ≤ b ∧ b ≤ 0xf3 then some (.more 2 0x80 0xbf)
    else if b = 0xf4 then some (.more 2 0x80 0x8f)
    else none
  | .more left low high, b =>
    if low ≤ b ∧ b ≤ high then
      match left with
      | 0 => some .ready
      | left + 1 => some (.more left 0x80 0xbf)
    else none

/-- `PyUnicode_DecodeUTF8(…, "strict")` succeeds. -/
def utf8Valid (text : Bytes) : Bool := text.foldlM utf8Step .ready = some .ready

def blockText (delimiter body : Bytes) : Bytes :=
  ascii "DO " ++ delimiter ++ ascii "\nBEGIN\n" ++ body ++ ascii "END\n" ++ delimiter ++ ascii ";"

/-- `migration_build_ddl_block`: the text as its UTF-8 bytes. -/
def buildDdlBlock (tape : Bytes) (allowDestructive : Bool) : Except String Bytes :=
  if tape.length < 12 then
    .error ("invalid WMS1 SQL tape: truncated header ("
      ++ toString tape.length ++ " bytes; need at least 12)")
  else if tape.take 4 ≠ ascii "WMS1" then
    .error "invalid SQL tape: expected WMS1 magic in the first four bytes"
  else if loadAt tape 4 4 ≠ 1 then
    .error ("invalid WMS1 SQL tape: format field is "
      ++ toString (loadAt tape 4 4) ++ "; expected 1")
  else
    match selectDelimiter tape 1000000 0 with
    | none =>
      .error ("cannot render migration DDL: every bounded dollar-quote "
        ++ "delimiter appears in the SQL tape")
    | some delimiter =>
      match blockBody allowDestructive (loadAt tape 8 4) 0 (tape.drop 12) with
      | .error e => .error e
      | .ok (body, rest) =>
        if rest ≠ [] then
          .error ("invalid WMS1 SQL tape: " ++ toString rest.length
            ++ " trailing bytes remain after "
            ++ toString (loadAt tape 8 4) ++ " statements")
        else if !utf8Valid (blockText delimiter body) then
          .error "invalid UTF-8 in the DDL block"
        else .ok (blockText delimiter body)

/-! ## What is written is what is read -/

/-- What `parse_plan` takes for an operation. -/
structure Operation.WellFormed (op : Operation) : Prop where
  kind : 1 ≤ op.kind.toNat ∧ op.kind.toNat ≤ 4
  table : op.table.bytes ≠ []

theorem Action.ofCode_code (a : Action) : Action.ofCode a.code = some a := by
  cases a <;> rfl

theorem operation_read (count index : Nat) {op : Operation} (h : op.WellFormed) (rest : Bytes) :
    readOperations (count + 1) index (operationBytes op ++ rest)
      = match readOperations count (index + 1) rest with
        | .error e => .error e
        | .ok (operations, rest) => .ok (op :: operations, rest) := by
  obtain ⟨hrange, htable⟩ := h
  obtain ⟨action, kind, schema, table, name, before, after⟩ := op
  replace htable : table.bytes.length ≠ 0 := mt length_eq_zero_iff.mp htable
  generalize hdata : operationBytes ⟨action, kind, schema, table, name, before,
    after⟩ ++ rest = data
  simp only [operationBytes, append_assoc] at hdata
  have hloads : loadAt data 0 4 = action.code ∧ loadAt data 4 4 = kind.toNat
      ∧ loadAt data 8 2 = schema.bytes.length ∧ loadAt data 10 2 = table.bytes.length
      ∧ loadAt data 12 2 = name.bytes.length ∧ loadAt data 14 2 = before.bytes.length
      ∧ loadAt data 16 2 = after.bytes.length ∧ loadAt data 18 2 = 0 := by
    rw [← hdata]
    simp (disch := decide) only [loadAt_skip, Nat.reduceSub, loadAt_store action.code_lt,
      Short.load, load_word, loadAt_store, and_self]
  have hbody : data.drop 20 = schema.bytes ++ (table.bytes ++ (name.bytes
      ++ (before.bytes ++ (after.bytes ++ rest)))) := by
    rw [← hdata]
    rfl
  have hlen : 20 ≤ data.length := by
    rw [← hdata]
    simp only [length_append, length_store]
    omega
  rw [readOperations, if_neg (by omega)]
  simp only [shortAt, hloads, hbody, Action.ofCode_code, hrange, and_self, decide_true]
  rw [if_neg (by simp only [length_append]; omega)]
  simp only [← drop_drop, drop_left, take_left, UInt32.ofNat_toNat]

variable {ops : List Operation}

theorem operations_read (h : ∀ op ∈ ops, op.WellFormed) (index : Nat) :
    readOperations ops.length index (ops.flatMap operationBytes) = .ok (ops, []) := by
  induction ops generalizing index with
  | nil => rfl
  | cons op ops ih =>
    rw [flatMap_cons, length_cons, operation_read _ _ (h op mem_cons_self),
      ih fun op hop => h op (mem_cons_of_mem _ hop)]

/-- **ROUND TRIP**: a plan that is written is read as its operations. -/
theorem planOperations_planBytes (h : ∀ op ∈ ops, op.WellFormed) (hcount : ops.length < 2 ^ 32) :
    planOperations (planBytes ops) = .ok ops := by
  have hload : loadAt (planBytes ops) 8 4 = ops.length := by
    exact loadAt_store hcount _
  have hdrop : (planBytes ops).drop 12 = ops.flatMap operationBytes := rfl
  have hlen : 12 ≤ (planBytes ops).length := by
    simp only [planBytes, length_append, length_store]
    exact Nat.le_add_right 12 _
  rw [planOperations, if_neg, hload, hdrop, operations_read h]
  · simp only [ne_eq, not_true_eq_false, if_false]
  · rintro (hshort | hmagic | hformat)
    · omega
    · exact hmagic rfl
    · exact hformat (loadAt_store (by decide) _)

/-- What is read is well-formed, and as much as the count says. -/
theorem readOperations_wellFormed {count index : Nat} {data rest : Bytes}
    (h : readOperations count index data = .ok (ops, rest)) :
    ops.length = count ∧ ∀ op ∈ ops, op.WellFormed := by
  induction count generalizing index data rest ops with
  | zero =>
    cases h
    exact ⟨rfl, fun op hop => nomatch hop⟩
  | succ count ih =>
    rw [readOperations] at h
    split at h
    · cases h
    simp only at h
    split at h
    case h_2 => cases h
    rename_i action _ hvalid
    obtain ⟨-, hkind⟩ := of_decide_eq_true hvalid
    split at h
    · cases h
    rename_i hfits
    split at h
    · cases h
    rename_i found left hread
    cases h
    obtain ⟨hlength, hall⟩ := ih hread
    refine ⟨by rw [length_cons, hlength], ?_⟩
    rintro op (_ | ⟨_, hop⟩)
    · refine ⟨?_, fun hnil => ?_⟩
      · rw [UInt32.toNat_ofNat_of_lt' (Nat.lt_of_le_of_lt hkind.2 (by decide))]
        exact hkind
      · have hlen := congrArg List.length hnil
        simp only [shortAt, length_take, length_drop, length_nil] at hlen
        rw [length_drop] at hfits
        omega
    · exact hall op hop

theorem planOperations_wellFormed {plan : Bytes} (h : planOperations plan = .ok ops) :
    ops.length < 2 ^ 32 ∧ ∀ op ∈ ops, op.WellFormed := by
  revert h
  fun_cases planOperations plan with
  | case4 _ found rest hread =>
    rintro ⟨⟩
    obtain ⟨hlen, hall⟩ := readOperations_wellFormed hread
    rw [hlen]
    exact ⟨loadAt_lt plan 8 4, hall⟩
  | _ => rintro ⟨⟩

end Migration
