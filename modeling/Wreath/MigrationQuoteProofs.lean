import Wreath.MigrationSqlProofs
import Wreath.SqlLexProofs
import Wreath.StepSystemProofs

/-! # Migration quoting — names cannot change the statement around them

Every statement has a template: keywords, punctuation, the names of the operation, and
the plain tokens of a type or of an index option. The block of a tape lexes as one `DO` with
the templates of its statements in it (`names_contained`), but for two things: the value
of an index option may hold two dashes, which open a comment (`option_comments`), and
the server cuts names of more than 63 bytes. -/

namespace Migration

open ByteScan SqlLex Lockstep Except
open List hiding lex after

/-! ## Templates -/

/-- Keywords. -/
def words (text : List String) : List Token := text.map fun w => .word (ascii w)

/-- A mark. -/
def punct (c : Char) : Token := .symbol (ch c)

/-- Items with commas between them. -/
def commas (items : List (List Token)) : List Token := [punct ','].intercalate items

variable (op : Operation)

/-- The table, with its schema. -/
def qualifiedTokens : List Token :=
  if op.schema.bytes = [] then [.name op.table.bytes]
  else [.name op.schema.bytes, punct '.', .name op.table.bytes]

/-- What every `alter table` begins with. -/
def alterTableTokens : List Token := words ["alter", "table"] ++ qualifiedTokens op

/-- A list of column names. -/
def namesTokens (part : Bytes) : List Token :=
  commas ((part.splitOn 44).map fun name => [.name name])

/-- What stands between the parentheses of a spelling. -/
def spellingArguments (spelling : Bytes) : Bytes := (cutAt 40 spelling).2.dropLast

/-- The type of a column. -/
def typeTokens (spelling : Bytes) (oid : Nat) : List Token :=
  if spelling = [] then plainTokens ((sqlTypeForOid oid).getD [])
  else [.word (cutAt 40 spelling).1] ++ if 40 ∈ spelling then
        [punct '('] ++ plainTokens (spellingArguments spelling) ++ [punct ')']
      else []

/-- The identity clause of a column. -/
def identityTokens (c : ColumnParts) : List Token :=
  if c.identity = ascii "a" then words ["generated", "always", "as", "identity"]
  else if c.identity = ascii "d" then words ["generated", "by", "default", "as", "identity"]
  else []

/-- A column without an expression. -/
def definitionTokens (c : ColumnParts) : List Token :=
  typeTokens c.spelling ((parseOid c.oid).getD 0) ++ identityTokens c
    ++ if c.notNull = ascii "1" then words ["not", "null"] else []

/-- How every change of a column begins. -/
def alterColumnTokens : List Token :=
  alterTableTokens op ++ words ["alter", "column"] ++ [.name op.name.bytes]

section

variable (before after : ColumnParts)

/-- The change of a column's type. -/
def retypeTokens (beforeOid afterOid : Nat) : List Token :=
  if retyped before after beforeOid afterOid then
    alterColumnTokens op ++ words ["type"] ++ typeTokens after.spelling afterOid ++ [punct ';']
  else []

/-- The change of a column's default. -/
def defaultTokens : List Token :=
  if before.expression ≠ after.expression then
    alterColumnTokens op ++ words ["drop", "default"] ++ [punct ';']
  else []

/-- The change of a column's nullability. -/
def nullTokens : List Token :=
  if decide (before.notNull = ascii "1") ≠ decide (after.notNull = ascii "1") then
    alterColumnTokens op ++ (if after.notNull = ascii "1" then words ["set", "not", "null"]
      else words ["drop", "not", "null"]) ++ [punct ';']
  else []

end

/-- All changes of one column. -/
def changeTokens : List Token :=
  match splitColumn op.before.bytes, splitColumn op.after.bytes with
  | some before, some after =>
    retypeTokens op before after ((parseOid before.oid).getD 0) ((parseOid after.oid).getD 0)
      ++ defaultTokens op before after ++ nullTokens op before after
  | _, _ => []

/-- A column added. -/
def addColumnTokens : List Token :=
  alterTableTokens op ++ words ["add", "column"] ++ [.name op.name.bytes]
    ++ (splitColumn op.after.bytes).elim [] definitionTokens ++ [punct ';']

/-- A column dropped. -/
def dropColumnTokens : List Token :=
  alterTableTokens op ++ words ["drop", "column"] ++ [.name op.name.bytes] ++ [punct ';']

/-- What a foreign key does on a change. -/
def actionTokens (clause : List String) (code : Bytes) : List Token :=
  if code = ascii "r" then words clause ++ words ["restrict"]
  else if code = ascii "c" then words clause ++ words ["cascade"]
  else if code = ascii "n" then words clause ++ words ["set", "null"]
  else if code = ascii "d" then words clause ++ words ["set", "default"]
  else []

/-- What a foreign key refers to. -/
def foreignTokens (signature : Bytes) : List Token :=
  match signature.splitOn 58 with
  | [_, _, _, _, _, onDelete, onUpdate, deferred] =>
    actionTokens ["on", "delete"] onDelete ++ actionTokens ["on", "update"] onUpdate
      ++ if deferred = ascii "1" then
          words ["deferrable", "initially", "deferred"]
        else []
  | _ => []

/-- A constraint added. -/
def constraintTokens (form : ConstraintForm) : List Token :=
  alterTableTokens op ++ words ["add", "constraint"] ++ [.name (derivedObjectName op)]
    ++ if form.tag = ascii "p" then
        words ["primary", "key"] ++ [punct '('] ++ namesTokens form.columns
          ++ [punct ')', punct ';']
      else if form.tag = ascii "u" then
        words ["unique"] ++ [punct '('] ++ namesTokens form.columns ++ [punct ')', punct ';']
      else
        words ["foreign", "key"] ++ [punct '('] ++ namesTokens form.columns
          ++ [punct ')'] ++ words ["references"] ++ [.name form.schema]
          ++ [punct '.'] ++ [.name form.table] ++ [punct '(']
          ++ namesTokens form.reference ++ [punct ')']
          ++ foreignTokens op.after.bytes ++ [punct ';']

/-- A constraint dropped. -/
def dropConstraintTokens : List Token :=
  alterTableTokens op ++ words ["drop", "constraint"] ++ [.name (derivedObjectName op)]
    ++ [punct ';']

/-- The columns of an index, each with its operator class. -/
def indexColumnTokens : List Bytes → List Bytes → List (List Token)
  | [], _ => []
  | column :: columns, opclasses =>
    ([.name column] ++ if opclasses.headD [] = [] then []
      else [.word (opclasses.headD [])])
    :: indexColumnTokens columns opclasses.tail

/-- What follows the equals sign. -/
def optionValue (option : Bytes) : Bytes := (cutAt 61 option).2

/-- One storage option. -/
def optionTokens (option : Bytes) : List Token :=
  [.word (cutAt 61 option).1, punct '='] ++ plainTokens (optionValue option)

/-- The storage options of an index. -/
def optionsTokens (options : Bytes) : List Token :=
  if options = [] then []
  else words ["with"] ++ [punct '(']
    ++ commas ((options.splitOn 44).map optionTokens) ++ [punct ')']

/-- An index added. -/
def indexTokens (form : IndexForm) : List Token :=
  (if form.unique then words ["create", "unique", "index"]
    else words ["create", "index"])
    ++ [.name (derivedObjectName op)] ++ words ["on"] ++ qualifiedTokens op
    ++ (if form.method = ascii "btree" then []
      else words ["using"] ++ [.word form.method])
    ++ [punct '(']
    ++ commas (indexColumnTokens (form.columns.splitOn 44) ((indexExtras op).opclasses.splitOn 44))
    ++ [punct ')'] ++ optionsTokens (indexExtras op).options ++ [punct ';']

/-- The schema in front of a name. -/
def qualifierTokens : List Token :=
  if op.schema.bytes = [] then [] else [.name op.schema.bytes, punct '.']

/-- An index dropped. -/
def dropIndexTokens : List Token :=
  words ["drop", "index"] ++ qualifierTokens op ++ [.name (derivedObjectName op)] ++ [punct ';']

/-- **TEMPLATE**: what the statement of an operation is meant to be. -/
def template : List Token :=
  if op.action = .add ∧ op.kind = 1 then
    words ["create", "table"] ++ qualifiedTokens op ++ [punct '(', punct ')', punct ';']
  else if op.action = .drop ∧ op.kind = 1 then
    words ["drop", "table"] ++ qualifiedTokens op ++ [punct ';']
  else if op.action = .add ∧ op.kind = 2 then addColumnTokens op
  else if op.action = .drop ∧ op.kind = 2 then dropColumnTokens op
  else if op.action = .alter ∧ op.kind = 2 then changeTokens op
  else if op.action = .add ∧ op.kind = 3 then
    (constraintForm op).elim [] (constraintTokens op)
  else if op.action = .drop ∧ op.kind = 3 then dropConstraintTokens op
  else if op.action = .add ∧ op.kind = 4 then
    (indexForm op).elim [] (indexTokens op)
  else if op.action = .drop ∧ op.kind = 4 then dropIndexTokens op
  else []

/-! ## What is asked of a plan -/

/-- No default, generated or predicate expression is written out. -/
structure ExpressionFree (op : Operation) : Prop where
  column : op.action ≠ .drop → op.kind = 2 →
    ∀ c, splitColumn op.after.bytes = some c → c.expression = []
  index : op.action = .add → op.kind = 4 → (indexExtras op).predicate = []

/-- The values of an index's options open no comment. -/
def CalmOptions : Prop :=
  op.action = .add → op.kind = 4 → ∀ option ∈ (indexExtras op).options.splitOn 44,
      ¬[45, 45] <:+: optionValue option

/-- The server keeps the names as they are. -/
def ShortNames : Prop := ∀ name, .name name ∈ template op → name.length ≤ 63

/-- The tokens of a body between its `BEGIN` and its `END`. -/
def begun (tokens : List Token) : List Token :=
  .word (ascii "BEGIN") :: tokens ++ [.word (ascii "END")]

/-- **CONTAINED**: the block is one `DO` of the templates, and its names are those of the plan. -/
def LexesAs (block : Bytes) (ops : List Operation) : Prop :=
  ∃ delimiter body, lex block = some [.word (ascii "DO"), .dollar delimiter body, punct ';']
      ∧ (lex body).map (List.map Token.truncated) = some (begun (ops.flatMap template))

/-! ## Names -/

variable {text : Bytes}

/-- A quoted name is one token, whatever it holds. -/
theorem reads_identifier {value : Bytes}
    (h : appendIdentifier value = .ok text) : Reads text [.name value] := by
  rw [appendIdentifier] at h
  split at h
  · cases h
  · cases h
    exact reads_quoted value

variable {op : Operation}

theorem clean_end : Clean (ascii ";") [punct ';'] := rfl

theorem clean_point : Clean (ascii ".") [punct '.'] := rfl

theorem clean_blank : Clean (ascii " ") [] := rfl

/-- A table's name is read back. -/
theorem reads_qualified (h : appendQualified op = .ok text) : Reads text (qualifiedTokens op) := by
  rw [appendQualified] at h
  rw [qualifiedTokens]
  split_ifs at h ⊢
  · exact reads_identifier h
  · obtain ⟨schema, hs, h⟩ := bind_ok.mp h
    obtain ⟨table, ht, h⟩ := bind_ok.mp h
    cases h
    exact ((reads_identifier hs).append_clean clean_point rfl).append_reads (reads_identifier ht)

/-- So is the head of an `alter table`. -/
theorem reads_alterTable (h : appendQualified op = .ok text) :
    Reads (ascii "alter table " ++ text) (alterTableTokens op) :=
  have halter : Clean (ascii "alter table ") (words ["alter", "table"]) := rfl
  halter.append_reads (reads_qualified h)

/-- A derived name is one token. -/
theorem reads_derived (h : appendDerivedObjectName op = .ok text) :
    Reads text [.name (derivedObjectName op)] :=
  reads_identifier h

/-- A list of names is read back. -/
theorem reads_names {part : Bytes} (h : appendIdentifierList part = .ok text) :
    Reads text (namesTokens part) := by
  obtain ⟨names, hnames, h⟩ := bind_ok.mp h
  cases h
  refine reads_intercalate ?_
  rw [forall₂_map_right_iff]
  refine (mapM_ok.mp hnames).flip.imp fun text name hname => ?_
  split at hname
  · cases hname
  · exact reads_identifier hname

/-! ## Types -/

/-- Plain text without a comment reads as its plain tokens. -/
theorem reads_plain (h : text.all isPlain = true)
    (hcalm : ¬[45, 45] <:+: text) : Reads text (plainTokens text) := by
  rcases run_plain h (.inl rfl) with ⟨-, last, hset, htokens⟩ | ⟨hdash, -⟩
  · exact ⟨_, last, hset, rfl, htokens⟩
  · rcases hdash with ⟨hblank, -⟩ | hin
    · cases hblank
    · exact absurd hin hcalm

variable {b : UInt8}

/-- Small letters belong in words. -/
theorem wordByte_of_lower (h : isLower b = true) : isWordByte b = true := by
  rw [isLower] at h
  rw [isWordByte, isLetter, h]
  rfl

/-- Capitals belong in words. -/
theorem wordByte_of_upper (h : isUpper b = true) : isWordByte b = true := by
  rw [isUpper] at h
  rw [isWordByte, isLetter, h, Bool.or_true]
  rfl

/-- Digits belong in words. -/
theorem wordByte_of_digit (h : isDigit b = true) : isWordByte b = true := by
  rw [isWordByte, show SqlLex.isDigit b = true from h, Bool.or_true]

/-- The bytes of a spelling's arguments. -/
def isArgument (b : UInt8) : Bool := isWordByte b || b = 44 || b = 32

/-- An argument byte opens nothing. -/
theorem isPlain_of_argument (h : isArgument b = true) : isPlain b = true := by
  rw [isArgument] at h
  rw [isPlain, h]
  rfl

/-- Arguments end with their bracket. -/
theorem spellingInParens_cases (h : spellingInParens text = true) :
    ∃ arguments, text = arguments ++ [41] ∧ arguments.all isArgument = true := by
  fun_induction spellingInParens text with
  | case1 | case4 => cases h
  | case2 rest =>
    obtain rfl := of_decide_eq_true h
    exact ⟨[], rfl, rfl⟩
  | case3 b text _ hb ih =>
    obtain ⟨arguments, rfl, hall⟩ := ih h
    simp only [Bool.or_eq_true, decide_eq_true_eq] at hb
    have hargument : isArgument b = true := by
      rw [isArgument]
      rcases hb with ((((hb | hb) | hb) | rfl) | rfl) | rfl
      · rw [wordByte_of_digit hb]; rfl
      · rw [wordByte_of_lower hb]; rfl
      · rw [wordByte_of_upper hb]; rfl
      · rfl
      · rfl
      · rfl
    exact ⟨b :: arguments, rfl, by rw [all_cons, hargument, hall]; rfl⟩

/-- A spelling is a word, or a word with arguments in parentheses. -/
theorem spellingOutside_cases {first : Bool} (h : spellingOutside first text = true) :
    text.all isWordByte = true ∨ ∃ word arguments, text = word ++ 40 :: (arguments ++ [41])
        ∧ word.all isWordByte = true ∧ (first = true → word ≠ [])
        ∧ arguments.all isArgument = true := by
  induction text generalizing first with
  | nil => exact .inl rfl
  | cons b text ih =>
    rw [spellingOutside] at h
    split at h
    · rename_i hb
      split at h
      · cases h
      · rename_i hfirst
        obtain ⟨arguments, rfl, hall⟩ := spellingInParens_cases h
        exact .inr ⟨[], arguments, by rw [hb]; rfl, rfl, fun h => absurd h hfirst, hall⟩
    · obtain ⟨hb, htext⟩ : isWordByte b = true ∧ spellingOutside false text = true := by
        split at h
        · exact ⟨wordByte_of_lower ‹_›, h⟩
        split at h
        · rename_i hb
          exact ⟨wordByte_of_digit (Bool.and_eq_true_iff.mp hb).1, h⟩
        split at h
        · rename_i hb
          rw [of_decide_eq_true (Bool.and_eq_true_iff.mp hb).1]
          exact ⟨rfl, h⟩
        · cases h
      rcases ih htext with hall | ⟨word, arguments, rfl, hword, -, hargs⟩
      · left
        rw [all_cons, hb, hall]
        rfl
      · right
        exact ⟨b :: word, arguments, rfl, by rw [all_cons, hb, hword]; rfl,
          fun _ => cons_ne_nil _ _, hargs⟩

/-- Arguments open no comment. -/
theorem not_dashes_of_argument (h : text.all isArgument = true) : ¬[45, 45] <:+: text := by
  intro hin
  have hdash := all_eq_true.mp h 45 (hin.subset mem_cons_self)
  cases hdash

/-- A safe spelling is read as it stands. -/
theorem reads_spelling {spelling : Bytes} (h : spellingIsSafe spelling = true)
    (oid : Nat) : Reads spelling (typeTokens spelling oid) := by
  rw [spellingIsSafe, Bool.and_eq_true, Bool.and_eq_true, decide_eq_true_eq] at h
  obtain ⟨⟨hlen, -⟩, hsafe⟩ := h
  have hne : spelling ≠ [] := fun h => hlen (by rw [h]; rfl)
  have hword : ∀ {word : Bytes}, word.all isWordByte = true → 40 ∉ word :=
    fun hall hmem => nomatch all_eq_true.mp hall 40 hmem
  rw [typeTokens, if_neg hne]
  rcases spellingOutside_cases hsafe with hall | ⟨word, arguments, rfl, hall, hfirst, hargs⟩
  · have htake : (cutAt 40 spelling).1 = spelling := by
      refine takeWhile_eq_self_iff.mpr fun b hb => ?_
      exact bne_iff_ne.mpr fun heq => hword hall (heq ▸ hb)
    rw [htake, if_neg (hword hall), append_nil]
    exact reads_word hne hall
  · rw [spellingArguments, cutAt_append (hword hall), dropLast_concat, if_pos (by simp)]
    have hopen : Clean [40] [punct '('] := rfl
    have hplain : arguments.all isPlain = true := by
      rw [all_eq_true] at hargs ⊢
      exact fun b hb => isPlain_of_argument (hargs b hb)
    have hins := hopen.append_reads (reads_plain hplain (not_dashes_of_argument hargs))
    exact (reads_word (hfirst rfl) hall).append (hins.then (by rfl)).reads rfl

/-- A text that reads as its plain tokens and ends between them or with a word. -/
def readsPlain (text : Bytes) : Bool :=
  match run .blank text with
  | (tokens, .blank) => tokens = plainTokens text
  | (tokens, .word word) => tokens ++ [.word word] = plainTokens text
  | _ => false

/-- The check is sound. -/
theorem reads_of_readsPlain (h : readsPlain text = true) : Reads text (plainTokens text) := by
  rw [readsPlain] at h
  split at h
  · rename_i tokens hrun
    rw [← of_decide_eq_true h]
    exact Clean.reads hrun
  · rename_i tokens word hrun
    exact reads_of_run hrun (of_decide_eq_true h)
  · cases h

/-- Every known type passes it. -/
theorem type_readsPlain {oid : Nat} {type : Bytes}
    (h : sqlTypeForOid oid = some type) : readsPlain type = true := by
  rw [sqlTypeForOid.eq_def] at h
  split at h
  all_goals first
    | (obtain rfl := Option.some.inj h; rfl)
    | cases h

/-- A type is read back. -/
theorem reads_type {spelling : Bytes} {oid : Nat} (h : renderColumnType spelling oid = .ok text) :
    Reads text (typeTokens spelling oid) := by
  rw [renderColumnType] at h
  split at h
  · split at h
    · cases h
      exact reads_spelling ‹_› oid
    · cases h
  · rename_i hspelling
    obtain rfl := not_not.mp hspelling
    split at h
    · cases h
    · rename_i type htype
      cases h
      rw [typeTokens, if_pos rfl, htype]
      exact reads_of_readsPlain (type_readsPlain htype)

/-! ## Columns -/

variable {c : ColumnParts}

/-- So is an identity clause. -/
theorem follows_identity (h : columnIdentity c = .ok text) : Follows text (identityTokens c) := by
  rw [columnIdentity] at h
  rw [identityTokens]
  split_ifs at h ⊢ <;> cases h
  · exact .inr ⟨reads_of_run rfl rfl, rfl⟩
  · exact .inr ⟨reads_of_run rfl rfl, rfl⟩
  · exact .inl ⟨rfl, rfl⟩

/-- So is nullability. -/
theorem follows_nullability (h : columnNullability c = .ok text) :
    Follows text (if c.notNull = ascii "1" then words ["not", "null"] else []) := by
  rw [columnNullability] at h
  split_ifs at h ⊢ <;> cases h
  · exact .inr ⟨reads_of_run rfl rfl, rfl⟩
  · exact .inl ⟨rfl, rfl⟩

/-- Without an expression nothing is written for it. -/
theorem expression_empty (hexpr : c.expression = []) (h : columnExpression c = .ok text) :
    text = [] := by
  rw [columnExpression, hexpr] at h
  split at h
  · cases h
  · exact (ok.inj h).symm

/-- A definition without an expression is read back. -/
theorem reads_definition {signature : Bytes}
    (hsplit : splitColumn signature = some c) (hexpression : c.expression = [])
    (h : renderColumnDefinition signature = .ok text) : Reads text (definitionTokens c) := by
  rw [renderColumnDefinition, hsplit] at h
  simp only at h
  split at h
  case h_2 => cases h
  rename_i oid _ hoid
  split at h
  · cases h
  split at h
  · cases h
  obtain ⟨type, htype, h⟩ := bind_ok.mp h
  obtain ⟨identity, hident, h⟩ := bind_ok.mp h
  obtain ⟨expression, hexpr, h⟩ := bind_ok.mp h
  obtain ⟨nullability, hnullability, h⟩ := bind_ok.mp h
  cases h
  obtain rfl := expression_empty hexpression hexpr
  rw [append_nil, definitionTokens, hoid]
  exact ((reads_type htype).follow (follows_identity hident)).follow
    (follows_nullability hnullability)

variable {sql : Bytes}

/-- A column added without an expression reads as its template. -/
theorem clean_addColumn (hexpr : ∀ c, splitColumn op.after.bytes = some c → c.expression = [])
    (h : renderAddColumn op = .ok sql) : Clean sql (addColumnTokens op) := by
  obtain ⟨table, htable, h⟩ := bind_ok.mp h
  obtain ⟨name, hname, h⟩ := bind_ok.mp h
  obtain ⟨definition, hdef, h⟩ := bind_ok.mp h
  cases h
  rw [addColumnTokens]
  cases hsplit : splitColumn op.after.bytes with
  | none =>
    rw [renderColumnDefinition, hsplit] at hdef
    cases hdef
  | some c =>
    have hadd : Clean (ascii " add column ") (words ["add", "column"]) := rfl
    have hhead := ((reads_alterTable htable).append_clean
      hadd rfl).append_reads (reads_identifier hname)
    have hcol := (hhead.append_clean clean_blank rfl).append_reads
      (reads_definition hsplit (hexpr c hsplit) hdef)
    rw [append_nil] at hcol
    exact hcol.then (by rfl)

/-- So does a dropped column. -/
theorem clean_dropColumn (h : renderDropColumn op = .ok sql) : Clean sql (dropColumnTokens op) := by
  obtain ⟨table, htable, h⟩ := bind_ok.mp h
  obtain ⟨name, hname, h⟩ := bind_ok.mp h
  cases h
  exact (((reads_alterTable htable).then (by rfl)).append_reads (reads_identifier hname)).then (by rfl)

/-- An added table reads as its template. -/
theorem clean_addTable (h : renderAddTable op = .ok sql) :
    Clean sql (words ["create", "table"] ++ qualifiedTokens op
      ++ [punct '(', punct ')', punct ';']) := by
  obtain ⟨table, htable, h⟩ := bind_ok.mp h
  cases h
  have hcreate : Clean (ascii "create table ") (words ["create", "table"]) := rfl
  exact (hcreate.append_reads (reads_qualified htable)).then (by rfl)

/-- So does a dropped table. -/
theorem clean_dropTable (h : renderDropTable op = .ok sql) :
    Clean sql (words ["drop", "table"] ++ qualifiedTokens op ++ [punct ';']) := by
  obtain ⟨table, htable, h⟩ := bind_ok.mp h
  cases h
  have hdrop : Clean (ascii "drop table ") (words ["drop", "table"]) := rfl
  exact (hdrop.append_reads (reads_qualified htable)).then (by rfl)

/-- The beginning of a change is read back. -/
theorem reads_alterColumn (h : appendAlterColumnPrefix op = .ok text) :
    Reads text (alterColumnTokens op) := by
  obtain ⟨table, htable, h⟩ := bind_ok.mp h
  obtain ⟨name, hname, h⟩ := bind_ok.mp h
  cases h
  exact ((reads_alterTable htable).then (by rfl)).append_reads (reads_identifier hname)

/-- Statements with blanks between them. -/
def CleanAll (texts : List Bytes) (tokens : List Token) : Prop :=
  Clean ((ascii " ").intercalate texts) tokens ∧ (texts = [] → tokens = [])

/-- Joined lists are joined with the separator. -/
theorem intercalate_append {sep : Bytes} {xs ys : List Bytes} (hxs : xs ≠ []) (hys : ys ≠ []) :
    sep.intercalate (xs ++ ys) = sep.intercalate xs ++ sep ++ sep.intercalate ys := by
  induction xs with
  | nil => exact absurd rfl hxs
  | cons x xs ih =>
    cases xs with
    | nil =>
      cases ys with
      | nil => exact absurd rfl hys
      | cons y ys =>
        rw [singleton_append, intercalate_cons_cons, intercalate_singleton]
    | cons x' xs =>
      rw [cons_append, cons_append, intercalate_cons_cons, intercalate_cons_cons, ← cons_append,
        ih (cons_ne_nil _ _)]
      simp only [append_assoc]

/-- Runs of statements can be joined. -/
theorem CleanAll.append {xs ys : List Bytes} {s t : List Token}
    (hx : CleanAll xs s) (hy : CleanAll ys t) : CleanAll (xs ++ ys) (s ++ t) := by
  rcases eq_or_ne xs [] with rfl | hxs
  · rw [hx.2 rfl]
    exact hy
  rcases eq_or_ne ys [] with rfl | hys
  · rw [hy.2 rfl, append_nil, append_nil]
    exact hx
  refine ⟨?_, fun h => absurd (append_eq_nil_iff.mp h).1 hxs⟩
  rw [intercalate_append hxs hys]
  have hboth := (hx.1.append clean_blank).append hy.1
  rwa [append_nil] at hboth

variable {before after : ColumnParts} {texts : List Bytes}

/-- A statement that is written where a condition holds. -/
theorem cleanAll_ite {p : Prop} [Decidable p] {x : Except Stop (List Bytes)} {tokens : List Token}
    (hx : x = .ok texts → ∃ text, texts = [text] ∧ Clean text tokens)
    (h : (if p then x else .ok []) = .ok texts) : CleanAll texts (if p then tokens else []) := by
  split_ifs at h ⊢
  · obtain ⟨text, rfl, hclean⟩ := hx h
    rw [CleanAll, intercalate_singleton]
    exact ⟨hclean, nofun⟩
  · cases h
    exact ⟨rfl, fun _ => rfl⟩

/-- A change of type is read back. -/
theorem cleanAll_type {beforeOid afterOid : Nat}
    (h : typeChange op before after beforeOid afterOid = .ok texts) :
    CleanAll texts (retypeTokens op before after beforeOid afterOid) := by
  refine cleanAll_ite (fun h => ?_) h
  obtain ⟨column, hcol, h⟩ := bind_ok.mp h
  obtain ⟨type, htype, h⟩ := bind_ok.mp h
  cases h
  exact ⟨_, rfl, (((reads_alterColumn hcol).then (by rfl)).append_reads (reads_type htype)).then (by rfl)⟩

/-- A change of default is read back. -/
theorem cleanAll_default (hexpr : after.expression = [])
    (h : defaultChange op before after = .ok texts) :
    CleanAll texts (defaultTokens op before after) := by
  refine cleanAll_ite (fun h => ?_) h
  obtain ⟨column, hcol, h⟩ := bind_ok.mp h
  cases h
  refine ⟨_, rfl, ?_⟩
  rw [if_pos hexpr, append_assoc]
  exact (reads_alterColumn hcol).then (by rfl)

/-- A change of nullability is read back. -/
theorem cleanAll_null (h : nullChange op before after = .ok texts) :
    CleanAll texts (nullTokens op before after) := by
  refine cleanAll_ite (fun h => ?_) h
  obtain ⟨column, hcol, h⟩ := bind_ok.mp h
  cases h
  refine ⟨_, rfl, ?_⟩
  rw [append_assoc]
  split_ifs
  · exact (reads_alterColumn hcol).then (by rfl)
  · exact (reads_alterColumn hcol).then (by rfl)

/-- All changes of one column are read back. -/
theorem clean_change (hexpr : ∀ c, splitColumn op.after.bytes = some c → c.expression = [])
    (h : renderColumnChange op = .ok sql) : Clean sql (changeTokens op) := by
  rw [renderColumnChange] at h
  split at h
  case h_2 => cases h
  rename_i before after hbef hafter
  split at h
  case h_2 => cases h
  rename_i beforeOid afterOid hbeforeOid hafterOid hchangeable
  obtain ⟨typed, htyped, h⟩ := bind_ok.mp h
  obtain ⟨defaulted, hdefaulted, h⟩ := bind_ok.mp h
  obtain ⟨nulled, hnulled, h⟩ := bind_ok.mp h
  split at h
  · cases h
  cases h
  simp only [changeTokens, hbef, hafter, hbeforeOid, hafterOid, Option.getD_some]
  exact (((cleanAll_type htyped).append (cleanAll_default
    (hexpr after hafter) hdefaulted)).append (cleanAll_null hnulled)).1

/-! ## Constraints -/

/-- A foreign key's action is read back. -/
theorem follows_action {clause : Bytes} {clauseWords : List String} {code : Bytes}
    (hclause : (clause, clauseWords) = (ascii " on delete", ["on", "delete"])
      ∨ (clause, clauseWords) = (ascii " on update", ["on", "update"]))
    (h : renderFkAction clause code = .ok text) : Follows text (actionTokens clauseWords code) := by
  rw [renderFkAction] at h
  rw [actionTokens]
  split at h
  · rename_i hcode
    cases h
    rw [hcode]
    exact .inl ⟨rfl, rfl⟩
  -- each clause with each action is a text of its own
  rcases hclause with hclause | hclause
  all_goals
    cases hclause
    split_ifs at h ⊢ <;> cases h
    all_goals exact .inr ⟨reads_of_run rfl rfl, rfl⟩

/-- So is its deferral. -/
theorem follows_deferred {code : Bytes} (h : renderDeferred code = .ok text) :
    Follows text (if code = ascii "1" then
      words ["deferrable", "initially", "deferred"] else []) := by
  rw [renderDeferred] at h
  split_ifs at h ⊢ <;> cases h
  · exact .inr ⟨reads_of_run rfl rfl, rfl⟩
  · exact .inl ⟨rfl, rfl⟩

/-- What follows a text without tokens of its own may be added to. -/
theorem Follows.append {x y : Bytes} {xs ys : List Token} (hx : Follows x xs)
    (hy : Follows y ys) : Follows (x ++ y) (xs ++ ys) := by
  rcases hx with ⟨rfl, rfl⟩ | ⟨hx, hbreak⟩
  · exact hy
  · refine .inr ⟨hx.follow hy, ?_⟩
    cases x with
    | nil => cases hbreak
    | cons b x => exact hbreak

/-- So is what it refers to. -/
theorem follows_foreign {signature : Bytes} (h : renderFkTail signature = .ok text) :
    Follows text (foreignTokens signature) := by
  rw [renderFkTail] at h
  split at h
  case h_2 => cases h
  rename_i hsplit
  rw [foreignTokens, hsplit]
  obtain ⟨onDelete, hdelete, h⟩ := bind_ok.mp h
  obtain ⟨onUpdate, hupdate, h⟩ := bind_ok.mp h
  obtain ⟨deferred, hdeferred, h⟩ := bind_ok.mp h
  cases h
  refine Follows.append (Follows.append ?_ ?_) (follows_deferred hdeferred)
  · exact follows_action (.inl rfl) hdelete
  · exact follows_action (.inr rfl) hupdate

/-- An added constraint reads as its template. -/
theorem clean_constraint (h : renderConstraint op = .ok sql) :
    Clean sql ((constraintForm op).elim [] (constraintTokens op)) := by
  rw [renderConstraint] at h
  split at h
  · cases h
  rename_i form hform
  rw [hform]
  show Clean sql (constraintTokens op form)
  obtain ⟨table, htable, h⟩ := bind_ok.mp h
  obtain ⟨name, hname, h⟩ := bind_ok.mp h
  have hadd : Clean (ascii " add constraint ") (words ["add", "constraint"]) := rfl
  have hclose : Clean (ascii ");") [punct ')', punct ';'] := rfl
  have hhead := ((reads_alterTable htable).append_clean hadd rfl).append_reads (reads_derived hname)
  rw [constraintTokens]
  split_ifs at h ⊢
  · obtain ⟨columns, hcols, h⟩ := bind_ok.mp h
    cases h
    have hkey : Clean (ascii " primary key (") (words ["primary", "key"] ++ [punct '(']) := rfl
    have hall := ((hhead.append_clean hkey rfl).append_reads
      (reads_names hcols)).append_clean hclose rfl
    simpa only [append_assoc] using hall
  · obtain ⟨columns, hcols, h⟩ := bind_ok.mp h
    cases h
    have hunique : Clean (ascii " unique (") (words ["unique"] ++ [punct '(']) := rfl
    have hall := ((hhead.append_clean hunique rfl).append_reads
      (reads_names hcols)).append_clean hclose rfl
    simpa only [append_assoc] using hall
  obtain ⟨columns, hcols, h⟩ := bind_ok.mp h
  obtain ⟨schema, hschema, h⟩ := bind_ok.mp h
  obtain ⟨target, htgt, h⟩ := bind_ok.mp h
  obtain ⟨reference, hreference, h⟩ := bind_ok.mp h
  obtain ⟨tail, htail, h⟩ := bind_ok.mp h
  cases h
  have hforeign : Clean (ascii " foreign key (") (words ["foreign", "key"] ++ [punct '(']) := rfl
  have hreferences : Clean (ascii ") references ") ([punct ')'] ++ words ["references"]) := rfl
  have hopen : Clean (ascii " (") [punct '('] := rfl
  have hparen : Clean (ascii ")") [punct ')'] := rfl
  have hown := (hhead.append_clean hforeign rfl).append_reads (reads_names hcols)
  have hother := ((hown.append_clean hreferences rfl).append_reads
    (reads_identifier hschema)).append_clean clean_point rfl
  have hkey := ((hother.append_reads (reads_identifier htgt)).append_clean
    hopen rfl).append_reads (reads_names hreference)
  have hall := ((hkey.append_clean hparen rfl).reads.follow
    (follows_foreign htail)).append_clean clean_end rfl
  simpa only [append_assoc] using hall

/-- So does a dropped constraint. -/
theorem clean_dropConstraint (h : renderDropConstraint op = .ok sql) :
    Clean sql (dropConstraintTokens op) := by
  rw [renderDropConstraint] at h
  split at h
  · cases h
  obtain ⟨table, htable, h⟩ := bind_ok.mp h
  obtain ⟨name, hname, h⟩ := bind_ok.mp h
  cases h
  exact (((reads_alterTable htable).then (by rfl)).append_reads (reads_derived hname)).then (by rfl)

/-! ## Indexes -/

/-- A dropped index reads as its template. -/
theorem clean_dropIndex (h : renderDropIndex op = .ok sql) : Clean sql (dropIndexTokens op) := by
  rw [renderDropIndex] at h
  split at h
  · cases h
  split at h
  · cases h
  obtain ⟨schema, hschema, h⟩ := bind_ok.mp h
  obtain ⟨name, hname, h⟩ := bind_ok.mp h
  cases h
  have hdrop : Clean (ascii "drop index ") (words ["drop", "index"]) := rfl
  have hqualifier : Clean schema (qualifierTokens op) := by
    rw [dropIndexSchema] at hschema
    rw [qualifierTokens]
    split_ifs at hschema ⊢
    · cases hschema
      rfl
    · obtain ⟨text, htext, hschema⟩ := bind_ok.mp hschema
      cases hschema
      exact (reads_identifier htext).then (by rfl)
  exact ((hdrop.append hqualifier).append_reads (reads_derived hname)).then (by rfl)

/-- A plain identifier is one word. -/
theorem wordBytes_of_identifier (h : isLowerIdentifier text = true) :
    text ≠ [] ∧ text.all isWordByte = true := by
  cases text with
  | nil => cases h
  | cons b text =>
    rw [isLowerIdentifier, Bool.and_eq_true, Bool.and_eq_true] at h
    obtain ⟨⟨-, hb⟩, htext⟩ := h
    refine ⟨cons_ne_nil _ _, ?_⟩
    rw [all_cons, Bool.and_eq_true]
    constructor
    · rcases Bool.or_eq_true_iff.mp hb with hb | hb
      · exact wordByte_of_lower hb
      · rw [of_decide_eq_true hb]
        rfl
    · rw [all_eq_true] at htext ⊢
      intro c hc
      have hbyte := htext c hc
      simp only [Bool.or_eq_true, decide_eq_true_eq] at hbyte
      rcases hbyte with (hlower | hdigit) | rfl
      · exact wordByte_of_lower hlower
      · exact wordByte_of_digit hdigit
      · rfl

/-- An operator class is read back. -/
theorem follows_opclass {opclass : Bytes} (h : appendOpclass opclass = .ok text) :
    Follows text (if opclass = [] then [] else [.word opclass]) := by
  rw [appendOpclass] at h
  split_ifs at h ⊢ with _ hident <;> cases h
  · exact .inl ⟨rfl, rfl⟩
  · obtain ⟨hne, hall⟩ := wordBytes_of_identifier hident
    exact .inr ⟨clean_blank.append_reads (reads_word hne hall), rfl⟩

/-- So is a column of an index. -/
theorem reads_indexColumn {columns opclasses : List Bytes}
    (h : appendIndexColumn columns opclasses = .ok texts) :
    List.Forall₂ Reads texts (indexColumnTokens columns opclasses) := by
  induction columns generalizing opclasses texts with
  | nil =>
    cases h
    exact .nil
  | cons column columns ih =>
    rw [appendIndexColumn] at h
    split at h
    · cases h
    obtain ⟨name, hname, h⟩ := bind_ok.mp h
    obtain ⟨opclass, hopclass, h⟩ := bind_ok.mp h
    obtain ⟨rest, hrest, h⟩ := bind_ok.mp h
    cases h
    exact .cons ((reads_identifier hname).follow (follows_opclass hopclass)) (ih hrest)

/-- So are all of them. -/
theorem reads_indexColumns {columns opclasses : Bytes}
    (h : appendIndexColumns columns opclasses = .ok text) :
    Reads text (commas (indexColumnTokens (columns.splitOn 44) (opclasses.splitOn 44))) := by
  obtain ⟨texts, htexts, h⟩ := bind_ok.mp h
  cases h
  exact reads_intercalate (reads_indexColumn htexts)

/-! ### Options -/

/-- An option byte opens nothing. -/
theorem isPlain_of_option (h : isOptionByte b = true) : isPlain b = true := by
  simp only [isOptionByte, Bool.or_eq_true, decide_eq_true_eq] at h
  rw [isPlain]
  rcases h with ((((h | h) | h) | rfl) | rfl) | rfl
  · rw [wordByte_of_lower h]; rfl
  · rw [wordByte_of_upper h]; rfl
  · rw [wordByte_of_digit h]; rfl
  · rfl
  · rfl
  · rfl

/-- A plain byte ends no line. -/
theorem noBreak_of_plain (h : isPlain b = true) : b ≠ 10 ∧ b ≠ 13 := by
  constructor <;> rintro rfl <;> cases h

/-- How the text of an option is left: at the end of a token, or in the comment that its
    value opens. -/
structure OptionText (option text : Bytes) : Prop where
  calm : ¬[45, 45] <:+: optionValue option → Reads text (optionTokens option)
  lost : [45, 45] <:+: optionValue option → ∃ tokens, run .blank text = (tokens, .line)
    ∧ tokens.length ≤ (optionTokens option).length
  line : ∀ b ∈ text, b ≠ 10 ∧ b ≠ 13

/-- An accepted option is of that form. -/
theorem optionText {option : Bytes}
    (h : appendIndexOption option = .ok text) : OptionText option text := by
  rw [appendIndexOption] at h
  simp only at h
  split_ifs at h with _ hname hvalue
  cases h
  obtain ⟨hne, hword⟩ := wordBytes_of_identifier (by simpa using hname)
  have hplain : (optionValue option).all isPlain = true := by
    have hbytes : (optionValue option).all isOptionByte = true := by
      rw [optionValue]
      simpa using hvalue
    rw [all_eq_true] at hbytes ⊢
    exact fun b hb => isPlain_of_option (hbytes b hb)
  have hhead : Clean ((cutAt 61 option).1 ++ ascii " = ")
      ([.word (cutAt 61 option).1] ++ [punct '=']) := (reads_word hne hword).then (by rfl)
  refine ⟨fun hcalm => ?_, fun hdash => ?_, ?_⟩
  · exact hhead.append_reads (reads_plain hplain hcalm)
  · rcases run_plain hplain (.inl rfl) with ⟨hno, -⟩ | ⟨-, hline, hlen⟩
    · exact absurd (.inr hdash) hno
    · rw [run_append, hhead]
      refine ⟨_, Prod.ext rfl hline, ?_⟩
      simp only [optionTokens, length_append]
      exact Nat.add_le_add_left hlen _
  · rw [forall_mem_append, forall_mem_append]
    refine ⟨⟨fun b hb => noBreak_of_plain ?_, by decide +kernel⟩,
      fun b hb => noBreak_of_plain (all_eq_true.mp hplain b hb)⟩
    rw [isPlain, all_eq_true.mp hword b hb]
    rfl

/-- Commas end no line. -/
theorem comma_line : ∀ b ∈ ascii ", ", b ≠ 10 ∧ b ≠ 13 := by decide +kernel

/-- Options stand on one line. -/
theorem options_line {options : List Bytes} (h : List.Forall₂ OptionText options texts) :
    ∀ b ∈ (ascii ", ").intercalate texts, b ≠ 10 ∧ b ≠ 13 := by
  induction h with
  | nil => exact fun b hb => nomatch hb
  | @cons option text options texts hoption hrest ih =>
    cases hrest with
    | nil =>
      rw [intercalate_singleton]
      exact hoption.line
    | cons hnext hrest =>
      rw [intercalate_cons_cons, forall_mem_append, forall_mem_append]
      exact ⟨⟨hoption.line, comma_line⟩, ih⟩

/-- No value opens a comment. -/
def CalmValues (options : List Bytes) : Prop :=
  ∀ option ∈ options, ¬[45, 45] <:+: optionValue option

/-- How the text of all options is left. -/
theorem optionTexts {options : List Bytes} (h : List.Forall₂ OptionText options texts) :
    (CalmValues options ∧ Reads ((ascii ", ").intercalate texts)
        (commas (options.map optionTokens)))
      ∨ (¬CalmValues options ∧ ∃ tokens, run .blank ((ascii ", ").intercalate texts)
            = (tokens, .line)
          ∧ tokens.length ≤ (commas (options.map optionTokens)).length) := by
  induction h with
  | nil =>
    exact .inl ⟨nofun, (show Clean [] [] from rfl).reads⟩
  | @cons option text options texts hoption hrest ih =>
    have hcons : CalmValues (option :: options)
        ↔ ¬[45, 45] <:+: optionValue option ∧ CalmValues options :=
      forall_mem_cons
    cases hrest with
    | nil =>
      rw [intercalate_singleton, map_singleton, commas, intercalate_singleton, hcons]
      by_cases hdash : [45, 45] <:+: optionValue option
      · exact .inr ⟨fun h => h.1 hdash, hoption.lost hdash⟩
      · exact .inl ⟨⟨hdash, nofun⟩, hoption.calm hdash⟩
    | @cons next nextText options texts hnext hrest =>
      rw [intercalate_cons_cons, map_cons, map_cons, commas, intercalate_cons_cons, hcons]
      by_cases hdash : [45, 45] <:+: optionValue option
      · -- the comment swallows what follows
        obtain ⟨tokens, hlost, hlen⟩ := hoption.lost hdash
        refine .inr ⟨fun h => h.1 hdash, tokens, ?_, ?_⟩
        · have hmore : run .line (ascii ", "
              ++ (ascii ", ").intercalate (nextText :: texts)) = ([], .line) := by
            exact run_line (forall_mem_append.mpr ⟨comma_line, options_line (.cons hnext hrest)⟩)
          rw [append_assoc, run_append, hlost, hmore, append_nil]
        · rw [length_append, length_append]
          omega
      · rcases ih with ⟨hcalm, hreads⟩ | ⟨hnot, tokens, hrun, hlen⟩
        · exact .inl ⟨⟨hdash, hcalm⟩, reads_comma (hoption.calm hdash) hreads⟩
        · refine .inr ⟨fun h => hnot h.2, optionTokens option ++ ([.symbol 44] ++ tokens), ?_, ?_⟩
          · rw [append_assoc, (hoption.calm hdash).run_append rfl, run_append]
            have hcomma : run .blank (ascii ", ") = ([.symbol 44], .blank) := rfl
            rw [hcomma, hrun]
          · rw [map_cons, commas] at hlen
            simp only [length_append] at hlen ⊢
            have hone : [punct ','].length = [Token.symbol 44].length := rfl
            omega

/-- How a statement is left: between tokens, as its template, or in a comment, with less
    than its template. -/
def Statement.Left (calm : Prop) (sql : Bytes) (tokens : List Token) : Prop :=
  (calm ∧ Clean sql tokens) ∨ (¬calm ∧ ∃ read, run .blank sql = (read, .line)
        ∧ read.length < tokens.length)

/-- The options behind a head, up to the end of the statement. -/
theorem left_options {head options : Bytes} {tokens : List Token}
    (hhead : Reads head tokens) (h : appendIndexOptions options = .ok text) :
    Statement.Left (CalmValues (options.splitOn 44)) (head ++ text ++ ascii ";")
      (tokens ++ optionsTokens options ++ [punct ';']) := by
  rw [appendIndexOptions] at h
  rw [optionsTokens]
  split at h
  · rename_i hnil
    cases h
    rw [if_pos hnil, append_nil, append_nil]
    refine .inl ⟨?_, hhead.then (by rfl)⟩
    rw [hnil]
    intro option hoption
    rw [mem_singleton.mp hoption]
    decide
  · rename_i hne
    rw [if_neg hne]
    obtain ⟨texts, htexts, h⟩ := bind_ok.mp h
    cases h
    have hwith : Clean (ascii " with (") (words ["with"] ++ [punct '(']) := rfl
    have hclose : Clean (ascii ")") [punct ')'] := rfl
    have hopen := hhead.append_clean hwith rfl
    have hall := (mapM_ok.mp htexts).imp fun option text => optionText
    rcases optionTexts hall with ⟨hcalm, hreads⟩ | ⟨hnot, read, hrun, hlen⟩
    · left
      refine ⟨hcalm, ?_⟩
      have hclean := ((hopen.append_reads hreads).append_clean hclose rfl).append clean_end
      simpa only [append_assoc] using hclean
    · right
      refine ⟨hnot, tokens ++ (words ["with"] ++ [punct '(']) ++ read, ?_, ?_⟩
      · have hrest : run .line (ascii ");") = ([], .line) := rfl
        have hsql : head ++ (ascii " with (" ++ (ascii ", ").intercalate texts
              ++ ascii ")") ++ ascii ";"
            = (head ++ ascii " with (") ++ ((ascii ", ").intercalate texts ++ ascii ");") := by
          simp only [append_assoc]
          rfl
        rw [hsql, run_append, hopen, run_append, hrun, hrest, append_nil]
      · simp only [length_append, length_singleton]
        omega

/-- A known method is one word. -/
theorem method_word {method : Bytes} (h : indexMethodIsKnown method = true) :
    method ≠ [] ∧ method.all isWordByte = true := by
  have hall : ∀ method ∈ [ascii "btree", ascii "gin", ascii "gist",
      ascii "hnsw", ascii "ivfflat"],
      method ≠ [] ∧ method.all isWordByte = true := by decide
  exact hall method (of_decide_eq_true h)

/-- An added index reads as its template, or ends in a comment. -/
theorem left_index (hadd : op.action = .add) (hindex : op.kind = 4)
    (hpred : (indexExtras op).predicate = []) (h : renderIndex op = .ok sql) :
    Statement.Left (CalmOptions op) sql ((indexForm op).elim [] (indexTokens op)) := by
  rw [renderIndex] at h
  split at h
  · cases h
  rename_i form hform
  split at h
  · cases h
  rename_i hknown
  obtain ⟨name, hname, h⟩ := bind_ok.mp h
  obtain ⟨table, htable, h⟩ := bind_ok.mp h
  obtain ⟨columns, hcols, h⟩ := bind_ok.mp h
  obtain ⟨options, hoptions, h⟩ := bind_ok.mp h
  cases h
  rw [hform]
  show Statement.Left (CalmOptions op) _ (indexTokens op form)
  have hcreate : Clean (if form.unique then ascii "create unique index "
        else ascii "create index ")
      (if form.unique then words ["create", "unique", "index"]
        else words ["create", "index"]) := by
    cases form.unique <;> rfl
  have hon : Clean (ascii " on ") (words ["on"]) := rfl
  have hopen : Clean (ascii " (") [punct '('] := rfl
  have hclose : Clean (ascii ")") [punct ')'] := rfl
  have haccess : Follows (if form.method = ascii "btree" then []
        else ascii " using " ++ form.method)
      (if form.method = ascii "btree" then []
        else words ["using"] ++ [.word form.method]) := by
    split
    · exact .inl ⟨rfl, rfl⟩
    · have hmethod := method_word (by simpa using hknown)
      have husing : Clean (ascii " using ") (words ["using"]) := rfl
      exact .inr ⟨husing.append_reads (reads_word hmethod.1 hmethod.2), rfl⟩
  have hhead := ((((hcreate.append_reads (reads_derived hname)).append_clean hon
    rfl).append_reads (reads_qualified htable)).follow haccess)
  have hlist := ((hhead.append_clean hopen rfl).append_reads
    (reads_indexColumns hcols)).append_clean hclose rfl
  have hleft := left_options hlist.reads hoptions
  rw [hpred, if_pos rfl, append_nil, indexTokens]
  have hcalm : CalmOptions op ↔ CalmValues ((indexExtras op).options.splitOn 44) :=
    ⟨fun h => h hadd hindex, fun h _ _ => h⟩
  rw [Statement.Left, hcalm]
  exact hleft

/-- **STATEMENTS**: what a rendered statement lexes as. -/
theorem statement_left (hfree : ExpressionFree op) (h : renderOperation op = .ok sql) :
    Statement.Left (CalmOptions op) sql (template op) := by
  by_cases hindex : op.action = .add ∧ op.kind = 4
  · obtain ⟨hadd, hkind⟩ := hindex
    have hrender : renderOperation op = renderIndex op := by
      simp [renderOperation, hadd, hkind]
    have htemplate : template op = (indexForm op).elim [] (indexTokens op) := by
      simp [template, hadd, hkind]
    rw [htemplate]
    exact left_index hadd hkind (hfree.index hadd hkind) (hrender ▸ h)
  · refine .inl ⟨fun hadd hkind => absurd ⟨hadd, hkind⟩ hindex, ?_⟩
    rw [renderOperation] at h
    rw [template]
    split_ifs at h ⊢ with _ _ hadd _ halter
    · exact clean_addTable h
    · exact clean_dropTable h
    · exact clean_addColumn (hfree.column (by rw [hadd.1]; decide) hadd.2) h
    · exact clean_dropColumn h
    · exact clean_change (hfree.column (by rw [halter.1]; decide) halter.2) h
    · exact clean_constraint h
    · exact clean_dropConstraint h
    · exact clean_dropIndex h

/-! ## The block -/

/-- The body of a block between its delimiters, by its statements. -/
def bodyText : Nat → List Bytes → Bytes
  | _, [] => []
  | index, sql :: rest =>
    markerText index ++ sql ++ ascii "\n" ++ bodyText (index + 1) rest

/-- The tape holds what was rendered. -/
theorem statementOf_ok {s : Statement} (h : statementOf op = .ok s) :
    s.flags < 4 ∧ s.sql.length < 2 ^ 32
      ∧ (s.flags / 2 % 2 ≠ 1 → renderOperation op = .ok s.sql) := by
  have hflags : (if op.action = .drop then 1 else 0) < 2 := by
    split <;> decide
  revert h
  fun_cases statementOf op with
  | case2 =>
    rintro ⟨⟩
    refine ⟨?_, Nat.two_pow_pos 32, fun hmanual => ?_⟩
    · show _ + 2 < 4
      omega
    · exact absurd (show (_ + 2) / 2 % 2 = 1 by omega) hmanual
  | case4 _ sql hsql hlen =>
    rintro ⟨⟩
    exact ⟨Nat.lt_trans hflags (by decide), Nat.not_le.mp hlen, fun _ => hsql⟩
  | _ => rintro ⟨⟩

/-- The block holds the statements of the tape. -/
theorem blockBody_ok {allow : Bool} {statements : List Statement}
    (hstmts : ∀ s ∈ statements, s.flags < 4 ∧ s.sql.length < 2 ^ 32)
    {index : Nat} {rest : Bytes} (h : blockBody allow statements.length index
      (statements.flatMap statementBytes) = .ok (text, rest)) :
    text = bodyText index (statements.map Statement.sql)
      ∧ ∀ s ∈ statements, s.flags / 2 % 2 ≠ 1 := by
  induction statements generalizing index text rest with
  | nil =>
    cases h
    exact ⟨rfl, fun s hs => nomatch hs⟩
  | cons s statements ih =>
    obtain ⟨hs, hrest⟩ := forall_mem_cons.mp hstmts
    generalize hdata : (s :: statements).flatMap statementBytes = data at h
    have hflags : LittleEndian.loadAt data 0 4 = s.flags := by
      rw [← hdata]
      exact LittleEndian.loadAt_store (Nat.lt_trans hs.1 (by decide)) _
    have hlen : LittleEndian.loadAt data 4 4 = s.sql.length := by
      rw [← hdata]
      exact (LittleEndian.loadAt_skip (Nat.le_refl 4) ..).trans (LittleEndian.loadAt_store hs.2 _)
    have hbody : data.drop 8 = s.sql ++ statements.flatMap statementBytes := by
      rw [← hdata]
      rfl
    rw [length_cons, blockBody] at h
    simp only [hflags, hlen, hbody, take_left, drop_left] at h
    split_ifs at h with _ _ hmanual
    split at h
    · cases h
    rename_i more left hmore
    cases h
    obtain ⟨rfl, hall⟩ := ih hrest hmore
    exact ⟨rfl, forall_mem_cons.mpr ⟨hmanual, hall⟩⟩

/-- Decimals are digits. -/
theorem decimal_bytes {n : Nat} (h : b ∈ decimalText n) : SqlLex.isDigit b = true := by
  obtain ⟨c, hc, rfl⟩ := mem_map.mp h
  have hdigit := Nat.isDigit_of_mem_toDigits (by decide) (by decide) hc
  rw [Char.isDigit, Bool.and_eq_true, decide_eq_true_eq, decide_eq_true_eq] at hdigit
  have hlow : 48 ≤ c.toNat := UInt32.le_iff_toNat_le.mp hdigit.1
  have hhigh : c.toNat ≤ 57 := UInt32.le_iff_toNat_le.mp hdigit.2
  rw [SqlLex.isDigit, Bool.and_eq_true, decide_eq_true_eq, decide_eq_true_eq,
    UInt8.le_iff_toNat_le, UInt8.le_iff_toNat_le]
  show 48 ≤ (UInt8.ofNat c.toNat).toNat ∧ (UInt8.ofNat c.toNat).toNat ≤ 57
  rw [UInt8.toNat_ofNat']
  omega

/-- Decimals belong in words. -/
theorem decimal_wordBytes (n : Nat) : (decimalText n).all isWordByte = true := by
  rw [all_eq_true]
  intro b hb
  rw [isWordByte, decimal_bytes hb, Bool.or_true]

/-- A delimiter is a tag of word bytes between dollar signs. -/
theorem delimiter_tag (suffix : Nat) :
    ∃ tag, delimiterText suffix = [36] ++ 119 :: tag ++ [36] ∧ tag.all isWordByte = true := by
  refine ⟨ascii "reath_migration_" ++ decimalText suffix, ?_, ?_⟩
  · rfl
  · rw [all_append, decimal_wordBytes]
    rfl

variable {suffix : Nat}

/-- The delimiter is not in the tape. -/
theorem selectDelimiter_some {tape delimiter : Bytes} {left : Nat}
    (h : selectDelimiter tape left suffix = some delimiter) :
    (∃ n, delimiter = delimiterText n) ∧ ¬delimiter <:+: tape := by
  fun_induction selectDelimiter tape left suffix with
  | case1 => cases h
  | case2 _ _ _ ih => exact ih h
  | case3 _ suffix hcontains =>
    cases h
    refine ⟨⟨suffix, rfl⟩, ?_⟩
    rintro ⟨before, after, rfl⟩
    rw [containsBytes, Option.not_isSome_iff_eq_none] at hcontains
    refine findSub_none hcontains before.length ?_
    rw [append_assoc, drop_left]
    exact prefix_append _ _

/-- A marker leaves no token. -/
theorem clean_marker (index : Nat) : Clean (markerText index) [] := by
  have hopen : run .blank (ascii "  -- Wreath operation ") = ([], .line) := rfl
  have hdigits : run .line (decimalText (index + 1)) = ([], .line) := by
    refine run_line fun b hb => noBreak_of_plain ?_
    rw [isPlain, all_eq_true.mp (decimal_wordBytes _) b hb]
    rfl
  rw [Clean, markerText, run_append, run_append, hopen, hdigits]
  rfl

/-- Statements with their operations. -/
def Rendered (op : Operation) (sql : Bytes) : Prop :=
  ExpressionFree op ∧ renderOperation op = .ok sql

variable {ops : List Operation} {sqls : List Bytes}

/-- **BODY**: the statements of a block lex as their templates, or some are lost. -/
theorem run_body (h : List.Forall₂ Rendered ops sqls) (index : Nat) :
    ∃ read, run .blank (bodyText index sqls) = (read, .blank)
      ∧ (((∀ op ∈ ops, CalmOptions op) ∧ read = ops.flatMap template)
        ∨ ((¬∀ op ∈ ops, CalmOptions op) ∧ read.length < (ops.flatMap template).length)) := by
  induction h generalizing index with
  | nil => exact ⟨[], rfl, .inl ⟨nofun, rfl⟩⟩
  | @cons op sql ops sqls hop hrest ih =>
    obtain ⟨more, hmore, hcases⟩ := ih (index + 1)
    have hline : run .line (ascii "\n") = ([], .blank) := rfl
    have hblank : Clean (ascii "\n") [] := rfl
    rw [flatMap_cons, forall_mem_cons, bodyText]
    rcases statement_left hop.1 hop.2 with ⟨hcalm, hclean⟩ | ⟨hnot, read, hrun, hlen⟩
    · have hone := ((clean_marker index).append hclean).append hblank
      rw [nil_append, append_nil] at hone
      refine ⟨template op ++ more, ?_, ?_⟩
      · rw [run_append, hone, hmore]
      · rcases hcases with ⟨hall, rfl⟩ | ⟨hnot, hless⟩
        · exact .inl ⟨⟨hcalm, hall⟩, rfl⟩
        · refine .inr ⟨fun h => hnot h.2, ?_⟩
          rw [length_append, length_append]
          omega
    · refine ⟨read ++ more, ?_, .inr ⟨fun h => hnot h.1, ?_⟩⟩
      · rw [run_append, run_append, run_append, clean_marker, hrun, hline, hmore]
        simp only [nil_append, append_nil]
      · rw [length_append, length_append]
        rcases hcases with ⟨-, rfl⟩ | ⟨-, hless⟩ <;> omega

/-- A delimiter that is in no statement is not in the body. -/
theorem body_noDelimiter {delimiter : Bytes} (hdollar : (36 : UInt8) ∈ delimiter)
    (hline : (10 : UInt8) ∉ delimiter) (hblank : (32 : UInt8) ∉ delimiter)
    (h : ∀ sql ∈ sqls, ¬delimiter <:+: sql) (index : Nat) :
    ¬delimiter <:+: bodyText index sqls ++ ascii "END\n" := by
  have hfree : ∀ {text : Bytes}, 36 ∉ text → ¬delimiter <:+: text :=
    fun hno hin => hno (hin.subset hdollar)
  induction sqls generalizing index with
  | nil =>
    show ¬delimiter <:+: ascii "END\n"
    exact hfree (by decide)
  | cons sql sqls ih =>
    obtain ⟨hsql, hsqls⟩ := forall_mem_cons.mp h
    intro hin
    have hsplit : bodyText index (sql :: sqls) ++ ascii "END\n"
        = (ascii "  -- Wreath operation " ++ decimalText (index + 1))
          ++ 10 :: ([32] ++ 32 :: (sql ++ 10 :: (bodyText (index + 1) sqls ++ ascii "END\n"))) := by
      rw [bodyText, markerText]
      simp only [append_assoc]
      rfl
    rw [hsplit] at hin
    rcases infix_sides hline hin with hin | hin
    · refine hfree (fun hmem => ?_) hin
      rcases mem_append.mp hmem with hmem | hmem
      · exact absurd hmem (by decide)
      · exact nomatch decimal_bytes hmem
    rcases infix_sides hblank hin with hin | hin
    · exact hfree (by decide) hin
    rcases infix_sides hline hin with hin | hin
    · exact hsql hin
    · exact ih hsqls (index + 1) hin

/-- What stands between the delimiters of a block. -/
def dollarText (body : Bytes) : Bytes := ascii "\nBEGIN\n" ++ body ++ ascii "END\n"

/-- The whole block: one `DO` with the body as its dollar-quoted text. -/
theorem lex_block {body : Bytes} (h : EndsFirst (delimiterText suffix) (dollarText body)) :
    lex (blockText (delimiterText suffix) body) = some [.word (ascii "DO"),
      .dollar (delimiterText suffix) (dollarText body), punct ';'] := by
  obtain ⟨tag, htag, hwords⟩ := delimiter_tag suffix
  have hne : delimiterText suffix ≠ [] := by
    exact cons_ne_nil _ _
  have hopen : run .blank (delimiterText suffix)
      = ([], .dollarBody (delimiterText suffix) []) := by
    rw [htag]
    exact run_dollar_open (by decide) hwords
  have hdo : run .blank (ascii "DO ") = ([.word (ascii "DO")], .blank) := rfl
  have hend : run .blank (ascii ";") = ([punct ';'], .blank) := rfl
  have hsplit : blockText (delimiterText suffix) body = ascii "DO " ++ delimiterText suffix
        ++ (dollarText body ++ delimiterText suffix) ++ ascii ";" := by
    rw [blockText, dollarText]
    simp only [append_assoc]
  rw [lex, hsplit, run_append, run_append, run_append, hdo, hopen, run_dollar hne h, hend]
  rfl

/-- What a block lexes as is said by its body. -/
theorem lexesAs_block {body : Bytes} (h : EndsFirst (delimiterText suffix) (dollarText body)) :
    LexesAs (blockText (delimiterText suffix) body) ops
      ↔ (lex (dollarText body)).map (List.map Token.truncated)
        = some (begun (ops.flatMap template)) := by
  rw [LexesAs, lex_block h]
  constructor
  · rintro ⟨delimiter, body, hblock, hbody⟩
    simp only [Option.some.injEq, List.cons.injEq, Token.dollar.injEq, true_and, and_true] at hblock
    rw [hblock.2]
    exact hbody
  · intro hbody
    exact ⟨_, _, rfl, hbody⟩

/-- A list of tokens is kept when its names are short. -/
theorem map_truncated_eq {tokens : List Token} :
    tokens.map Token.truncated = tokens ↔ ∀ name, .name name ∈ tokens → name.length ≤ 63 := by
  induction tokens with
  | nil => exact iff_of_true rfl nofun
  | cons token tokens ih =>
    rw [map_cons, List.cons.injEq, ih]
    simp only [mem_cons]
    cases token with
    | name text =>
      rw [Token.truncated, Token.name.injEq, truncated_eq_self]
      constructor
      · rintro ⟨hshort, hall⟩ name (hname | hname)
        · rwa [Token.name.inj hname]
        · exact hall name hname
      · intro h
        exact ⟨h text (.inl rfl), fun name hname => h name (.inr hname)⟩
    | word | string | dollar | symbol => simp [Token.truncated]

/-- What the tokens of a body say about its operations. -/
theorem lexesAs_iff (h : List.Forall₂ Rendered ops sqls) :
    (lex (dollarText (bodyText 0 sqls))).map (List.map Token.truncated)
      = some (begun (ops.flatMap template))
      ↔ ∀ op ∈ ops, CalmOptions op ∧ ShortNames op := by
  obtain ⟨read, hread, hcases⟩ := run_body h 0
  have hbegin : run .blank (ascii "\nBEGIN\n") = ([.word (ascii "BEGIN")], .blank) := rfl
  have hend : run .blank (ascii "END\n") = ([.word (ascii "END")], .blank) := rfl
  have hlex : lex (dollarText (bodyText 0 sqls))
      = some (begun read) := by
    rw [lex, dollarText, run_append, run_append, hbegin, hread, hend]
    show some (_ ++ []) = _
    rw [append_nil]
    rfl
  have hwords : ∀ tokens, (begun tokens).map Token.truncated
      = begun (tokens.map Token.truncated) := fun tokens => map_append
  have hinj : ∀ xs ys, begun xs = begun ys ↔ xs = ys := by simp [begun]
  rw [hlex, Option.map_some, Option.some.injEq, hwords, hinj]
  rcases hcases with ⟨hcalm, rfl⟩ | ⟨hnot, hless⟩
  · rw [map_truncated_eq]
    constructor
    · intro hall op hop
      refine ⟨hcalm op hop, fun name hname => hall name ?_⟩
      exact mem_flatMap.mpr ⟨op, hop, hname⟩
    · intro hall name hname
      obtain ⟨op, hop, hname⟩ := mem_flatMap.mp hname
      exact (hall op hop).2 name hname
  · refine iff_of_false (fun heq => ?_) fun hall => hnot fun op hop =>
      (hall op hop).1
    have hlen := congrArg List.length heq
    rw [length_map] at hlen
    omega

/-- A plan's count is a machine word. -/
theorem parsePlan_length {plan : Bytes} (h : parsePlan plan = .ok ops) : ops.length < 2 ^ 32 := by
  rw [parsePlan] at h
  cases hread : planOperations plan with
  | error e => rw [hread] at h; cases h
  | ok operations =>
    rw [hread] at h
    cases h
    have hlen : (sortOperations operations).length = operations.length := by
      rw [sortOperations, length_map, length_insertionSort, length_zipIdx]
    rw [hlen]
    exact (planOperations_wellFormed hread).1

/-- What the runner makes of a tape. -/
theorem block_eq {plan tape block : Bytes} {allow : Bool} (hplan : parsePlan plan = .ok ops)
    (htape : renderSql plan = .ok tape) (hblock : buildDdlBlock tape allow = .ok block) :
    ∃ suffix sqls, block = blockText (delimiterText suffix) (bodyText 0 sqls)
      ∧ List.Forall₂ (fun op sql => renderOperation op = .ok sql) ops sqls
      ∧ ∀ sql ∈ sqls, ¬delimiterText suffix <:+: sql := by
  rw [renderSql, hplan] at htape
  obtain ⟨statements, hstmts, htape⟩ := bind_ok.mp htape
  cases htape
  have hall := mapM_ok.mp hstmts
  have hcount : statements.length < 2 ^ 32 := by
    rw [← hall.length_eq]
    exact parsePlan_length hplan
  have hload : LittleEndian.loadAt (tapeBytes statements) 8 4 = statements.length := by
    exact LittleEndian.loadAt_store hcount _
  have hdrop : (tapeBytes statements).drop 12 = statements.flatMap statementBytes := rfl
  revert hblock
  fun_cases buildDdlBlock (tapeBytes statements) allow with
  | case8 _ _ _ delimiter hselect body rest hbody =>
    rintro ⟨⟩
    rw [hload, hdrop] at hbody
    obtain ⟨⟨suffix, rfl⟩, hfresh⟩ := selectDelimiter_some hselect
    have hvalid : ∀ s ∈ statements, s.flags < 4 ∧ s.sql.length < 2 ^ 32 :=
      forall₂_right hall fun op s hop =>
        ⟨(statementOf_ok hop).1, (statementOf_ok hop).2.1⟩
    obtain ⟨rfl, hexecutable⟩ := blockBody_ok hvalid hbody
    refine ⟨suffix, statements.map Statement.sql, rfl, ?_, ?_⟩
    · rw [forall₂_map_right_iff]
      have hexec := forall₂_with hall (fun _ _ => trivial) hexecutable
      exact hexec.imp fun op s ⟨_, hflags, hop⟩ => (statementOf_ok hop).2.2 hflags
    · intro sql hsql hin
      obtain ⟨s, hs, rfl⟩ := mem_map.mp hsql
      refine hfresh (hin.trans ?_)
      have hone : s.sql <:+: statementBytes s := (suffix_append _ _).isInfix
      have hmany : statementBytes s <:+: statements.flatMap statementBytes :=
        infix_of_mem_flatten (mem_map_of_mem hs)
      exact hone.trans (hmany.trans (suffix_append _ _).isInfix)
  | _ => rintro ⟨⟩

/-- The body of a block ends at the delimiter of the block. -/
theorem endsFirst_block (hfresh : ∀ sql ∈ sqls, ¬delimiterText suffix <:+: sql) :
    EndsFirst (delimiterText suffix) (dollarText (bodyText 0 sqls)) := by
  obtain ⟨tag, htag, hwords⟩ := delimiter_tag suffix
  have htags : (119 :: tag).all isWordByte = true := hwords
  have hnot : ∀ b : UInt8, isWordByte b = false → b ∉ 119 :: tag := by
    intro b hb hmem
    rw [all_eq_true.mp htags b hmem] at hb
    cases hb
  have hnone : ∀ b : UInt8, b ≠ 36 → isWordByte b = false → b ∉ delimiterText suffix := by
    intro b hdollar hb hmem
    rw [htag, mem_append, mem_append, mem_singleton] at hmem
    rcases hmem with (hmem | hmem) | hmem
    · exact hdollar hmem
    · exact hnot b hb hmem
    · exact hdollar hmem
  have hdollar : (36 : UInt8) ∈ delimiterText suffix := by
    exact mem_cons_self
  have hline := hnone 10 (by decide) (by decide)
  have hwhole : ¬delimiterText suffix <:+: dollarText (bodyText 0 sqls) := by
    intro hin
    have hsplit : dollarText (bodyText 0 sqls) = ascii "\nBEGIN" ++ 10 :: (bodyText 0 sqls ++ ascii "END\n") := by
      rfl
    rw [hsplit] at hin
    rcases infix_sides hline hin with hin | hin
    · exact absurd (hin.subset hdollar) (by decide)
    · exact body_noDelimiter hdollar hline (hnone 32 (by decide) (by decide)) hfresh 0 hin
  rw [htag] at hwhole hline ⊢
  refine endsFirst (hnot 36 (by decide)) hwhole fun hend => ?_
  have hlast : dollarText (bodyText 0 sqls)
      = ascii "\nBEGIN\n" ++ bodyText 0 sqls ++ ascii "END" ++ [10] := by
    rw [dollarText, append_assoc _ (ascii "END")]
    rfl
  rw [hlast, suffix_concat_iff] at hend
  rcases hend with hnil | ⟨init, hinit, -⟩
  · cases hnil
  · refine hline (mem_append_left _ ?_)
    rw [hinit]
    exact mem_append_right _ (mem_singleton_self _)

/-- **NAMES CONTAINED**: for a plan without expressions, the block is one `DO` of the
    templates of its statements, with the names of the plan, exactly when no index option
    opens a comment and no name is cut. -/
theorem names_contained {ops : List Operation} {plan tape block : Bytes}
    {allow : Bool} (hplan : parsePlan plan = .ok ops) (hfree : ∀ op ∈ ops, ExpressionFree op)
    (htape : renderSql plan = .ok tape) (hblock : buildDdlBlock tape allow = .ok block) :
    LexesAs block ops ↔ ∀ op ∈ ops, CalmOptions op ∧ ShortNames op := by
  obtain ⟨suffix, sqls, rfl, hsqls, hfresh⟩ := block_eq hplan htape hblock
  have hrendered : List.Forall₂ Rendered ops sqls :=
    (forall₂_with hsqls hfree (fun _ _ => trivial)).imp fun op sql ⟨hop, _, hsql⟩ => ⟨hop, hsql⟩
  rw [lexesAs_block (endsFirst_block hfresh), lexesAs_iff hrendered]

/-- A table whose name tries to end the statement. -/
def quotingTable : Operation where
  action := .add
  kind := 1
  schema := publicSchema
  table := ⟨ascii "x\"; drop table y; --", by decide⟩
  name := .empty
  before := .empty
  after := .empty

/-- One operation is read back. -/
theorem parse_single (h : op.WellFormed) : parsePlan (planBytes [op]) = .ok [op] := by
  rw [parsePlan, planOperations_planBytes
    (fun o ho => (mem_singleton.mp ho) ▸ h) (show 1 < 2 ^ 32 by decide)]
  rfl

def quotingSql : Bytes := ascii "create table \"public\".\"x\"\"; drop table y; --\" ();"

theorem quoting_contained : ∃ tape block, renderSql (planBytes [quotingTable]) = .ok tape
      ∧ buildDdlBlock tape false = .ok block
      ∧ LexesAs block [quotingTable] := by
  have hplan : parsePlan (planBytes [quotingTable]) = .ok [quotingTable] :=
    parse_single ⟨by decide, by decide⟩
  have hshort : (template quotingTable).map Token.truncated
      = template quotingTable := by decide +kernel
  have htape : renderSql (planBytes [quotingTable]) = .ok (tapeBytes [⟨0, quotingSql⟩]) := by
    rw [renderSql, hplan]
    decide +kernel
  have hblock : buildDdlBlock (tapeBytes [⟨0, quotingSql⟩]) false
      = .ok (blockText (delimiterText 0) (bodyText 0 [quotingSql])) := by
    decide +kernel
  refine ⟨_, _, htape, hblock, ?_⟩
  refine (names_contained hplan ?_ htape hblock).mpr ?_
  · intro op hop
    rw [mem_singleton.mp hop]
    exact ⟨nofun, nofun⟩
  · intro op hop
    rw [mem_singleton.mp hop]
    exact ⟨nofun, map_truncated_eq.mp hshort⟩

/-- An index with an option whose value is `16--`. -/
def commentedIndex : Operation where
  action := .add
  kind := 4
  schema := publicSchema
  table := ⟨ascii "docs", by decide⟩
  name := ⟨ascii "i:body:hnsw", by decide⟩
  before := .empty
  after := ⟨ascii "index:i:body:hnsw\x1f\x1f\x1fm=16--", by decide⟩

def commentedSql : Bytes :=
  ascii "create index \"wreath_9582e4a7700b337c\" on \"public\".\"docs\" "
    ++ ascii "using hnsw (\"body\") with (m = 16--);"

/-- **OPTION COMMENTS**: the statement loses its end to a comment. -/
theorem option_comments : ExpressionFree commentedIndex ∧ renderSql (planBytes [commentedIndex])
          = .ok (tapeBytes [⟨0, commentedSql⟩])
      ∧ buildDdlBlock (tapeBytes [⟨0, commentedSql⟩]) false
          = .ok (blockText (delimiterText 0) (bodyText 0 [commentedSql]))
      ∧ ¬LexesAs (blockText (delimiterText 0) (bodyText 0 [commentedSql])) [commentedIndex] := by
  refine ⟨⟨nofun, fun _ _ => (by decide)⟩, ?_, by decide +kernel, ?_⟩
  · rw [renderSql, parse_single ⟨by decide, by decide⟩]
    decide +kernel
  · rw [lexesAs_block (endsFirst_block (by decide +kernel))]
    decide +kernel

end Migration
