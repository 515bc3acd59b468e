import Wreath.ByteStringProofs
import Wreath.SearchProofs
import Wreath.TableProofs
import Mathlib.Data.Prod.Lex
import Mathlib.Data.List.Sort
import Mathlib.Logic.Function.Basic

/-! # Migration plans — from two schema descriptors to the operations

A WMD1 descriptor lists the objects of a schema with their signatures. Both are sorted
by kind and object id, a 64-bit hash, and walked side by side; what is on one side only
is added or dropped, and what is on both is altered when the 32-bit hashes of the
signatures differ.

The plan is exact when no two signatures of one object share their hash (`plan_exact`),
and silent about a change otherwise (`change_unseen`). -/

namespace Migration

open ByteScan LittleEndian MergeDiff List

/-! ## Descriptors -/

/-- A byte string whose length is kept in 16 bits. -/
structure Short where
  bytes : Bytes
  short : bytes.length < 2 ^ 16
  deriving DecidableEq

theorem Short.ext {x y : Short} (h : x.bytes = y.bytes) : x = y := by
  obtain ⟨xs, _⟩ := x
  obtain ⟨ys, _⟩ := y
  obtain rfl : xs = ys := h
  rfl

def Short.empty : Short := ⟨[], by decide⟩

/-- `WreathNamedMigrationRecord`. -/
structure Record where
  kind : UInt32
  schema : Short
  table : Short
  name : Short
  signature : Short
  deriving DecidableEq

/-- `catalog_hash_part`: one part and a terminator. -/
def catalogHashPart (hash : UInt64) (value : Bytes) : UInt64 :=
  let hash := value.foldl (fun hash b => (hash ^^^ b.toUInt64) * 1099511628211) hash
  (hash ^^^ 0xff) * 1099511628211

/-- `wreath_pg_migration_object_id`. -/
def migrationObjectId (kind : UInt32) (schema table name : Bytes) : UInt64 :=
  let hash := catalogHashPart 14695981039346656037 (store 4 kind.toNat)
  let hash := catalogHashPart hash schema
  let hash := catalogHashPart hash table
  catalogHashPart hash name

/-- `wreath_pg_migration_signature`. -/
def migrationSignature (value : Bytes) : UInt32 :=
  value.foldl (fun hash b => (hash ^^^ b.toUInt32) * 16777619) 2166136261

variable (r : Record)

/-- The id of a table leaves the name out. -/
def Record.objectId : UInt64 :=
  if r.kind = 1 then migrationObjectId 1 r.schema.bytes r.table.bytes []
  else migrationObjectId r.kind r.schema.bytes r.table.bytes r.name.bytes

def Record.signatureHash : UInt32 := migrationSignature r.signature.bytes

/-- `named_record_compare`. -/
def namedRecordCompare (left right : Record) : Ordering :=
  if left.kind ≠ right.kind then
    if left.kind < right.kind then .lt else .gt
  else if left.objectId = right.objectId then .eq
  else if left.objectId < right.objectId then .lt
  else .gt

/-- A field of the payload, by the place of its length in the header. -/
def shortAt (header : Bytes) (place : Nat) (payload : Bytes) : Short where
  bytes := payload.take (loadAt header place 2)
  short := Nat.lt_of_le_of_lt (length_take_le ..) (loadAt_lt ..)

/-- The loop of `open_named_descriptor`, over what is left of the data. -/
def readRecords (label : String) : Nat → Nat → Bytes → Except String (List Record × Bytes)
  | 0, _, rest => .ok ([], rest)
  | count + 1, index, rest =>
    if rest.length < 12 then .error (label ++ " descriptor is truncated")
    else
      let body := rest.drop 12
      let schemaLength := loadAt rest 0 2
      let tableLength := loadAt rest 2 2
      let nameLength := loadAt rest 4 2
      let payload := schemaLength + tableLength + nameLength + loadAt rest 6 2
      if tableLength = 0 ∨ body.length < payload then
        .error ("invalid " ++ label ++ " WMD1 record " ++ toString index
          ++ ": the table name must be nonempty and its " ++ toString payload
          ++ "-byte payload must fit in " ++ toString body.length
          ++ " remaining bytes")
      else
        let record : Record := {
          kind := UInt32.ofNat (loadAt rest 8 4)
          schema := shortAt rest 0 body
          table := shortAt rest 2 (body.drop schemaLength)
          name := shortAt rest 4 (body.drop (schemaLength + tableLength))
          signature := shortAt rest 6 (body.drop (schemaLength + tableLength + nameLength)) }
        match readRecords label count (index + 1) (body.drop payload) with
        | .error e => .error e
        | .ok (records, rest) => .ok (record :: records, rest)

/-- The low 32 bits of `PY_SSIZE_T_MAX / sizeof(*records)`. -/
def maxRecords : Nat := 1227133513

/-- Two neighbours with one id. -/
def hasDuplicates : List Record → Bool
  | a :: b :: rest => namedRecordCompare a b == .eq || hasDuplicates (b :: rest)
  | _ => false

/-- `qsort`: records that compare equal are refused afterwards, so that it does not matter
    how they are sorted. -/
def sortRecords (records : List Record) : List Record :=
  records.insertionSort fun a b => namedRecordCompare a b ≠ .gt

/-- `open_named_descriptor`. -/
def openNamedDescriptor (label : String) (data : Bytes) : Except String (List Record) :=
  if data.length < 12 ∨ data.take 4 ≠ ascii "WMD1" ∨ loadAt data 4 4 ≠ 1 then
    .error ("invalid " ++ label ++ " WMD1 descriptor: expected WMD1 magic, "
      ++ "format 1, and a 12-byte header")
  else if maxRecords < loadAt data 8 4 then
    .error (label ++ " descriptor is too large")
  else
    match readRecords label (loadAt data 8 4) 0 (data.drop 12) with
    | .error e => .error e
    | .ok (records, rest) =>
      if rest ≠ [] then .error (label ++ " descriptor has trailing bytes")
      else
        let records := sortRecords records
        if hasDuplicates records then
          .error (label ++ " descriptor has duplicate objects")
        else .ok records

/-- `_descriptor_record`: how a record is written. -/
def descriptorRecord : Bytes :=
  store 2 r.schema.bytes.length ++ store 2 r.table.bytes.length
    ++ store 2 r.name.bytes.length ++ store 2 r.signature.bytes.length
    ++ store 4 r.kind.toNat
    ++ r.schema.bytes ++ r.table.bytes ++ r.name.bytes ++ r.signature.bytes

/-- What `_registry_descriptor` returns for its records. -/
def descriptorBytes (records : List Record) : Bytes :=
  ascii "WMD1" ++ store 4 1 ++ store 4 records.length ++ records.flatMap descriptorRecord

/-! ## Plans -/

inductive Action where
  | add | drop | alter
  deriving DecidableEq, Repr

def Action.code : Action → Nat
  | .add => 1
  | .drop => 2
  | .alter => 3

structure Operation where
  action : Action
  kind : UInt32
  schema : Short
  table : Short
  name : Short
  before : Short
  after : Short
  deriving DecidableEq

/-- The walk up to the place of one desired record. -/
def walkAt (d : Record) (rest : List Record → List (Finding Record)) :
    List Record → List (Finding Record)
  | [] => .left d :: rest []
  | a :: actual =>
    match namedRecordCompare d a with
    | .lt => .left d :: rest (a :: actual)
    | .gt => .right a :: walkAt d rest actual
    | .eq => .both d a :: rest actual

/-- The loop over both descriptors. -/
def walk : List Record → List Record → List (Finding Record)
  | [], actual => actual.map .right
  | d :: desired, actual => walkAt d (walk desired) actual

def addOf (d : Record) : Operation := ⟨.add, d.kind, d.schema, d.table, d.name, .empty, d.signature⟩

def dropOf (a : Record) : Operation :=
  ⟨.drop, a.kind, a.schema, a.table, a.name, a.signature, .empty⟩

def alterOf (d a : Record) : Operation :=
  ⟨.alter, d.kind, d.schema, d.table, d.name, a.signature, d.signature⟩

/-- What is written for a finding; equal signature hashes are skipped. -/
def operationOf : Finding Record → Option Operation
  | .left d => some (addOf d)
  | .right a => some (dropOf a)
  | .both d a =>
    if d.signatureHash = a.signatureHash then none else some (alterOf d a)

/-- `named_operation_size`. -/
def namedOperationSize (op : Operation) : Nat :=
  20 + op.schema.bytes.length + op.table.bytes.length + op.name.bytes.length
    + op.before.bytes.length + op.after.bytes.length

/-- `write_named_operation`. -/
def operationBytes (op : Operation) : Bytes := store 4 op.action.code ++ store 4 op.kind.toNat
    ++ store 2 op.schema.bytes.length ++ store 2 op.table.bytes.length
    ++ store 2 op.name.bytes.length ++ store 2 op.before.bytes.length
    ++ store 2 op.after.bytes.length ++ store 2 0
    ++ op.schema.bytes ++ op.table.bytes ++ op.name.bytes
    ++ op.before.bytes ++ op.after.bytes

def planBytes (ops : List Operation) : Bytes :=
  ascii "WMP1" ++ store 4 1 ++ store 4 ops.length ++ ops.flatMap operationBytes

def ssizeMax : Nat := 2 ^ 63 - 1

/-- The first pass: the length of the output. -/
def sizePass : Nat → List Operation → Option Nat
  | length, [] => some length
  | length, op :: ops =>
    if ssizeMax < length + namedOperationSize op then none
    else sizePass (length + namedOperationSize op) ops

/-- `_migration_plan_descriptors`. -/
def migrationPlanDescriptors (desired actual : Bytes) : Except String Bytes :=
  match openNamedDescriptor "desired" desired,
      openNamedDescriptor "actual" actual with
  | .error e, _ => .error e
  | _, .error e => .error e
  | .ok desired, .ok actual =>
    let ops := (walk desired actual).filterMap operationOf
    match sizePass 12 ops with
    | none => .error "named migration plan is too large"
    | some _ => .ok (planBytes ops)

/-! ## The order of records -/

/-- What records are sorted by. -/
def Record.key : ℕ ×ₗ ℕ := toLex (r.kind.toNat, r.objectId.toNat)

theorem key_lt {a b : Record} : a.key < b.key
    ↔ a.kind < b.kind ∨ a.kind = b.kind ∧ a.objectId < b.objectId := by
  rw [Record.key, Record.key, Prod.Lex.toLex_lt_toLex, UInt32.lt_iff_toNat_lt,
    UInt64.lt_iff_toNat_lt, ← UInt32.toNat_inj]

theorem key_eq {a b : Record} : a.key = b.key ↔ a.kind = b.kind ∧ a.objectId = b.objectId := by
  rw [Record.key, Record.key, toLex_inj, Prod.mk.injEq, UInt32.toNat_inj, UInt64.toNat_inj]

theorem compare_cases (a b : Record) : (namedRecordCompare a b = .lt ∧ a.key < b.key)
      ∨ (namedRecordCompare a b = .eq ∧ a.key = b.key)
      ∨ (namedRecordCompare a b = .gt ∧ b.key < a.key) := by
  rw [namedRecordCompare, key_lt, key_lt, key_eq]
  by_cases hkind : a.kind = b.kind
  · rw [if_neg (not_not.mpr hkind)]
    by_cases hid : a.objectId = b.objectId
    · rw [if_pos hid]
      exact .inr (.inl ⟨rfl, hkind, hid⟩)
    · rw [if_neg hid]
      by_cases hlt : a.objectId < b.objectId
      · rw [if_pos hlt]
        exact .inl ⟨rfl, .inr ⟨hkind, hlt⟩⟩
      · rw [if_neg hlt]
        have hgt : b.objectId < a.objectId := by
          rw [UInt64.lt_iff_toNat_lt] at hlt ⊢
          have hne := mt UInt64.toNat_inj.mp hid
          omega
        exact .inr (.inr ⟨rfl, .inr ⟨hkind.symm, hgt⟩⟩)
  · rw [if_pos hkind]
    by_cases hlt : a.kind < b.kind
    · rw [if_pos hlt]
      exact .inl ⟨rfl, .inl hlt⟩
    · rw [if_neg hlt]
      have hgt : b.kind < a.kind := by
        rw [UInt32.lt_iff_toNat_lt] at hlt ⊢
        have hne := mt UInt32.toNat_inj.mp hkind
        omega
      exact .inr (.inr ⟨rfl, .inl hgt⟩)

/-- The walk is a merge by the key. -/
theorem walk_eq (desired actual : List Record) :
    walk desired actual = mergeDiff Record.key desired actual := by
  induction desired generalizing actual with
  | nil => rfl
  | cons d desired ih =>
    show walkAt d (walk desired) actual = mergeAt Record.key d (mergeDiff Record.key desired) actual
    rw [funext ih]
    induction actual with
    | nil => rfl
    | cons a actual iha =>
      rw [walkAt, mergeAt]
      rcases compare_cases d a with ⟨hc, hkey⟩ | ⟨hc, hkey⟩ | ⟨hc, hkey⟩
      · rw [hc, if_pos hkey]
      · rw [hc, if_neg hkey.not_lt, if_neg hkey.not_gt]
      · rw [hc, if_neg hkey.not_gt, if_pos hkey, iha]

theorem compare_ne_gt {a b : Record} : namedRecordCompare a b ≠ .gt ↔ a.key ≤ b.key := by
  rcases compare_cases a b with ⟨hc, hkey⟩ | ⟨hc, hkey⟩ | ⟨hc, hkey⟩
  · simp [hc, hkey.le]
  · simp [hc, hkey]
  · simp [hc, hkey]

variable {records : List Record}

/-- A sorted list without neighbours that are equal is in strict order. -/
theorem pairwise_key_lt (hsorted : records.Pairwise fun a b => a.key ≤ b.key)
    (hdup : hasDuplicates records = false) : records.Pairwise fun a b => a.key < b.key := by
  induction records with
  | nil => exact .nil
  | cons a records ih =>
    obtain ⟨hle, hsorted⟩ := pairwise_cons.mp hsorted
    cases records with
    | nil => exact pairwise_singleton ..
    | cons b records =>
      rw [hasDuplicates, Bool.or_eq_false_iff] at hdup
      have hrest := ih hsorted hdup.2
      have hab : a.key < b.key := by
        refine lt_of_le_of_ne (hle b mem_cons_self) fun heq => ?_
        rcases compare_cases a b with ⟨hc, hkey⟩ | ⟨hc, hkey⟩ | ⟨hc, hkey⟩
        · exact hkey.ne heq
        · rw [hc] at hdup
          exact nomatch hdup.1
        · exact hkey.ne' heq
      refine pairwise_cons.mpr ⟨fun c hc => ?_, hrest⟩
      rcases mem_cons.mp hc with rfl | hc
      · exact hab
      · exact hab.trans ((pairwise_cons.mp hrest).1 c hc)

/-- Every record of the count is read. -/
theorem readRecords_length {label : String} {count index : Nat} {data rest : Bytes}
    (h : readRecords label count index data = .ok (records, rest)) : records.length = count := by
  induction count generalizing index data rest records with
  | zero =>
    cases h
    rfl
  | succ count ih =>
    rw [readRecords] at h
    split_ifs at h
    simp only at h
    split_ifs at h
    split at h
    · cases h
    rename_i found left hread
    cases h
    rw [length_cons, ih hread]

/-- What an accepted descriptor is: records in strict order, and not more of them than fit
    in memory. -/
theorem open_records {label : String} {data : Bytes}
    (h : openNamedDescriptor label data = .ok records) :
    (records.Pairwise fun a b => a.key < b.key) ∧ records.length ≤ maxRecords := by
  rw [openNamedDescriptor] at h
  split_ifs at h with _ hcount
  split at h
  · cases h
  rename_i found rest hread
  split at h
  · cases h
  simp only at h
  split at h
  · cases h
  rename_i hdup
  cases h
  constructor
  · refine pairwise_key_lt ?_ (Bool.not_eq_true _ ▸ hdup)
    have htotal : Std.Total fun a b => namedRecordCompare a b ≠ .gt := ⟨fun a b => by
        rw [compare_ne_gt, compare_ne_gt]
        exact le_total _ _⟩
    have htrans : IsTrans Record fun a b => namedRecordCompare a b ≠ .gt :=
      ⟨fun a b c hab hbc => by
        rw [compare_ne_gt] at hab hbc ⊢
        exact hab.trans hbc⟩
    have hsort : (sortRecords found).Pairwise fun a b => namedRecordCompare a b ≠ .gt :=
      pairwise_insertionSort _ found
    exact hsort.imp fun h => compare_ne_gt.mp h
  · rw [sortRecords, length_insertionSort, readRecords_length hread]
    exact Nat.not_lt.mp hcount

/-! ## What is written is what is read -/

theorem Short.load (s : Short) (ys : Bytes) :
    loadAt (store 2 s.bytes.length ++ ys) 0 2 = s.bytes.length :=
  loadAt_store s.short ys

theorem load_word (n : UInt32) (ys : Bytes) : loadAt (store 4 n.toNat ++ ys) 0 4 = n.toNat :=
  loadAt_store n.toNat_lt ys

variable (label : String)

theorem record_read (count index : Nat) (r : Record) (rest : Bytes) (h : r.table.bytes ≠ []) :
    readRecords label (count + 1) index (descriptorRecord r ++ rest)
      = match readRecords label count (index + 1) rest with
        | .error e => .error e
        | .ok (records, rest) => .ok (r :: records, rest) := by
  obtain ⟨kind, schema, table, name, signature⟩ := r
  replace h : table.bytes.length ≠ 0 := mt length_eq_zero_iff.mp h
  generalize hdata : descriptorRecord ⟨kind, schema, table, name, signature⟩ ++ rest = data
  simp only [descriptorRecord, append_assoc] at hdata
  have hloads : loadAt data 0 2 = schema.bytes.length ∧ loadAt data 2 2 = table.bytes.length
      ∧ loadAt data 4 2 = name.bytes.length ∧ loadAt data 6 2 = signature.bytes.length
      ∧ loadAt data 8 4 = kind.toNat := by
    rw [← hdata]
    simp (disch := decide) only [loadAt_skip, Nat.reduceSub, Short.load, load_word, and_self]
  have hbody : data.drop 12 = schema.bytes ++ (table.bytes ++ (name.bytes
      ++ (signature.bytes ++ rest))) := by
    rw [← hdata]
    rfl
  have hlen : 12 ≤ data.length := by
    rw [← hdata]
    simp only [length_append, length_store]
    omega
  rw [readRecords, if_neg (by omega)]
  simp only [shortAt, hloads, hbody]
  rw [if_neg (by simp only [length_append]; omega)]
  simp only [← drop_drop, drop_left, take_left, UInt32.ofNat_toNat]

theorem records_read (h : ∀ r ∈ records, r.table.bytes ≠ []) (index : Nat) :
    readRecords label records.length index (records.flatMap descriptorRecord)
      = .ok (records, []) := by
  induction records generalizing index with
  | nil => rfl
  | cons r records ih =>
    rw [flatMap_cons, length_cons, record_read _ _ _ _ _ (h r mem_cons_self),
      ih fun s hs => h s (mem_cons_of_mem _ hs)]

/-- **ROUND TRIP**: a descriptor that is written for distinct objects is read as its
    records, sorted. -/
theorem open_descriptorBytes (htable : ∀ r ∈ records, r.table.bytes ≠ [])
    (hcount : records.length ≤ maxRecords) (hdup : hasDuplicates (sortRecords records) = false) :
    openNamedDescriptor label (descriptorBytes records) = .ok (sortRecords records) := by
  have hload : loadAt (descriptorBytes records) 8 4 = records.length := by
    refine loadAt_store ?_ _
    rw [maxRecords] at hcount
    omega
  have hdrop : (descriptorBytes records).drop 12 = records.flatMap descriptorRecord := rfl
  have hlen : 12 ≤ (descriptorBytes records).length := by
    simp only [descriptorBytes, length_append, length_store]
    exact Nat.le_add_right 12 _
  rw [openNamedDescriptor, if_neg, hload, if_neg (Nat.not_lt.mpr hcount), hdrop,
    records_read label htable]
  · simp only [ne_eq, not_true_eq_false, if_false, hdup, Bool.false_eq_true]
  · rintro (hshort | hmagic | hformat)
    · omega
    · exact hmagic rfl
    · exact hformat (loadAt_store (by decide) _)

/-! ## The bytes of a plan -/

theorem Action.code_inj {a b : Action} (h : a.code = b.code) : a = b := by
  revert h
  cases a <;> cases b <;> decide

theorem Action.code_lt (a : Action) : a.code < 256 ^ 4 := by
  cases a <;> decide

/-- An operation is known from its bytes, and so is where it ends. -/
theorem operationBytes_append_inj {x y : Operation} {xs ys : Bytes}
    (h : operationBytes x ++ xs = operationBytes y ++ ys) : x = y ∧ xs = ys := by
  obtain ⟨xaction, xkind, xschema, xtable, xname, xbefore, xafter⟩ := x
  obtain ⟨yaction, ykind, yschema, ytable, yname, ybefore, yafter⟩ := y
  simp only [operationBytes, append_assoc] at h
  obtain ⟨haction, h⟩ := store_append_inj xaction.code_lt yaction.code_lt h
  obtain ⟨hkind, h⟩ := store_append_inj xkind.toNat_lt ykind.toNat_lt h
  obtain ⟨hschema, h⟩ := store_append_inj xschema.short yschema.short h
  obtain ⟨htable, h⟩ := store_append_inj xtable.short ytable.short h
  obtain ⟨hname, h⟩ := store_append_inj xname.short yname.short h
  obtain ⟨hbef, h⟩ := store_append_inj xbefore.short ybefore.short h
  obtain ⟨hafter, h⟩ := store_append_inj xafter.short yafter.short h
  obtain ⟨-, h⟩ := store_append_inj (by decide) (by decide) h
  -- the lengths agree, so that the payload splits at the same places
  obtain ⟨eschema, h⟩ := append_inj h hschema
  obtain ⟨etable, h⟩ := append_inj h htable
  obtain ⟨ename, h⟩ := append_inj h hname
  obtain ⟨ebefore, h⟩ := append_inj h hbef
  obtain ⟨eafter, h⟩ := append_inj h hafter
  refine ⟨?_, h⟩
  rw [Action.code_inj haction, UInt32.toNat_inj.mp hkind, Short.ext eschema,
    Short.ext etable, Short.ext ename, Short.ext ebefore, Short.ext eafter]

/-- A plan is known from its bytes. -/
theorem planBytes_inj {xs ys : List Operation} (hx : xs.length < 2 ^ 32) (hy : ys.length < 2 ^ 32)
    (h : planBytes xs = planBytes ys) : xs = ys := by
  simp only [planBytes, append_assoc, append_cancel_left_eq] at h
  obtain ⟨hlen, hflat⟩ := store_append_inj hx hy h
  clear hx hy h
  induction xs generalizing ys with
  | nil => exact (length_eq_zero_iff.mp hlen.symm).symm
  | cons x xs ih =>
    cases ys with
    | nil => cases hlen
    | cons y ys =>
      obtain ⟨rfl, hrest⟩ := operationBytes_append_inj hflat
      rw [ih (Nat.succ.inj hlen) hrest]

variable (op : Operation) (desired actual : List Record)

theorem length_operationBytes : (operationBytes op).length = namedOperationSize op := by
  simp only [operationBytes, length_append, length_store, namedOperationSize]

variable {ops : List Operation}

/-- **TWO PASSES**: the first pass counts what the second writes. -/
theorem sizePass_eq (h : (planBytes ops).length ≤ ssizeMax) :
    sizePass 12 ops = some (planBytes ops).length := by
  have hgo : ∀ (ops : List Operation) (length : Nat),
      length + (ops.flatMap operationBytes).length ≤ ssizeMax →
      sizePass length ops = some (length + (ops.flatMap operationBytes).length) := by
    intro ops
    induction ops with
    | nil => exact fun _ _ => rfl
    | cons op ops ih =>
      intro length h
      rw [flatMap_cons, length_append, length_operationBytes, ← Nat.add_assoc] at h ⊢
      rw [sizePass, if_neg (by omega), ih _ h]
  have hlen : (planBytes ops).length = 12 + (ops.flatMap operationBytes).length := by
    rw [planBytes, length_append, length_append, length_append, length_store, length_store]
    rfl
  rw [hlen] at h ⊢
  exact hgo ops 12 h

/-- What 16-bit lengths and the count of the records allow fits. -/
theorem planBytes_fits (h : ops.length ≤ 2 * maxRecords) : (planBytes ops).length ≤ ssizeMax := by
  have hflat : (ops.flatMap operationBytes).length ≤ ops.length * 327700 := by
    clear h
    induction ops with
    | nil => exact Nat.zero_le _
    | cons op ops ih =>
      rw [flatMap_cons, length_append, length_operationBytes, namedOperationSize, length_cons]
      have := op.schema.short
      have := op.table.short
      have := op.name.short
      have := op.before.short
      have := op.after.short
      omega
  rw [planBytes, length_append, length_append, length_append, length_store, length_store]
  have hmagic : (ascii "WMP1").length = 4 := rfl
  rw [maxRecords] at h
  rw [hmagic, ssizeMax]
  omega

/-! ## What a plan is for -/

/-- What a record is about. A table's record has no name of its own. -/
structure Object where
  kind : UInt32
  schema : Short
  table : Short
  name : Short
  deriving DecidableEq

def objectOf (kind : UInt32) (schema table name : Short) : Object :=
  ⟨kind, schema, table, if kind = 1 then .empty else name⟩

def Record.object (r : Record) : Object := objectOf r.kind r.schema r.table r.name

def Operation.object : Object := objectOf op.kind op.schema op.table op.name

/-- A schema: its objects with their signatures. -/
abbrev Schema := Set (Object × Short)

def schemaOf (records : List Record) : Schema := {p | ∃ r ∈ records, (r.object, r.signature) = p}

/-- What an operation takes out of a schema. -/
def Operation.takes : Schema :=
  match op.action with
  | .add => ∅
  | .drop | .alter => {(op.object, op.before)}

/-- What an operation puts into a schema. -/
def Operation.gives : Schema :=
  match op.action with
  | .add | .alter => {(op.object, op.after)}
  | .drop => ∅

def applyAll (ops : List Operation) (schema : Schema) : Schema :=
  ops.foldl (fun schema op => schema \ op.takes ∪ op.gives) schema

/-- What is to be done about an object of the desired schema. -/
def expectedOf (actual : List Record) (d : Record) : Option Operation :=
  match actual.find? fun a => a.object = d.object with
  | none => some (addOf d)
  | some a => if d.signature = a.signature then none else some (alterOf d a)

/-- The objects of the actual schema that are not desired. -/
def undesired : List Record := actual.filter fun a => desired.all fun d => d.object ≠ a.object

/-- **THE PLAN THAT IS MEANT**: an add for every object only in the desired schema, an alter for
    every object whose signature differs, and a drop for every object only in the actual one. -/
def expected : List Operation :=
  desired.filterMap (expectedOf actual) ++ (undesired desired actual).map dropOf

/-- Objects that differ have ids that differ. -/
def DistinctIds (records : List Record) : Prop :=
  ∀ r ∈ records, ∀ s ∈ records, r.kind = s.kind → r.objectId = s.objectId → r.object = s.object

/-- Signatures of one object that differ have hashes that differ. -/
def DistinctHashes : Prop :=
  ∀ d ∈ desired, ∀ a ∈ actual, d.object = a.object →
    d.signatureHash = a.signatureHash → d.signature = a.signature

/-! ### Applying operations -/

variable {p : Object × Short}

theorem takes_object {op : Operation} (h : p ∈ op.takes) : p.1 = op.object := by
  rw [Operation.takes] at h
  split at h
  · exact h.elim
  · rw [Set.mem_singleton_iff.mp h]
  · rw [Set.mem_singleton_iff.mp h]

theorem gives_object {op : Operation} (h : p ∈ op.gives) : p.1 = op.object := by
  rw [Operation.gives] at h
  split at h
  · rw [Set.mem_singleton_iff.mp h]
  · rw [Set.mem_singleton_iff.mp h]
  · exact h.elim

/-- Operations on different objects do not see each other. -/
theorem mem_applyAll {schema : Schema} (hdistinct : ops.Pairwise fun x y => x.object ≠ y.object) :
    p ∈ applyAll ops schema ↔ (∃ op ∈ ops, p ∈ op.gives)
        ∨ (p ∈ schema ∧ ∀ op ∈ ops, p ∉ op.takes) := by
  induction ops generalizing schema with
  | nil => simp [applyAll]
  | cons op ops ih =>
    obtain ⟨hop, hrest⟩ := pairwise_cons.mp hdistinct
    have hlater : p ∈ op.gives → ∀ later ∈ ops, p ∉ later.takes := by
      intro hgives later hmem htakes
      exact hop later hmem ((gives_object hgives).symm.trans (takes_object htakes))
    show p ∈ applyAll ops (schema \ op.takes ∪ op.gives) ↔ _
    rw [ih hrest, Set.mem_union, Set.mem_sdiff]
    simp only [mem_cons, exists_eq_or_imp, forall_eq_or_imp]
    constructor
    · rintro (hgives | ⟨⟨hin, hkept⟩ | hgives, hlast⟩)
      · exact .inl (.inr hgives)
      · exact .inr ⟨hin, hkept, hlast⟩
      · exact .inl (.inl hgives)
    · rintro ((hgives | hgives) | ⟨hin, hkept, hlast⟩)
      · exact .inr ⟨.inr hgives, hlater hgives⟩
      · exact .inl hgives
      · exact .inr ⟨.inl ⟨hin, hkept⟩, hlast⟩

/-! ### The plan that is meant does what it is for -/

theorem objectId_of_object {r s : Record} (h : r.object = s.object) :
    r.kind = s.kind ∧ r.objectId = s.objectId := by
  obtain ⟨hkind, hschema, htable, hname⟩ := Object.mk.inj h
  refine ⟨hkind, ?_⟩
  rw [Record.objectId, Record.objectId, ← hkind, ← hschema, ← htable]
  by_cases htop : r.kind = 1
  · rw [if_pos htop, if_pos htop]
  · rw [← hkind, if_neg htop, if_neg htop] at hname
    rw [if_neg htop, if_neg htop, hname]

theorem key_of_object {r s : Record} (h : r.object = s.object) : r.key = s.key :=
  key_eq.mpr (objectId_of_object h)

section Sorted

variable {desired actual : List Record}
  (hdesired : desired.Pairwise fun a b => a.key < b.key)
  (hactual : actual.Pairwise fun a b => a.key < b.key)

theorem pairwise_object (h : records.Pairwise fun a b => a.key < b.key) :
    records.Pairwise fun a b => a.object ≠ b.object :=
  h.imp fun hlt heq => hlt.ne (key_of_object heq)

/-- Within a descriptor a record is known by its object. -/
theorem eq_of_object (h : records.Pairwise fun a b => a.key < b.key) {r s : Record}
    (hr : r ∈ records) (hs : s ∈ records) (heq : r.object = s.object) : r = s := by
  have hnd : (records.map Record.object).Nodup := pairwise_map.mpr (pairwise_object h)
  exact inj_on_of_nodup_map hnd hr hs heq

variable {d a : Record}

theorem found_object (h : (actual.find? fun a => a.object = d.object) = some a) :
    a ∈ actual ∧ d.object = a.object := by
  have heq := List.find?_some h
  exact ⟨mem_of_find?_eq_some h, (of_decide_eq_true heq).symm⟩

include hactual in
theorem find_object (ha : a ∈ actual) (heq : d.object = a.object) :
    (actual.find? fun a => a.object = d.object) = some a := by
  rw [heq]
  exact SlotMap.find_key (pairwise_map.mpr (pairwise_object hactual)) ha

variable {op : Operation}

theorem expectedOf_cases (h : expectedOf actual d = some op) :
    (op = addOf d ∧ ∀ a ∈ actual, d.object ≠ a.object)
      ∨ ∃ a ∈ actual, d.object = a.object ∧ d.signature ≠ a.signature ∧ op = alterOf d a := by
  rw [expectedOf] at h
  split at h
  · rename_i hfind
    refine .inl ⟨(Option.some.inj h).symm, fun a ha heq => ?_⟩
    exact List.find?_eq_none.mp hfind a ha (decide_eq_true heq.symm)
  · rename_i a hfind
    split at h
    · cases h
    · rename_i hne
      obtain ⟨ha, heq⟩ := found_object hfind
      exact .inr ⟨a, ha, heq, hne, (Option.some.inj h).symm⟩

theorem expectedOf_object (h : expectedOf actual d = some op) : op.object = d.object := by
  rcases expectedOf_cases h with ⟨rfl, -⟩ | ⟨a, -, -, -, rfl⟩ <;> rfl

include hactual in
/-- An object on both sides is altered exactly when its signature differs. -/
theorem expectedOf_partner (ha : a ∈ actual) (heq : d.object = a.object) :
    expectedOf actual d = if d.signature = a.signature then none else some (alterOf d a) := by
  rw [expectedOf, find_object hactual ha heq]

theorem mem_undesired : a ∈ undesired desired actual
    ↔ a ∈ actual ∧ ∀ d ∈ desired, d.object ≠ a.object := by
  rw [undesired, mem_filter, all_eq_true]
  simp only [decide_eq_true_eq]

theorem mem_expected : op ∈ expected desired actual
    ↔ (∃ d ∈ desired, expectedOf actual d = some op)
      ∨ ∃ a ∈ undesired desired actual, dropOf a = op := by
  rw [expected, mem_append, mem_filterMap, mem_map]

include hdesired hactual in
/-- The plan that is meant has one operation for an object. -/
theorem expected_pairwise : (expected desired actual).Pairwise fun x y => x.object ≠ y.object := by
  rw [expected, pairwise_append]
  refine ⟨?_, ?_, ?_⟩
  · rw [pairwise_filterMap]
    refine (pairwise_object hdesired).imp fun {d e} hne x hx y hy heq => ?_
    exact hne (by
      rw [← expectedOf_object hx, heq, expectedOf_object hy])
  · rw [pairwise_map]
    exact (pairwise_object hactual).filter _
  · intro x hx y hy heq
    obtain ⟨d, hd, hx⟩ := mem_filterMap.mp hx
    obtain ⟨a, ha, rfl⟩ := mem_map.mp hy
    exact (mem_undesired.mp ha).2 d hd ((expectedOf_object hx).symm.trans heq)

include hdesired hactual in
/-- **APPLIED**: the plan that is meant turns the actual schema into the desired one. -/
theorem applyAll_expected (hperm : ops.Perm (expected desired actual)) :
    applyAll ops (schemaOf actual) = schemaOf desired := by
  have hpairwise : ops.Pairwise fun x y => x.object ≠ y.object :=
    (hperm.pairwise_iff fun h => Ne.symm h).mpr (expected_pairwise hdesired hactual)
  ext p
  rw [mem_applyAll hpairwise]
  simp only [hperm.mem_iff, mem_expected]
  constructor
  · rintro (⟨op, hop | ⟨a, -, rfl⟩, hgives⟩ | ⟨⟨a, ha, rfl⟩, hkept⟩)
    · obtain ⟨d, hd, hop⟩ := hop
      refine ⟨d, hd, ?_⟩
      rcases expectedOf_cases hop with ⟨rfl, -⟩ | ⟨a, -, -, -, rfl⟩
      · exact (Set.mem_singleton_iff.mp hgives).symm
      · exact (Set.mem_singleton_iff.mp hgives).symm
    · exact hgives.elim
    -- nothing took the record, so that its object is desired as it is
    · by_cases hpartner : ∃ d ∈ desired, d.object = a.object
      · obtain ⟨d, hd, heq⟩ := hpartner
        refine ⟨d, hd, ?_⟩
        by_cases hsame : d.signature = a.signature
        · rw [heq, hsame]
        · have halter := expectedOf_partner hactual ha heq
          rw [if_neg hsame] at halter
          refine absurd ?_ (hkept (alterOf d a) (.inl ⟨d, hd, halter⟩))
          exact Set.mem_singleton_iff.mpr (by rw [← heq]; rfl)
      · have hdrop : a ∈ undesired desired actual :=
          mem_undesired.mpr ⟨ha, fun d hd heq => hpartner ⟨d, hd, heq⟩⟩
        exact absurd (Set.mem_singleton (a.object, a.signature))
          (hkept (dropOf a) (.inr ⟨a, hdrop, rfl⟩))
  · rintro ⟨d, hd, rfl⟩
    cases hop : expectedOf actual d with
    | some op =>
      refine .inl ⟨op, .inl ⟨d, hd, hop⟩, ?_⟩
      rcases expectedOf_cases hop with ⟨rfl, -⟩ | ⟨a, -, -, -, rfl⟩
      · exact Set.mem_singleton _
      · exact Set.mem_singleton _
    | none =>
      rw [expectedOf] at hop
      split at hop
      · cases hop
      rename_i a hfind
      obtain ⟨ha, heq⟩ := found_object hfind
      split at hop
      case isFalse => cases hop
      rename_i hsame
      refine .inr ⟨⟨a, ha, by rw [heq, hsame]⟩, ?_⟩
      rintro op (⟨e, he, hop'⟩ | ⟨b, hb, rfl⟩) htakes
      · have hobj := (takes_object htakes).trans (expectedOf_object hop')
        obtain rfl := eq_of_object hdesired hd he hobj
        have hnone := expectedOf_partner hactual ha heq
        rw [if_pos hsame, hop'] at hnone
        cases hnone
      · exact (mem_undesired.mp hb).2 d hd (takes_object htakes)

end Sorted

/-! ### The plan that is made -/

section Planned

variable {desired actual : List Record}
  (hdesired : desired.Pairwise fun a b => a.key < b.key)
  (hactual : actual.Pairwise fun a b => a.key < b.key)
  (hids : DistinctIds (desired ++ actual))

/-- The operations of `_migration_plan_descriptors`. -/
def planned (desired actual : List Record) : List Operation :=
  (walk desired actual).filterMap operationOf

/-- What is done about an object of the desired schema: signatures are compared by their hashes. -/
def plannedOf (actual : List Record) (d : Record) : Option Operation :=
  match actual.find? fun a => a.object = d.object with
  | none => some (addOf d)
  | some a =>
    if d.signatureHash = a.signatureHash then none else some (alterOf d a)

include hids in
theorem key_eq_object {r s : Record} (hr : r ∈ desired ++ actual)
    (hs : s ∈ desired ++ actual) : r.key = s.key ↔ r.object = s.object := by
  constructor
  · intro h
    obtain ⟨hkind, hid⟩ := key_eq.mp h
    exact hids r hr s hs hkind hid
  · exact key_of_object

include hids in
theorem operationOf_findingOf {d : Record} (hd : d ∈ desired) :
    operationOf (findingOf Record.key actual d) = plannedOf actual d := by
  have hfind : (actual.find? fun a => a.key = d.key)
      = actual.find? fun a => a.object = d.object := by
    rw [← List.head?_filter, ← List.head?_filter]
    refine congrArg List.head? (filter_congr fun a ha => ?_)
    exact decide_eq_decide.mpr (key_eq_object hids (mem_append_right _ ha) (mem_append_left _ hd))
  rw [findingOf, hfind, plannedOf]
  cases actual.find? fun a => a.object = d.object <;> rfl

include hids in
theorem unmatched_eq : unmatched Record.key desired actual = undesired desired actual := by
  refine filter_congr fun a ha => ?_
  refine Bool.eq_iff_iff.mpr ?_
  simp only [all_eq_true, decide_eq_true_eq]
  refine forall₂_congr fun d hd => not_congr ?_
  exact key_eq_object hids (mem_append_left _ hd) (mem_append_right _ ha)

include hdesired hactual hids in
/-- The walk over both descriptors makes the operations object by object. -/
theorem planned_perm : (planned desired actual).Perm (desired.filterMap (plannedOf actual)
      ++ (undesired desired actual).map dropOf) := by
  have hmerge := (mergeDiff_perm hdesired hactual).filterMap operationOf
  rw [← walk_eq, filterMap_append, filterMap_map, filterMap_map, unmatched_eq hids] at hmerge
  have hleft : desired.filterMap (operationOf ∘ findingOf Record.key actual)
      = desired.filterMap (plannedOf actual) :=
    filterMap_congr fun d hd => operationOf_findingOf hids hd
  have hright : (undesired desired actual).filterMap (operationOf ∘ .right)
      = (undesired desired actual).map dropOf :=
    congrFun filterMap_eq_map _
  rwa [hleft, hright] at hmerge

/-- Both plans have at most one operation for a record. -/
theorem length_le {f : Record → Option Operation} :
    (desired.filterMap f ++ (undesired desired actual).map dropOf).length
      ≤ desired.length + actual.length := by
  rw [length_append, length_map]
  have hleft := length_filterMap_le f desired
  have hright : (undesired desired actual).length ≤ actual.length := length_filter_le ..
  omega

include hdesired hactual in
/-- A change whose hashes agree is not in the plan that is made, and it is in the one that
    is meant. -/
theorem hashes_of_perm (hperm : (planned desired actual).Perm (expected desired actual))
    (hids : DistinctIds (desired ++ actual)) : DistinctHashes desired actual := by
  intro d hd a ha hobj hhash
  by_contra hne
  have halter : alterOf d a ∈ expected desired actual := by
    refine mem_expected.mpr (.inl ⟨d, hd, ?_⟩)
    rw [expectedOf_partner hactual ha hobj, if_neg hne]
  rw [← hperm.mem_iff, (planned_perm hdesired hactual hids).mem_iff,
    mem_append, mem_filterMap, mem_map] at halter
  rcases halter with ⟨e, he, hmade⟩ | ⟨b, -, hmade⟩
  · have hof : e.object = d.object := by
      rw [plannedOf] at hmade
      split at hmade
      · exact congrArg Operation.object (Option.some.inj hmade)
      · split at hmade
        · cases hmade
        · exact congrArg Operation.object (Option.some.inj hmade)
    obtain rfl := eq_of_object hdesired he hd hof
    rw [plannedOf, find_object hactual ha hobj] at hmade
    simp only [if_pos hhash] at hmade
    cases hmade
  · exact nomatch congrArg Operation.action hmade

theorem plannedOf_eq_expectedOf (hhashes : DistinctHashes desired actual)
    {d : Record} (hd : d ∈ desired) : plannedOf actual d = expectedOf actual d := by
  rw [plannedOf, expectedOf]
  cases hfind : actual.find? fun a => a.object = d.object with
  | none => rfl
  | some a =>
    obtain ⟨ha, hobj⟩ := found_object hfind
    have hsame : d.signatureHash = a.signatureHash ↔ d.signature = a.signature := by
      constructor
      · exact hhashes d hd a ha hobj
      · intro h
        rw [Record.signatureHash, Record.signatureHash, h]
    simp only [hsame]

include hdesired hactual hids in
theorem planned_perm_expected (hhashes : DistinctHashes desired actual) :
    (planned desired actual).Perm (expected desired actual) := by
  have hplanned := planned_perm hdesired hactual hids
  rwa [filterMap_congr fun d hd => plannedOf_eq_expectedOf hhashes hd] at hplanned

end Planned

section Plans

variable {desired actual : Bytes} {ds as : List Record}

/-- Two accepted descriptors have a plan. -/
theorem plan_eq (hdesired : openNamedDescriptor "desired" desired = .ok ds)
    (hactual : openNamedDescriptor "actual" actual = .ok as) (hids : DistinctIds (ds ++ as)) :
    migrationPlanDescriptors desired actual = .ok (planBytes (planned ds as))
      ∧ (planned ds as).length ≤ 2 * maxRecords := by
  obtain ⟨hds, hdcount⟩ := open_records hdesired
  obtain ⟨has, hacount⟩ := open_records hactual
  have hcount : (planned ds as).length ≤ 2 * maxRecords := by
    rw [(planned_perm hds has hids).length_eq]
    refine Nat.le_trans length_le ?_
    omega
  refine ⟨?_, hcount⟩
  rw [migrationPlanDescriptors, hdesired, hactual]
  show (match sizePass 12 (planned ds as) with
    | none => _
    | some _ => _) = _
  rw [sizePass_eq (planBytes_fits hcount)]
  rfl

/-- **PLAN EXACT**: the operations of the plan are the ones that are meant, and they turn the actual
    schema into the desired one, exactly when no change of a signature is lost in its hash. -/
theorem plan_exact (hdesired : openNamedDescriptor "desired" desired = .ok ds)
    (hactual : openNamedDescriptor "actual" actual = .ok as) (hids : DistinctIds (ds ++ as)) :
    (∃ ops, migrationPlanDescriptors desired actual = .ok (planBytes ops)
        ∧ ops.Perm (expected ds as)
        ∧ applyAll ops (schemaOf as) = schemaOf ds
        ∧ (ops = [] → schemaOf as = schemaOf ds))
      ↔ DistinctHashes ds as := by
  obtain ⟨hds, hdcount⟩ := open_records hdesired
  obtain ⟨has, hacount⟩ := open_records hactual
  obtain ⟨hplan, hcount⟩ := plan_eq hdesired hactual hids
  constructor
  · rintro ⟨ops, hops, hperm, -, -⟩
    have hmeant : ops.length ≤ ds.length + as.length := by
      rw [hperm.length_eq]
      exact length_le
    rw [hplan] at hops
    have hsame : planned ds as = ops := by
      refine planBytes_inj ?_ ?_ (Except.ok.inj hops)
      · rw [maxRecords] at hcount
        omega
      · rw [maxRecords] at hdcount hacount
        omega
    exact hashes_of_perm hds has (hsame ▸ hperm) hids
  · intro hhashes
    have hperm := planned_perm_expected hds has hids hhashes
    have happly := applyAll_expected hds has hperm
    refine ⟨planned ds as, hplan, hperm, happly, fun hempty => ?_⟩
    rw [hempty] at happly
    exact happly

def publicSchema : Short := ⟨ascii "public", by decide⟩

def accountTable : Short := ⟨ascii "account", by decide⟩

/-- A column of a table that is given by its signature. -/
def columnRecord (signature : Short) : Record where
  kind := 2
  schema := publicSchema
  table := accountTable
  name := ⟨ascii "limit", by decide⟩
  signature := signature

/-- Columns of integers that are not null, with three defaults. -/
def noLimit : Record := columnRecord ⟨ascii "column\x1f23\x1f\x1f1\x1f\x1f\x1f0", by decide⟩

def lowLimit : Record := columnRecord ⟨ascii "column\x1f23\x1f\x1f1\x1f\x1f\x1f36867", by decide⟩

def highLimit : Record := columnRecord ⟨ascii "column\x1f23\x1f\x1f1\x1f\x1f\x1f140500", by decide⟩

theorem column_opens (r : Record) (h : r.table.bytes ≠ []) :
    openNamedDescriptor label (descriptorBytes [r]) = .ok [r] :=
  open_descriptorBytes label (fun s hs => by rwa [mem_singleton.mp hs])
    (show 1 ≤ maxRecords by decide) rfl

theorem distinctIds_columns (x y : Short) : DistinctIds ([columnRecord x] ++ [columnRecord y]) := by
  intro r hr s hs _ _
  have hobj : ∀ t ∈ [columnRecord x] ++ [columnRecord y],
      t.object = (columnRecord x).object := by
    rintro t (_ | ⟨_, _ | ⟨_, ht⟩⟩)
    · rfl
    · rfl
    · cases ht
  rw [hobj r hr, hobj s hs]

/-- A changed default is in the plan. -/
theorem limit_lowered : ∃ ops, migrationPlanDescriptors (descriptorBytes [lowLimit])
          (descriptorBytes [noLimit]) = .ok (planBytes ops)
      ∧ ops.Perm (expected [lowLimit] [noLimit])
      ∧ applyAll ops (schemaOf [noLimit]) = schemaOf [lowLimit]
      ∧ (ops = [] → schemaOf [noLimit] = schemaOf [lowLimit]) := by
  refine (plan_exact (column_opens _ lowLimit (by decide))
    (column_opens _ noLimit (by decide)) (distinctIds_columns _ _)).mpr ?_
  intro d hd a ha _ hhash
  rw [mem_singleton.mp hd, mem_singleton.mp ha] at hhash
  exact absurd hhash (by decide)

/-- **CHANGE UNSEEN**: the plan from one default to another is empty. -/
theorem change_unseen : openNamedDescriptor "desired" (descriptorBytes [lowLimit]) = .ok [lowLimit]
      ∧ openNamedDescriptor "actual" (descriptorBytes [highLimit]) = .ok [highLimit]
      ∧ DistinctIds ([lowLimit] ++ [highLimit])
      ∧ schemaOf [highLimit] ≠ schemaOf [lowLimit]
      ∧ migrationPlanDescriptors (descriptorBytes [lowLimit])
          (descriptorBytes [highLimit]) = .ok (planBytes []) := by
  refine ⟨column_opens _ _ (by decide), column_opens _ _ (by decide),
    distinctIds_columns _ _, ?_, rfl⟩
  intro hsame
  have hlow : (lowLimit.object, lowLimit.signature) ∈ schemaOf [highLimit] := by
    rw [hsame]
    exact ⟨lowLimit, mem_singleton_self _, rfl⟩
  obtain ⟨r, hr, heq⟩ := hlow
  rw [mem_singleton.mp hr] at heq
  exact absurd (Prod.mk.inj heq).2 (by decide)

end Plans

end Migration
