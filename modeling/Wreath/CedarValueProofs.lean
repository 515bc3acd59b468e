import Mathlib.Algebra.Order.Ring.Int

/-! # Cedar values — equality, sets, and the reading of Python values

The evaluator's value model: booleans, 64-bit integers, strings, entity uids, sets and
records. A set is a list once it was converted, and a frozenset where the caller's own
value is read; equality of sets goes through hashable keys and does not tell the two
apart (`sameKey_thaw`).

`thaw` is what conversion does to a value the evaluator could have read as it was. -/

namespace Cedar

open List

/-! ## Values -/

/-- An entity, by type and id. -/
structure Uid where
  type : String
  id : String
  deriving DecidableEq, Repr

/-- A Cedar long. -/
structure I64 where
  val : Int
  lower : -2 ^ 63 ≤ val
  upper : val < 2 ^ 63
  deriving DecidableEq, Repr

/-- The `__builtin_*_overflow` check. -/
def I64.ofInt (n : Int) : Option I64 :=
  if h : -2 ^ 63 ≤ n ∧ n < 2 ^ 63 then some ⟨n, h.1, h.2⟩ else none

/-- A Cedar value as the evaluator holds it. -/
inductive Value where
  | bool (b : Bool)
  | long (n : I64)
  | string (s : String)
  | entity (uid : Uid)
  | list (items : List Value)
  /-- a caller's frozenset, in iteration order -/
  | frozen (items : List Value)
  | record (fields : List (String × Value))

/-- `cedar_type_name`. -/
def cedarTypeName : Value → String
  | .bool _ => "bool"
  | .long _ => "long"
  | .string _ => "string"
  | .entity _ => "entity"
  | .list _ | .frozen _ => "set"
  | .record _ => "record"

/-- The members of a set, in either form. -/
def Value.members : Value → Option (List Value)
  | .list items | .frozen items => some items
  | _ => none

/-- `dict.get`. -/
def lookup {α : Type} (fields : List (String × α)) (name : String) : Option α :=
  (fields.find? fun f => f.1 == name).map Prod.snd

/-- `dict[name] = value`. -/
def setItem {α : Type} : List (String × α) → String → α → List (String × α)
  | [], name, value => [(name, value)]
  | f :: fields, name, value =>
    if f.1 == name then (name, value) :: fields
    else f :: setItem fields name value

/-! ## Keys

`cedar_dedupe_key` builds a tagged tuple over frozensets of keys; what is modelled is
when two of these are equal. -/

mutual
/-- Two values have one key. -/
def sameKey (v w : Value) : Bool :=
  match v with
  | .bool a => match w with | .bool b => a == b | _ => false
  | .long a => match w with | .long b => a == b | _ => false
  | .string a => match w with | .string b => a == b | _ => false
  | .entity a => match w with | .entity b => a == b | _ => false
  | .list xs | .frozen xs =>
    match w.members with
    | some ys => eachIn xs ys && ys.all fun y => someSame xs y
    | none => false
  | .record xs =>
    match w with
    | .record ys => eachField xs ys && ys.all fun y => someField xs y
    | _ => false
termination_by structural v

/-- Every member of the first is among the second. -/
def eachIn (xs ys : List Value) : Bool :=
  match xs with
  | [] => true
  | x :: xs => ys.any (fun y => sameKey x y) && eachIn xs ys
termination_by structural xs

/-- The value is among the members. -/
def someSame (xs : List Value) (y : Value) : Bool :=
  match xs with
  | [] => false
  | x :: xs => sameKey x y || someSame xs y
termination_by structural xs

/-- Every field of the first is among the second. -/
def eachField (xs ys : List (String × Value)) : Bool :=
  match xs with
  | [] => true
  | x :: xs => ys.any (fun y => sameField x y) && eachField xs ys
termination_by structural xs

/-- The field is among the fields. -/
def someField (xs : List (String × Value)) (y : String × Value) : Bool :=
  match xs with
  | [] => false
  | x :: xs => sameField x y || someField xs y
termination_by structural xs

/-- A member of a record's key is a name with the key of its value. -/
def sameField (x y : String × Value) : Bool :=
  match x with
  | (name, v) => name == y.1 && sameKey v y.2
termination_by structural x
end

/-- A set without the members whose key was seen before. -/
def distinct (items : List Value) : List Value := items.foldl (fun seen item =>
    if someSame seen item then seen else seen ++ [item]) []

/-! ## Errors -/

/-- What an evaluation failure says; a name is the type's, where the source has one. -/
inductive EvalError where
  | valueDepth
  | expressionDepth
  | inLeft (got : String)
  | inRight (got : String)
  | inCandidate (got : String)
  | noEntity (uid : Uid)
  | noEntityAttribute (uid : Uid) (attr : String)
  | noRecordAttribute (attr : String)
  | attributeAccess (got : String)
  | requires (operation type got : String)
  | setMethod (got : String)
  | setArgument
  | overflow
  | has (got : String)
  | like (got : String)
  | is (got : String)
  | condition (got : String)
  deriving DecidableEq, Repr

/-- `repr` of an entity uid, with Python's `repr` of a string. -/
def Uid.repr (repr : String → String) (u : Uid) : String :=
  "(" ++ repr u.type ++ ", " ++ repr u.id ++ ")"

/-- The text of the exception. -/
def EvalError.message (repr : String → String) : EvalError → String
  | .valueDepth => "value is nested too deeply"
  | .expressionDepth => "expression is nested too deeply"
  | .inLeft got => "'in' requires an entity, got " ++ got
  | .inRight got => "'in' requires an entity or a set of entities, got " ++ got
  | .inCandidate got => "'in' requires entities on the right, got " ++ got
  | .noEntity u => "entity " ++ u.repr repr ++ " has no attributes in this request"
  | .noEntityAttribute u a =>
    "entity " ++ u.repr repr ++ " has no attribute " ++ repr a
  | .noRecordAttribute a => "record has no attribute " ++ repr a
  | .attributeAccess got =>
    "attribute access requires an entity or record, got " ++ got
  | .requires operation type got =>
    operation ++ " requires " ++ type ++ ", got " ++ got
  | .setMethod got => "set methods require a set, got " ++ got
  | .setArgument => "containsAll/containsAny require a set argument"
  | .overflow => "arithmetic overflowed i64"
  | .has got => "'has' requires an entity or record, got " ++ got
  | .like got => "'like' requires a string, got " ++ got
  | .is got => "'is' requires an entity, got " ++ got
  | .condition got => "condition evaluated to " ++ got ++ ", not bool"

def cedarMaxDepth : Nat := 200

/-! ## Equality -/

mutual
/-- `cedar_eq`. Records are compared value by value, to a depth; sets by their keys. -/
def cedarEq (v w : Value) (depth : Nat) : Except EvalError Bool :=
  if cedarMaxDepth < depth then .error .valueDepth
  else
    match v with
    | .bool a => match w with | .bool b => .ok (a == b) | _ => .ok false
    | .long a => match w with | .long b => .ok (a == b) | _ => .ok false
    | .string a => match w with | .string b => .ok (a == b) | _ => .ok false
    | .entity a => match w with | .entity b => .ok (a == b) | _ => .ok false
    | .list xs | .frozen xs =>
      match w.members with
      | some ys => .ok (eachIn xs ys && ys.all fun y => someSame xs y)
      | none => .ok false
    | .record xs =>
      match w with
      | .record ys =>
        if xs.length = ys.length then fieldsEq xs ys depth else .ok false
      | _ => .ok false
termination_by structural v

/-- The loop over the fields of the left record. -/
def fieldsEq (xs ys : List (String × Value)) (depth : Nat) : Except EvalError Bool :=
  match xs with
  | [] => .ok true
  | x :: xs =>
    match fieldEq x ys depth with
    | .ok true => fieldsEq xs ys depth
    | stopped => stopped
termination_by structural xs

/-- One field of a record against another record. -/
def fieldEq (x : String × Value) (ys : List (String × Value)) (depth : Nat) :
    Except EvalError Bool :=
  match x with
  | (name, v) =>
    match lookup ys name with
    | some w => cedarEq v w (depth + 1)
    | none => .ok false
termination_by structural x
end

/-- `cedar_set_contains`, over the members in their order. -/
def cedarSetContains (value : Value) (depth : Nat) : List Value → Except EvalError Bool
  | [] => .ok false
  | item :: items =>
    match cedarEq value item depth with
    | .ok false => cedarSetContains value depth items
    | stopped => stopped

/-! ## Python values -/

/-- A key of a caller's mapping. -/
inductive Key where
  | str (s : String)
  /-- any other key, by its type's name -/
  | other (typeName : String)
  deriving DecidableEq, Repr

/-- What a caller may pass. -/
inductive Raw where
  | bool (b : Bool)
  | int (n : Int)
  | str (s : String)
  /-- an `EntityUid` -/
  | uid (u : Uid)
  | dict (entries : List (Key × Raw))
  /-- any other `Mapping` -/
  | mapping (entries : List (Key × Raw))
  /-- a list or tuple, or an instance of a subclass of these or of the sets -/
  | sequence (items : List Raw)
  | set (items : List Raw)
  | frozenset (items : List Raw)
  | other (typeName : String)

mutual
/-- `cedar_convert_value`; a `TypeError` is its text. -/
def cedarConvertValue (location : String) (value : Raw) : Except String Value :=
  match value with
  | .bool b => .ok (.bool b)
  | .str s => .ok (.string s)
  | .int n =>
    match I64.ofInt n with
    | some n => .ok (.long n)
    | none =>
      .error (location ++ ": integer " ++ toString n ++ " does not fit in Cedar's i64")
  | .uid u => .ok (.entity u)
  | .dict entries | .mapping entries =>
    (convertEntries location entries).map .record
  -- the members of an exact set are distinct already
  | .set items | .frozenset items =>
    (convertItems location items).map .list
  | .sequence items =>
    (convertItems location items).map fun items => .list (distinct items)
  | .other typeName =>
    .error (location ++ ": '" ++ typeName ++ "' has no Cedar equivalent; "
      ++ "use bool, int, str, EntityUid, a mapping, or a sequence")
termination_by structural value

/-- The loop over a sequence. -/
def convertItems (location : String) (items : List Raw) : Except String (List Value) :=
  match items with
  | [] => .ok []
  | item :: items =>
    match cedarConvertValue location item with
    | .error e => .error e
    | .ok value => (convertItems location items).map (value :: ·)
termination_by structural items

/-- The loop over a mapping. -/
def convertEntries (location : String) (entries : List (Key × Raw)) :
    Except String (List (String × Value)) :=
  match entries with
  | [] => .ok []
  | entry :: entries =>
    match convertEntry location entry with
    | .error e => .error e
    | .ok field => (convertEntries location entries).map (field :: ·)
termination_by structural entries

/-- One entry; a key that is no string is refused. -/
def convertEntry (location : String) (entry : Key × Raw) : Except String (String × Value) :=
  match entry with
  | (.str name, value) =>
    (cedarConvertValue location value).map fun value => (name, value)
  | (.other typeName, _) =>
    .error (location ++ ": record keys must be strings, got '" ++ typeName ++ "'")
termination_by structural entry
end

mutual
/-- `cedar_prepared_value`: the evaluator can read the value as it is. -/
def cedarPreparedValue (value : Raw) (depth : Nat) : Bool :=
  if cedarMaxDepth < depth then false
  else
    match value with
    | .bool _ | .str _ => true
    | .int n => (I64.ofInt n).isSome
    | .dict entries => depth == 0 && preparedEntries entries depth
    | .frozenset items => preparedItems items depth
    | _ => false
termination_by structural value

/-- The test of a sequence. -/
def preparedItems (items : List Raw) (depth : Nat) : Bool :=
  match items with
  | [] => true
  | item :: items =>
    cedarPreparedValue item (depth + 1) && preparedItems items depth
termination_by structural items

/-- The test of a mapping. -/
def preparedEntries (entries : List (Key × Raw)) (depth : Nat) : Bool :=
  match entries with
  | [] => true
  | entry :: entries =>
    preparedEntry entry depth && preparedEntries entries depth
termination_by structural entries

/-- A key that is no string fails it. -/
def preparedEntry (entry : Key × Raw) (depth : Nat) : Bool :=
  match entry with
  | (.str _, value) => cedarPreparedValue value (depth + 1)
  | (.other _, _) => false
termination_by structural entry
end

mutual
/-- What the evaluator sees of a value that was not converted; `none` is outside its value model. -/
def Raw.unconverted (value : Raw) : Option Value :=
  match value with
  | .bool b => some (.bool b)
  | .int n => (I64.ofInt n).map .long
  | .str s => some (.string s)
  | .dict entries => (unconvertedEntries entries).map .record
  | .frozenset items => (unconvertedItems items).map .frozen
  | _ => none
termination_by structural value

/-- The same over a sequence. -/
def unconvertedItems (items : List Raw) : Option (List Value) :=
  match items with
  | [] => some []
  | item :: items =>
    match item.unconverted with
    | none => none
    | some value => (unconvertedItems items).map (value :: ·)
termination_by structural items

/-- The same over a mapping. -/
def unconvertedEntries (entries : List (Key × Raw)) : Option (List (String × Value)) :=
  match entries with
  | [] => some []
  | entry :: entries =>
    match unconvertedEntry entry with
    | none => none
    | some field => (unconvertedEntries entries).map (field :: ·)
termination_by structural entries

/-- The same of an entry. -/
def unconvertedEntry (entry : Key × Raw) : Option (String × Value) :=
  match entry with
  | (.str name, value) => value.unconverted.map fun value => (name, value)
  | (.other _, _) => none
termination_by structural entry
end

/-! ## Induction -/

/-- Induction over a value: its members, its fields. -/
theorem Value.induct {P : Value → Prop} (bool : ∀ b, P (.bool b))
    (long : ∀ n, P (.long n)) (string : ∀ s, P (.string s)) (entity : ∀ u, P (.entity u))
    (list : ∀ items, (∀ x ∈ items, P x) → P (.list items))
    (frozen : ∀ items, (∀ x ∈ items, P x) → P (.frozen items))
    (record : ∀ fields, (∀ f ∈ fields, P f.2) → P (.record fields)) : ∀ v, P v := by
  refine @Value.rec P (fun xs => ∀ x ∈ xs, P x) (fun fs => ∀ f ∈ fs, P f.2)
    (fun f => P f.2) bool long string entity list frozen record ?_ ?_ ?_ ?_ ?_
  · exact nofun
  · exact fun _ _ hx hxs => forall_mem_cons.mpr ⟨hx, hxs⟩
  · exact nofun
  · exact fun _ _ hx hxs => forall_mem_cons.mpr ⟨hx, hxs⟩
  · exact fun _ _ h => h

variable {xs ys : List Value}

/-- `eachIn` without its recursion. -/
theorem eachIn_eq : eachIn xs ys = xs.all fun x => ys.any fun y => sameKey x y := by
  induction xs with
  | nil => rfl
  | cons x xs ih => rw [eachIn, ih]; rfl

/-- `someSame` without its recursion. -/
theorem someSame_eq (y : Value) : someSame xs y = xs.any fun x => sameKey x y := by
  induction xs with
  | nil => rfl
  | cons x xs ih => rw [someSame, ih]; rfl

/-- `eachField` without its recursion. -/
theorem eachField_eq (xs ys : List (String × Value)) :
    eachField xs ys = xs.all fun x => ys.any fun y => sameField x y := by
  induction xs with
  | nil => rfl
  | cons x xs ih => rw [eachField, ih]; rfl

/-- `someField` without its recursion. -/
theorem someField_eq (xs : List (String × Value)) (y : String × Value) :
    someField xs y = xs.any fun x => sameField x y := by
  induction xs with
  | nil => rfl
  | cons x xs ih => rw [someField, ih]; rfl

/-- Equality of two sets by their keys. -/
def sameMembers (xs ys : List Value) : Bool := eachIn xs ys && ys.all fun y => someSame xs y

/-- Sets are one key when each is within the other. -/
theorem sameMembers_eq : sameMembers xs ys
    = ((xs.all fun x => ys.any fun y => sameKey x y)
      && ys.all fun y => xs.any fun x => sameKey x y) := by
  rw [sameMembers, eachIn_eq]
  exact congrArg (_ && ·) (congrArg ys.all (funext fun y => someSame_eq y))

/-! ## Thawing -/

mutual
/-- Every frozenset as a list. -/
def thaw (v : Value) : Value :=
  match v with
  | .bool b => .bool b
  | .long n => .long n
  | .string s => .string s
  | .entity u => .entity u
  | .list items | .frozen items => .list (thawItems items)
  | .record fields => .record (thawFields fields)
termination_by structural v

def thawItems (items : List Value) : List Value :=
  match items with
  | [] => []
  | x :: xs => thaw x :: thawItems xs
termination_by structural items

def thawFields (fields : List (String × Value)) : List (String × Value) :=
  match fields with
  | [] => []
  | f :: fs => thawField f :: thawFields fs
termination_by structural fields

def thawField (f : String × Value) : String × Value :=
  match f with
  | (name, v) => (name, thaw v)
termination_by structural f
end

variable (items : List Value)

/-- Members are thawed one by one. -/
theorem thawItems_eq : thawItems items = items.map thaw := by
  induction items with
  | nil => rfl
  | cons x xs ih => rw [thawItems, ih]; rfl

variable (fields : List (String × Value))

/-- Fields are thawed one by one. -/
theorem thawFields_eq : thawFields fields = fields.map thawField := by
  induction fields with
  | nil => rfl
  | cons f fs ih => rw [thawFields, ih]; rfl

/-- A list stays a list. -/
theorem thaw_list : thaw (.list items) = .list (items.map thaw) := by
  rw [thaw, thawItems_eq]

/-- A frozenset becomes a list. -/
theorem thaw_frozen : thaw (.frozen items) = .list (items.map thaw) := by
  rw [thaw, thawItems_eq]

/-- A record keeps its names. -/
theorem thaw_record : thaw (.record fields) = .record (fields.map thawField) := by
  rw [thaw, thawFields_eq]

/-- Thawing keeps which values are sets. -/
theorem members_thaw (v : Value) : (thaw v).members = v.members.map (List.map thaw) := by
  cases v with
  | list items => rw [thaw_list]; rfl
  | frozen items => rw [thaw_frozen]; rfl
  | record fields => rw [thaw_record]; rfl
  | _ => rfl

/-- Only the value of a field is thawed. -/
theorem thawField_eq (f : String × Value) : thawField f = (f.1, thaw f.2) := by
  obtain ⟨name, v⟩ := f
  rfl

/-- Attributes are found as before. -/
theorem lookup_thaw (name : String) :
    lookup (fields.map thawField) name = (lookup fields name).map thaw := by
  rw [funext thawField_eq, lookup, lookup, List.find?_map, Option.map_map, Option.map_map]
  rfl

/-- `all` looks at the members only. -/
theorem all_mem_congr {α : Type} {xs : List α} {f g : α → Bool}
    (h : ∀ x ∈ xs, f x = g x) : xs.all f = xs.all g := by
  rw [Bool.eq_iff_iff, all_eq_true, all_eq_true]
  exact forall₂_congr fun x hx => by rw [h x hx]

/-- `any` looks at the members only. -/
theorem any_mem_congr {α : Type} {xs : List α} {f g : α → Bool}
    (h : ∀ x ∈ xs, f x = g x) : xs.any f = xs.any g := by
  rw [Bool.eq_iff_iff, any_eq_true, any_eq_true]
  exact exists_congr fun x => and_congr_right fun hx => by rw [h x hx]

/-- Two sets of values that are compared member by member. -/
theorem sameMembers_map (h : ∀ x ∈ xs, ∀ y, sameKey (thaw x) (thaw y) = sameKey x y) :
    sameMembers (xs.map thaw) (ys.map thaw) = sameMembers xs ys := by
  rw [sameMembers_eq, sameMembers_eq, all_map, all_map]
  refine congrArg₂ _ (all_mem_congr fun x hx => ?_) (all_mem_congr fun y _ => ?_)
  · show (ys.map thaw).any (fun y => sameKey (thaw x) y) = _
    rw [any_map]
    exact any_mem_congr fun y _ => h x hx y
  · show (xs.map thaw).any (fun x => sameKey x (thaw y)) = _
    rw [any_map]
    exact any_mem_congr fun x hx => h x hx y

/-- **KEYS DO NOT SEE THE FORM OF A SET.** -/
theorem sameKey_thaw (v w : Value) : sameKey (thaw v) (thaw w) = sameKey v w := by
  induction v using Value.induct generalizing w with
  | bool | long | string | entity => cases w <;> rfl
  | list xs ih | frozen xs ih =>
    simp only [thaw_list, thaw_frozen, sameKey, members_thaw]
    cases w.members with
    | none => rfl
    | some ys => exact sameMembers_map ih
  | record xs ih =>
    cases w with
    | record ys =>
      have hfield : ∀ x ∈ xs, ∀ y : String × Value,
          sameField (thawField x) (thawField y) = sameField x y := by
        rintro ⟨name, v⟩ hx ⟨name', w⟩
        exact congrArg (name == name' && ·) (ih _ hx w)
      rw [thaw_record, thaw_record, sameKey, sameKey]
      simp only [eachField_eq, someField_eq, all_map, any_map]
      refine congrArg₂ _ (all_mem_congr fun x hx => ?_) (all_mem_congr fun y _ => ?_)
      · exact any_mem_congr fun y _ => hfield x hx y
      · exact any_mem_congr fun x hx => hfield x hx y
    | _ => rfl

/-- `==` does not tell a frozenset from a list. -/
theorem cedarEq_thaw (v w : Value) (depth : Nat) :
    cedarEq (thaw v) (thaw w) depth = cedarEq v w depth := by
  induction v using Value.induct generalizing w depth with
  | bool | long | string | entity => cases w <;> rfl
  | list xs | frozen xs =>
    simp only [thaw_list, thaw_frozen, cedarEq, members_thaw]
    cases w.members with
    | none => rfl
    | some ys =>
      exact congrArg (ite _ _ <| Except.ok ·) (sameMembers_map fun x _ y => sameKey_thaw x y)
  | record xs ih =>
    cases w with
    | record ys =>
      have hflds : ∀ zs, (∀ z ∈ zs, z ∈ xs) →
          fieldsEq (zs.map thawField) (ys.map thawField) depth = fieldsEq zs ys depth := by
        intro zs
        induction zs with
        | nil => exact fun _ => rfl
        | cons z zs ihzs =>
          intro hzs
          obtain ⟨hz, hzs⟩ := forall_mem_cons.mp hzs
          have hfield : fieldEq (thawField z) (ys.map thawField) depth = fieldEq z ys depth := by
            obtain ⟨name, v⟩ := z
            rw [thawField, fieldEq, fieldEq, lookup_thaw]
            cases lookup ys name with
            | none => rfl
            | some w => exact ih _ hz w (depth + 1)
          rw [map_cons, fieldsEq, fieldsEq, hfield, ihzs hzs]
      rw [thaw_record, thaw_record, cedarEq, cedarEq]
      simp only [length_map, hflds xs fun _ => id]
    | _ => rfl

/-- Nor does membership. -/
theorem cedarSetContains_thaw (v : Value) (depth : Nat) (items : List Value) :
    cedarSetContains (thaw v) depth (items.map thaw) = cedarSetContains v depth items := by
  induction items with
  | nil => rfl
  | cons x xs ih =>
    rw [map_cons, cedarSetContains, cedarSetContains, cedarEq_thaw, ih]

end Cedar
