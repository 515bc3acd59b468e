import Mathlib.Data.List.Sort
import Wreath.ProbeTableProofs
import Wreath.RouteAccessProofs

/-! # The route table — registration and compilation

`PolicyRouteTable` takes routes until it is compiled: one without a placeholder goes to a
dictionary, one with `{name}` segments becomes a `BRoute`, and one for a host pattern or with
`{name:path}` at its end a `BDynamicRoute`, which keeps its place in a list. Compiling sorts
the `BRoute`s of a method and a segment count by priority and gives each position a table
from literal to a bit mask of routes, keyed by the whole literal or by a few telling bytes.
Paths, hosts and methods are the bytes of their UTF-8 encoding. -/

namespace RouteTable

open ByteScan RouteAccess ProbeTable

variable {H : Type}

/-! ## Segments -/

/-- `BRT_MAX_SEGMENTS`. -/
def maxSegments : Nat := 64

def slash : UInt8 := ch '/'

def openBrace : UInt8 := 0x7b

def closeBrace : UInt8 := 0x7d

/-- `brt_scan`: what stands between the slashes after the first byte, whatever that is; `none` for
    more than `maxSegments` segments. On an empty path the source reads past its buffer and has no
    defined answer; `none` stands for that too. -/
def brtScan : Bytes → Option (List Bytes)
  | [] => none
  | _ :: rest =>
    let segs := rest.splitOn slash
    if segs.length ≤ maxSegments then some segs else none

/-- `dynamic_host_scan`. -/
def dynamicHostScan (host : Bytes) : Option (List Bytes) :=
  let labels := host.splitOn (ch '.')
  if labels.length ≤ maxSegments then some labels else none

/-- A segment in braces. -/
def isParam (seg : Bytes) : Bool :=
  decide (2 ≤ seg.length) && seg.head? == some openBrace && seg.getLast? == some closeBrace

/-- What stands between the braces. -/
def paramName (seg : Bytes) : Bytes := (seg.drop 1).dropLast

/-! ## Routes -/

/-- `BSeg` of a route, with the name its parameter has in `param_names`. -/
inductive Segment where
  | literal (bytes : Bytes)
  | param (name : Bytes)
  deriving Repr, DecidableEq

def segmentCompile (seg : Bytes) : Segment :=
  if isParam seg then .param (paramName seg) else .literal seg

def Segment.isLiteral : Segment → Bool
  | .literal _ => true
  | .param _ => false

/-- Parameter names do not distinguish two routes. -/
def Segment.sameShape : Segment → Segment → Bool
  | .literal a, .literal b => a == b
  | .param _, .param _ => true
  | _, _ => false

/-- `BRoute`; `order` is its place among the routes of this kind. -/
structure BRoute (H : Type) where
  method : Bytes
  segs : List Segment
  order : Nat
  handler : H
  accessClauses : List Nat
  deriving Repr, DecidableEq

def BRoute.nseg (r : BRoute H) : Nat := r.segs.length

/-- How many of its segments are literals. -/
def BRoute.specificity (r : BRoute H) : Nat := r.segs.countP Segment.isLiteral

def BRoute.cmasks (r : BRoute H) : Option (List (BitVec 64)) := compileMasks r.accessClauses

def BRoute.sameShape (r : BRoute H) (method : Bytes) (segs : List Segment) : Bool :=
  r.method == method && r.segs.length == segs.length
    && (r.segs.zip segs).all fun pair => pair.1.sameShape pair.2

/-- An entry of the `statics` dictionaries: the whole path is the key. -/
structure StaticEntry (H : Type) where
  method : Bytes
  path : Bytes
  handler : H
  accessClauses : List Nat
  deriving Repr, DecidableEq

/-- `BDynamicSegment`: `*` stands only in host patterns, `greedy` only in paths. -/
inductive BDynamicSegment where
  | literal (bytes : Bytes)
  | wildcard
  | param (name : Bytes)
  | greedy (name : Bytes)
  deriving Repr, DecidableEq

def BDynamicSegment.isGreedy : BDynamicSegment → Bool
  | .greedy _ => true
  | _ => false

/-- `BDynamicRoute`; `host` is `none` for a route of every host. -/
structure BDynamicRoute (H : Type) where
  method : Bytes
  path : List BDynamicSegment
  host : Option (List BDynamicSegment)
  handler : H
  accessClauses : List Nat
  deriving Repr, DecidableEq

variable (r : BDynamicRoute H)

def BDynamicRoute.greedy : Bool := r.path.any BDynamicSegment.isGreedy

def BDynamicRoute.hostRoute : Bool := r.host.isSome

def BDynamicRoute.cmasks : Option (List (BitVec 64)) := compileMasks r.accessClauses

/-! ## Registration -/

/-- What a table holds until it is compiled. -/
structure Registry (H : Type) where
  statics : List (StaticEntry H)
  routes : List (BRoute H)
  dynamicRoutes : List (BDynamicRoute H)
  deriving Repr, DecidableEq

def Registry.empty : Registry H := ⟨[], [], []⟩

def namedRoute (what : String) (method path : Bytes) : PyError :=
  ⟨.valueError, ascii what ++ method ++ ascii " " ++ path⟩

variable (r : Registry H)

/-- `brt_add` on a table that is not sealed. -/
def Registry.add (path method : Bytes) (handler : H)
    (clauses : Option (List Int)) : Except PyError (Registry H) :=
  match accessClauses clauses with
  | .error e => .error e
  | .ok clauses =>
    if path.head? ≠ some slash then
      .error (valueError "route paths must begin with '/'")
    else if openBrace ∉ path then
      if r.statics.any fun e => e.method == method && e.path == path then
        .error (namedRoute "duplicate route: " method path)
      else
        .ok { r with statics := r.statics ++ [⟨method, path, handler, clauses⟩] }
    else
      match brtScan path with
      | none => .error (valueError "route path has too many segments")
      | some raw =>
        if r.routes.any fun other =>
            other.sameShape method (raw.map segmentCompile) then
          .error (namedRoute "conflicting route: " method path)
        else
          .ok { r with routes := r.routes ++ [⟨method,
            raw.map segmentCompile, r.routes.length, handler, clauses⟩] }

def pathSuffix : Bytes := ascii ":path"

/-- `dynamic_segment_compile`. -/
def dynamicSegmentCompile (host : Bool) (text : Bytes) : BDynamicSegment :=
  if host && text == [ch '*'] then .wildcard
  else if isParam text then
    let name := paramName text
    if !host && decide (5 < name.length) && pathSuffix.isSuffixOf name then
      .greedy (name.take (name.length - 5))
    else .param name
  else .literal text

/-- `dynamic_path_compile`. -/
def dynamicPathCompile (path : Bytes) : Except PyError (List BDynamicSegment) :=
  match brtScan path with
  | none => .error (valueError "dynamic route path has too many segments")
  | some raw =>
    let segs := raw.map (dynamicSegmentCompile false)
    if segs.dropLast.any BDynamicSegment.isGreedy then
      .error (valueError ("a dynamic \x7bname:path\x7d placeholder"
        ++ " must be the final segment"))
    else .ok segs

/-- `dynamic_host_compile`. -/
def dynamicHostCompile (host : Bytes) : List BDynamicSegment :=
  (host.splitOn (ch '.')).map (dynamicSegmentCompile true)

/-- `brt_add_dynamic` on a table that is not sealed. -/
def Registry.addDynamic (path method : Bytes) (host : Option Bytes) (handler : H)
    (clauses : Option (List Int)) : Except PyError (Registry H) :=
  match accessClauses clauses with
  | .error e => .error e
  | .ok clauses =>
    if path.head? ≠ some slash then
      .error (valueError "route paths must begin with '/'")
    else
      match dynamicPathCompile path with
      | .error e => .error e
      | .ok segs =>
        let route : BDynamicRoute H := ⟨method, segs, host.map dynamicHostCompile, handler, clauses⟩
        if !route.hostRoute && !route.greedy then
          .error (valueError ("add_dynamic requires a host pattern or"
            ++ " final \x7bname:path\x7d placeholder"))
        else .ok { r with dynamicRoutes := r.dynamicRoutes ++ [route] }

/-! ## The table of one position

`MaskMap` maps each literal of a position to its slot in the group's pool of masks. -/

/-- `hash_bytes`: FNV-1a. -/
def hashBytes (key : Bytes) : UInt64 :=
  let h := key.foldl (fun h b => (h ^^^ b.toUInt64) * 1099511628211) 1469598103934665603
  if h = 0 then 1 else h

/-- The home slot of a literal, before it is cut to the capacity. -/
def hashHome (key : Bytes) : Nat := (hashBytes key).toNat

/-- `disc_byte`: past the offsets in use the first one is read again, past the end of the
    segment a zero. -/
def discByte (off : List Nat) (i : Nat) (seg : Bytes) : UInt64 :=
  (seg.getD (off.getD i (off.getD 0 0)) 0).toUInt64

/-- `disc_key`: the length and the bytes at the offsets. -/
def discKey (off : List Nat) (seg : Bytes) : UInt64 :=
  let len := UInt64.ofNat (seg.length % 65536)
  if off.length ≤ 2 then
    len <<< 16 ||| discByte off 0 seg <<< 8 ||| discByte off 1 seg
  else
    len <<< 32 ||| discByte off 0 seg <<< 24 ||| discByte off 1 seg <<< 16
      ||| discByte off 2 seg <<< 8 ||| discByte off 3 seg

/-- `disc_mix`. -/
def discMix (key : UInt64) : UInt64 :=
  let k := key * 0x9E3779B97F4A7C15
  k ^^^ k >>> 29

def mixHome (key : UInt64) : Nat := (discMix key).toNat

/-- `disc_classes`: how many keys the literals get. -/
def discClasses (off : List Nat) (keys : List Bytes) : Nat :=
  (keys.map (discKey off)).eraseDups.length

/-- One more offset: the first that splits the most literals apart, if one splits more than
    `best`. -/
def discPick (keys : List Bytes) (maxlen : Nat) (off : List Nat) (best : Nat) : Option Nat × Nat :=
  (List.range maxlen).foldl
    (fun pick o =>
      let classes := discClasses (off ++ [o]) keys
      if pick.2 < classes then (some o, classes) else pick)
    (none, best)

def discChooseFrom (keys : List Bytes) (maxlen : Nat) :
    Nat → List Nat → Nat → Option (List Nat)
  | 0, _, _ => none
  | steps + 1, off, best =>
    match discPick keys maxlen off best with
    | (none, _) => none
    | (some o, classes) =>
      if classes = keys.length then some (off ++ [o])
      else discChooseFrom keys maxlen steps (off ++ [o]) classes

/-- `disc_choose`: at most four offsets below 24 that tell all the literals apart. -/
def discChoose (keys : List Bytes) : Option (List Nat) :=
  let maxlen := min 24 (keys.foldl (fun m key => max m key.length) 1)
  discChooseFrom keys maxlen 4 [] 0

/-- `MaskMap`: the literals themselves, or their packed keys. -/
inductive MaskMap where
  | exact (slots : Slots Bytes Nat)
  | disc (off : List Nat) (slots : Slots UInt64 Nat)
  deriving Repr, DecidableEq

/-- `maskmap_try_disc`: any refusal keeps the exact table. -/
def maskmapTryDisc (slots : Slots Bytes Nat) : MaskMap :=
  let entries := entries slots
  match discChoose (entries.map (·.1)) with
  | none => .exact slots
  | some off =>
    match rekey mixHome
        (vacant UInt64 Nat slots.length)
        (entries.map fun e => (discKey off e.1, e.2)) with
    | none => .exact slots
    | some fresh => .disc off fresh

/-- `maskmap_get`. -/
def maskmapGet : MaskMap → Bytes → Option Nat
  | .exact slots, key => lookup hashHome slots key
  | .disc off slots, key =>
    lookup mixHome slots (discKey off key)

/-- The pool slots a position's table names. -/
def MaskMap.values : MaskMap → List Nat
  | .exact slots => (entries slots).map (·.2)
  | .disc _ slots => (entries slots).map (·.2)

/-! ## A group: one method, one segment count -/

/-- The positions' tables while the routes are added one by one. -/
structure Positions where
  literal : List (Slots Bytes Nat)
  param : List Nat
  pool : List Nat

/-- Position `p` of route `i`. -/
def Positions.intern (g : Positions) (i p : Nat) : Segment → Positions
  | .param _ => { g with param := g.param.modify p (· ||| 1 <<< i) }
  | .literal bytes =>
    let (slots, slot, inserted) :=
      ProbeTable.intern hashHome (g.literal.getD p []) bytes g.pool.length
    let pool := if inserted then g.pool ++ [0] else g.pool
    { g with
      literal := g.literal.set p slots
      pool := pool.modify slot (· ||| 1 <<< i) }

/-- Route `i`, from position `p` on. -/
def Positions.internAll (i : Nat) :
    Nat → List Segment → Positions → Positions
  | _, [], g => g
  | p, seg :: segs, g => internAll i (p + 1) segs (g.intern i p seg)

/-- The routes, the first of them as number `i`. -/
def Positions.addRoutes :
    Nat → List (BRoute H) → Positions → Positions
  | _, [], g => g
  | i, r :: rs, g => addRoutes (i + 1) rs (g.internAll i 0 r.segs)

/-- `BGroup`: bit `i` of a mask is the route at index `i`. -/
structure BGroup (H : Type) where
  routes : List (BRoute H)
  literal : List MaskMap
  param : List Nat
  pool : List Nat
  order : List Nat

/-- How many routes a mask holds. -/
def popcount (nroutes mask : Nat) : Nat := (List.range nroutes).countP (mask.testBit ·)

/-- `position_survival` as a fraction. -/
def positionSurvival (nroutes : Nat) (map : MaskMap) (param : Nat) (pool : List Nat) : Nat × Nat :=
  let params := popcount nroutes param
  let sizes :=
    (map.values.map fun slot => popcount nroutes (pool.getD slot 0) + params)
      ++ if params = 0 then [] else [params]
  let total := sizes.sum
  if map.values = [] ∨ total = 0 then (1, 1)
  else ((sizes.map fun n => n * n).sum, total * total)

def scoreLe (a b : (Nat × Nat) × Nat) : Prop := a.1.1 * b.1.2 ≤ b.1.1 * a.1.2

instance : DecidableRel scoreLe := fun _ _ =>
  inferInstanceAs (Decidable (_ ≤ _))

/-- `bgroup_plan`: the positions that can reject, the most selective first. -/
def bgroupPlan (nroutes : Nat) (literal : List MaskMap) (param pool : List Nat) : List Nat :=
  let scored := (literal.zipIdx.filter fun entry => entry.1.values ≠ []).map
    fun entry =>
      (positionSurvival nroutes entry.1 (param.getD entry.2 0) pool, entry.2)
  (scored.insertionSort scoreLe).map (·.2)

/-- `route_priority_cmp`: more literals first, then the earlier route. -/
def Precedes (x y : BRoute H) : Prop :=
  y.specificity < x.specificity ∨ x.specificity = y.specificity ∧ x.order ≤ y.order

instance : DecidableRel (Precedes (H := H)) := fun _ _ =>
  inferInstanceAs (Decidable (_ ∨ _))

/-- `bgroup_build`. -/
def bgroupBuild (cands : List (BRoute H)) (nseg : Nat) : BGroup H :=
  let routes := cands.insertionSort Precedes
  let built := Positions.addRoutes 0 routes ⟨List.replicate nseg [], List.replicate nseg 0, []⟩
  let literal := built.literal.map maskmapTryDisc
  { routes
    literal
    param := built.param
    pool := built.pool
    order := bgroupPlan routes.length literal built.param built.pool }

/-! ## The compiled table -/

/-- `MethodGroups`. -/
structure MethodGroups (H : Type) where
  statics : List (StaticEntry H)
  byNseg : Nat → Option (BGroup H)

/-- The routes of a method and a segment count. -/
def Registry.candidates (method : Bytes) (nseg : Nat) : List (BRoute H) :=
  r.routes.filter fun route => route.nseg == nseg && route.method == method

/-- `brt_group_build`. -/
def Registry.groupBuild (method : Bytes) (nseg : Nat) : Option (BGroup H) :=
  if r.candidates method nseg = [] then none
  else some (bgroupBuild (r.candidates method nseg) nseg)

def Registry.methodGroups (method : Bytes) : MethodGroups H where
  statics := r.statics.filter (·.method == method)
  byNseg := r.groupBuild method

/-- What a compiled table holds. -/
structure Compiled (H : Type) where
  groups : List (Bytes × MethodGroups H)
  dynamicRoutes : List (BDynamicRoute H)
  dynamicGroups : Bool → Bytes → List Nat

/-- `dynamic_groups_build`: the places of the routes of one kind and method. -/
def dynamicGroupsBuild (routes : List (BDynamicRoute H)) (hostRoute : Bool)
    (method : Bytes) : List Nat :=
  (routes.zipIdx.filter fun entry =>
    entry.1.hostRoute == hostRoute && entry.1.method == method).map (·.2)

/-- `brt_compile_groups`: every method that has a static or a parameter route gets its groups. -/
def Registry.compile : Compiled H where
  groups := ((r.statics.map (·.method) ++ r.routes.map (·.method)).eraseDups).map
    fun method => (method, r.methodGroups method)
  dynamicRoutes := r.dynamicRoutes
  dynamicGroups := dynamicGroupsBuild r.dynamicRoutes

/-- `no_groups`. -/
def noGroups : MethodGroups H := ⟨[], fun _ => none⟩

/-- `brt_method_groups`. -/
def Compiled.methodGroups (c : Compiled H) (method : Bytes) : MethodGroups H :=
  (c.groups.lookup method).getD noGroups

/-- `PolicyRouteTable`: open for registration, or compiled and sealed. -/
inductive PolicyRouteTable (H : Type) where
  | registering (registry : Registry H)
  | compiled (groups : Compiled H)

namespace PolicyRouteTable

/-- `brt_new`. -/
def new : PolicyRouteTable H := .registering .empty

/-- `brt_compile_groups`, which every request runs into first. -/
def compileGroups : PolicyRouteTable H → Compiled H
  | .registering registry => registry.compile
  | .compiled groups => groups

/-- `brt_compile`. -/
def compile (t : PolicyRouteTable H) : PolicyRouteTable H := .compiled t.compileGroups

def immutable : PyError := ⟨.runtimeError, ascii "compiled route tables are immutable"⟩

/-- `brt_add`. -/
def add (t : PolicyRouteTable H) (path method : Bytes) (handler : H)
    (clauses : Option (List Int)) : Except PyError (PolicyRouteTable H) :=
  match t with
  | .compiled _ => .error immutable
  | .registering registry =>
    (registry.add path method handler clauses).map .registering

/-- `brt_add_dynamic`. -/
def addDynamic (t : PolicyRouteTable H) (path method : Bytes) (host : Option Bytes) (handler : H)
    (clauses : Option (List Int)) : Except PyError (PolicyRouteTable H) :=
  match t with
  | .compiled _ => .error immutable
  | .registering registry =>
    (registry.addDynamic path method host handler clauses).map .registering

/-- `dynamic_group_lookup`: before the table is compiled the dictionaries are empty. -/
def dynamicGroup (t : PolicyRouteTable H) (hostRoute : Bool) (method : Bytes) : List Nat :=
  match t with
  | .registering _ => []
  | .compiled groups => groups.dynamicGroups hostRoute method

def dynamicRoutes : PolicyRouteTable H → List (BDynamicRoute H)
  | .registering registry => registry.dynamicRoutes
  | .compiled groups => groups.dynamicRoutes

end PolicyRouteTable

end RouteTable
