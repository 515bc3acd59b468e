import Wreath.RouteTableProofs

/-! # Matching a request — match, classify, resolve

`match` answers for a caller whose mask is known. `classify` and `classify_request`
answer before it is: a route that asks for nothing is answered at once, otherwise every
candidate goes into a ticket, and `resolve` settles the ticket when the mask is there.
A ticket with one entry is that entry, one with more is the tuple of them, so `resolve`
has to tell the two apart by their shape. -/

namespace RouteMatch

open ByteScan RouteAccess RouteTable

variable {H : Type}

/-! ## Answers and tickets -/

/-- `(handler, params)`. -/
structure Match (H : Type) where
  handler : H
  params : Option (List (Bytes × Bytes))
  deriving Repr, DecidableEq

/-- The Python objects tickets are made of. -/
inductive Obj (H : Type) where
  | int (n : Nat)
  | matched (m : Match H)
  | tuple (items : List (Obj H))
  | list (items : List (Obj H))

/-- A candidate's match and its clauses, `(match, access_clauses)`. -/
structure Candidate (H : Type) where
  matched : Match H
  clauses : List Nat
  deriving Repr, DecidableEq

def Candidate.entry (c : Candidate H) : Obj H :=
  .tuple [.matched c.matched, .tuple (c.clauses.map .int)]

/-- `ticket_append`: the first entry is the ticket, the second makes it a list. -/
def ticketAppend : Option (Obj H) → Obj H → Obj H
  | none, entry => entry
  | some (.list items), entry => .list (items ++ [entry])
  | some ticket, entry => .list [ticket, entry]

/-- `ticket_out`: the null pointer, or a ticket that may still be missing. -/
abbrev TicketOut (H : Type) := Option (Option (Obj H))

def TicketOut.append (out : TicketOut H) (c : Candidate H) : TicketOut H :=
  out.map fun ticket => some (ticketAppend ticket c.entry)

/-! ## Ordinary routes -/

/-- Every literal of the route stands in the path. -/
def verify (r : BRoute H) (segs : List Bytes) : Bool := (r.segs.zip segs).all fun
    | (.literal bytes, seg) => bytes == seg
    | (.param _, _) => true

/-- `path_params_new`: the parameters' names with their segments. -/
def pathParams (r : BRoute H) (segs : List Bytes) : Option (List (Bytes × Bytes)) :=
  let params := (r.segs.zip segs).filterMap fun
    | (.literal _, _) => none
    | (.param name, seg) => some (name, seg)
  if params = [] then none else some params

/-- `build_match`, with the clauses a ticket puts beside it. -/
def routeCandidate (segs : List Bytes) (r : BRoute H) : Candidate H :=
  ⟨⟨r.handler, pathParams r segs⟩, r.accessClauses⟩

def staticCandidate (e : StaticEntry H) : Candidate H := ⟨⟨e.handler, none⟩, e.accessClauses⟩

/-- The mask of the routes that accept a segment at position `p`. -/
def accepting (g : BGroup H) (p : Nat) (seg : Bytes) : Nat :=
  let literal :=
    match maskmapGet (g.literal.getD p (.exact [])) seg with
    | some slot => g.pool.getD slot 0
    | none => 0
  literal ||| g.param.getD p 0

/-- The survivors of the positions in turn, until at most one is left. -/
def intersect (g : BGroup H) (segs : List Bytes) : List Nat → Nat → Nat
  | [], survivors => survivors
  | p :: order, survivors =>
    let survivors := survivors &&& accepting g p (segs.getD p [])
    if popcount g.routes.length survivors ≤ 1 then survivors
    else intersect g segs order survivors

/-- The routes whose bits are set, in the order of the bits. -/
def survivors (g : BGroup H) (segs : List Bytes) : List (BRoute H) :=
  let mask := intersect g segs g.order (2 ^ g.routes.length - 1)
  (g.routes.zipIdx.filter fun entry => mask.testBit entry.2).map (·.1)

/-- The loop over the survivors: a route that does not match is passed over before its
    clauses are looked at. -/
def tryRoutes (caller : Caller) (segs : List Bytes) :
    List (BRoute H) → TicketOut H → Option (Match H) × TicketOut H
  | [], out => (none, out)
  | r :: routes, out =>
    if !verify r segs then tryRoutes caller segs routes out
    else if routeEligible r.cmasks r.accessClauses caller then
      (some (routeCandidate segs r).matched, out)
    else tryRoutes caller segs routes (out.append (routeCandidate segs r))

/-- `brt_match_impl` after the static dictionary. -/
def matchGroup (groups : MethodGroups H) (path : Bytes) (caller : Caller)
    (out : TicketOut H) : Option (Match H) × TicketOut H :=
  if path.head? ≠ some slash then (none, out)
  else
    match brtScan path with
    | none => (none, out)
    | some segs =>
      match groups.byNseg segs.length with
      | none => (none, out)
      | some g => tryRoutes caller segs (survivors g segs) out

/-- `brt_match_impl`. A match is public to the caller it was found for, so `found_public`
    is that there is one. -/
def matchImpl (c : Compiled H) (method path : Bytes) (caller : Caller)
    (out : TicketOut H) : Option (Match H) × TicketOut H :=
  let groups := c.methodGroups method
  match groups.statics.find? (·.path == path) with
  | none => matchGroup groups path caller out
  | some entry =>
    if entry.accessClauses.any (clauseEligible · caller) then
      (some (staticCandidate entry).matched, out)
    else
      -- present but unreachable: it must not shadow a parameter route
      matchGroup groups path caller (out.append (staticCandidate entry))

def head : Bytes := ascii "HEAD"

def get : Bytes := ascii "GET"

/-- `brt_dispatch`: `HEAD` falls back to `GET`. -/
def dispatch (c : Compiled H) (method path : Bytes) (caller : Caller)
    (out : TicketOut H) : Option (Match H) × TicketOut H :=
  match matchImpl c method path caller out with
  | (some m, out) => (some m, out)
  | (none, out) =>
    if method = head then matchImpl c get path caller out else (none, out)

/-! ## Host and greedy routes -/

/-- `dynamic_segments_match`. -/
def dynamicSegmentsMatch : List BDynamicSegment → List Bytes → Bool
  | [], _ => true
  | _ :: _, [] => false
  | .literal bytes :: pattern, seg :: segs =>
    bytes == seg && dynamicSegmentsMatch pattern segs
  | .greedy _ :: pattern, _ :: segs => dynamicSegmentsMatch pattern segs
  | _ :: pattern, seg :: segs =>
    seg != [] && dynamicSegmentsMatch pattern segs

/-- The path tests of `dynamic_dispatch` on one route. -/
def dynamicPathAccepts (route : BDynamicRoute H) (segs : List Bytes) : Bool :=
  if route.greedy then
    decide (route.path.length ≤ segs.length) && dynamicSegmentsMatch route.path.dropLast segs
  else
    segs.length == route.path.length && dynamicSegmentsMatch route.path segs

/-- The host test, made only when host routes are tried. -/
def dynamicHostAccepts : Option (List BDynamicSegment) → Option (List Bytes) → Bool
  | some host, some labels =>
    labels.length == host.length && dynamicSegmentsMatch host labels
  | _, _ => true

/-- The tests of `dynamic_dispatch` on one route. -/
def dynamicAccepts (route : BDynamicRoute H) (segs : List Bytes)
    (labels : Option (List Bytes)) : Bool :=
  dynamicPathAccepts route segs && dynamicHostAccepts route.host labels

/-- `PyDict_SetItem`. -/
def setItem (dict : List (Bytes × Bytes)) (name value : Bytes) : List (Bytes × Bytes) :=
  if dict.any (·.1 == name) then
    dict.map fun item => if item.1 = name then (name, value) else item
  else dict ++ [(name, value)]

/-- The named segments of a pattern; a greedy one takes the rest. -/
def bindSegments : List BDynamicSegment → List Bytes → List (Bytes × Bytes) → List (Bytes × Bytes)
  | .param name :: pattern, seg :: segs, dict =>
    bindSegments pattern segs (setItem dict name seg)
  | .greedy name :: pattern, seg :: segs, dict =>
    bindSegments pattern segs (setItem dict name ([slash].intercalate (seg :: segs)))
  | _ :: pattern, _ :: segs, dict => bindSegments pattern segs dict
  | _, _, dict => dict

/-- `dynamic_build_match`. -/
def dynamicCandidate (segs : List Bytes) (labels : Option (List Bytes))
    (route : BDynamicRoute H) : Candidate H :=
  let params := bindSegments route.path segs []
  let params :=
    match labels, route.host with
    | some labels, some host => bindSegments host labels params
    | _, _ => params
  ⟨⟨route.handler, some params⟩, route.accessClauses⟩

/-- Two ascending lists of places, walked together. -/
def mergePlaces : List Nat → List Nat → List Nat
  | [], later => later
  | i :: places, later =>
    later.takeWhile (fun j => !decide (i < j))
      ++ i :: mergePlaces places (later.dropWhile fun j => !decide (i < j))

/-- The loop of `dynamic_dispatch`: the first route that accepts owns the request, reachable
    or not. -/
def tryDynamic (routes : List (BDynamicRoute H)) (segs : List Bytes)
    (labels : Option (List Bytes)) (caller : Caller) :
    List Nat → TicketOut H → Option (Match H) × TicketOut H
  | [], out => (none, out)
  | i :: places, out =>
    match routes[i]? with
    | none => tryDynamic routes segs labels caller places out
    | some route =>
      if dynamicAccepts route segs labels then
        let candidate := dynamicCandidate segs labels route
        if routeEligible route.cmasks route.accessClauses caller then
          (some candidate.matched, out)
        else (none, out.append candidate)
      else tryDynamic routes segs labels caller places out

variable (t : PolicyRouteTable H)

/-- `dynamic_dispatch`; the host routes are tried when a host is given. -/
def dynamicDispatch (method path : Bytes) (host : Option Bytes) (caller : Caller)
    (out : TicketOut H) : Option (Match H) × TicketOut H :=
  match brtScan path with
  | none => (none, out)
  | some segs =>
    match host.mapM dynamicHostScan with
    | none => (none, out)
    | some labels =>
      let places := t.dynamicGroup host.isSome method
      let fallback := if method = head then t.dynamicGroup host.isSome get else []
      tryDynamic t.dynamicRoutes segs labels caller (mergePlaces places fallback) out

/-! ## The calls -/

/-- `brt_match`. -/
def brtMatch (method path : Bytes) (caller : Int) :
    Except PyError (PolicyRouteTable H × Option (Match H)) :=
  match callerMask caller with
  | .error e => .error e
  | .ok caller =>
    match (dispatch t.compileGroups method path caller none).1 with
    | some m => .ok (t.compile, some m)
    | none =>
      .ok (t.compile, (dynamicDispatch t.compile method path none caller none).1)

/-- `(0, None)`, `(1, match)` or `(2, ticket)`. -/
inductive Classification (H : Type) where
  | absent
  | reachable (m : Match H)
  | ticket (ticket : Obj H)

/-- `classification_finish`. -/
def classificationFinish : Option (Match H) × TicketOut H → Classification H
  | (some m, _) => .reachable m
  | (none, some (some (.list items))) => .ticket (.tuple items)
  | (none, some (some ticket)) => .ticket ticket
  | (none, _) => .absent

/-- Nothing matched: no answer, and nothing in the ticket. -/
def unanswered : Option (Match H) × TicketOut H → Bool
  | (none, some none) => true
  | _ => false

/-- `brt_classify`, on the empty mask and with a ticket to fill. -/
def classifyCompiled (method path : Bytes) : Classification H :=
  let found := dispatch t.compileGroups method path (.word 0) (some none)
  classificationFinish (if unanswered found then
      dynamicDispatch t.compile method path none (.word 0) (some none)
    else found)

def classify (method path : Bytes) : PolicyRouteTable H × Classification H :=
  (t.compile, classifyCompiled t method path)

/-- `brt_classify_request`: the host routes come first, and before the table is compiled if
    it was not. -/
def classifyRequest (method path host : Bytes) : PolicyRouteTable H × Classification H :=
  let found := dynamicDispatch t method path (some host) (.word 0) (some none)
  if unanswered found then (t.compile, classifyCompiled t method path)
  else (t, classificationFinish found)

/-! ## Resolving a ticket -/

/-- `brt_ticket_is_single`: a pair whose second item is a tuple of integers. -/
def ticketIsSingle : List (Obj H) → Bool
  | [_, .tuple []] => true
  | [_, .tuple (.int _ :: _)] => true
  | _ => false

/-- The clauses of an entry. -/
def clauseItems (items : List (Obj H)) : List Nat := items.filterMap fun
    | .int n => some n
    | _ => none

variable (caller : Caller)

/-- `brt_resolve_entry`, on the items of an entry. -/
def resolveEntry : List (Obj H) → Option (Match H)
  | [.matched m, .tuple clauses] =>
    if (clauseItems clauses).any (clauseEligible · caller) then some m
    else none
  | _ => none

def resolveItem : Obj H → Option (Match H)
  | .tuple entry => resolveEntry caller entry
  | _ => none

/-- `brt_resolve_mask`. -/
def resolveMask (ticket : List (Obj H)) : Option (Match H) :=
  if ticketIsSingle ticket then resolveEntry caller ticket
  else ticket.findSome? (resolveItem caller)

/-- `brt_resolve`. -/
def resolve (ticket : Obj H) (caller : Int) : Except PyError (Option (Match H)) :=
  match ticket with
  | .tuple items =>
    match callerMask caller with
    | .error e => .error e
    | .ok caller => .ok (resolveMask caller items)
  | _ => .error ⟨.typeError, ascii "resolve ticket must be tuple"⟩

end RouteMatch
