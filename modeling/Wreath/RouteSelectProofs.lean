import Wreath.RouteGroupProofs
import Wreath.SearchProofs

/-! # Which route a caller gets — match against classify and resolve

What routing is for, said over lists: the routes that match a request, best first, and the
first of them that admits the caller (`settle`). Every walk of the table is such a walk
(`outcome`): over the static entry and the parameter routes of a method, over those of `GET`
after those of `HEAD`, over the one host or greedy route that owns the request. -/

namespace RouteSelect

open ByteScan RouteAccess RouteTable RouteMatch RouteGroup
open List (filter_cons filter_filter forall₂_cons map_cons mem_cons_self mem_filter mem_map)

variable {H : Type}

/-! ## The first that admits the caller -/

variable (mask : Nat)

def admitted (c : Candidate H) : Bool := decide (Admits c.clauses mask)

/-- **THE CHOICE**: the first candidate that admits the mask. -/
def settle (cands : List (Candidate H)) : Option (Match H) :=
  (cands.find? (admitted mask)).map (·.matched)

/-- The candidates before the choice. -/
def passed (cands : List (Candidate H)) : List (Candidate H) := cands.takeWhile (!admitted mask ·)

def appendAll (out : TicketOut H) (cands : List (Candidate H)) : TicketOut H :=
  cands.foldl TicketOut.append out

/-- A walk: the choice, with everything passed over in the ticket. -/
def outcome (cands : List (Candidate H)) (out : TicketOut H) : Option (Match H) × TicketOut H :=
  (settle mask cands, appendAll out (passed mask cands))

variable {mask : Nat}

theorem outcome_admitted {c : Candidate H} (h : admitted mask c = true) (cands : List (Candidate H))
    (out : TicketOut H) : outcome mask (c :: cands) out = (some c.matched, out) := by
  rw [outcome, settle, passed, List.find?_cons_of_pos h,
    List.takeWhile_cons_of_neg (by rw [h]; exact nofun)]
  rfl

theorem outcome_passed {c : Candidate H} (h : admitted mask c = false) (cands : List (Candidate H))
    (out : TicketOut H) : outcome mask (c :: cands) out = outcome mask cands (out.append c) := by
  rw [outcome, settle, passed, List.find?_cons_of_neg (by rw [h]; exact nofun),
    List.takeWhile_cons_of_pos (by rw [h]; rfl)]
  rfl

/-- One walk after another. -/
def andThen (first : Option (Match H) × TicketOut H)
    (next : TicketOut H → Option (Match H) × TicketOut H) : Option (Match H) × TicketOut H :=
  match first with
  | (some m, out) => (some m, out)
  | (none, out) => next out

theorem outcome_append (mask : Nat) (xs ys : List (Candidate H)) :
    ∀ out : TicketOut H, outcome mask (xs ++ ys) out
      = andThen (outcome mask xs out) (outcome mask ys) := by
  induction xs with
  | nil => exact fun out => rfl
  | cons x xs ih =>
    intro out
    rw [List.cons_append]
    cases hx : admitted mask x with
    | true => rw [outcome_admitted hx, outcome_admitted hx]; rfl
    | false => rw [outcome_passed hx, outcome_passed hx, ih]

theorem settle_append (xs ys : List (Candidate H)) :
    settle mask (xs ++ ys) = (settle mask xs).or (settle mask ys) := by
  rw [settle, List.find?_append, settle, settle]
  cases xs.find? (admitted mask) with
  | none | some => rfl

variable {cands : List (Candidate H)}

theorem settle_eq_none : settle mask cands = none ↔ ∀ c ∈ cands, ¬ Admits c.clauses mask := by
  rw [settle, Option.map_eq_none_iff, List.find?_eq_none]
  refine forall₂_congr fun c _ => ?_
  rw [admitted, decide_eq_true_iff]

theorem passed_all (h : settle mask cands = none) : passed mask cands = cands := by
  rw [passed, List.takeWhile_eq_self_iff]
  intro c hc
  rw [admitted, decide_eq_false (settle_eq_none.mp h c hc)]
  rfl

theorem admitted_eligible (m : Match H) (clauses : List Nat) :
    routeEligible (compileMasks clauses) clauses (ofMask mask) = admitted mask ⟨m, clauses⟩ := by
  rw [Bool.eq_iff_iff, routeEligible_iff, admitted, decide_eq_true_iff]

theorem admitted_any (m : Match H) (clauses : List Nat) :
    clauses.any (clauseEligible · (ofMask mask)) = admitted mask ⟨m, clauses⟩ := by
  rw [Bool.eq_iff_iff, any_eligible_iff, admitted, decide_eq_true_iff]

/-! ## Ordinary routes by priority -/

/-- A literal fits itself, a parameter fits everything. -/
def SegmentFits : Segment → Bytes → Prop
  | .literal bytes, seg => bytes = seg
  | .param _, _ => True

theorem verify_iff {pattern : List Segment} :
    ∀ {segs : List Bytes}, pattern.length = segs.length → (((pattern.zip segs).all fun
        | (.literal bytes, seg) => bytes == seg
        | (.param _, _) => true) = true
        ↔ List.Forall₂ SegmentFits pattern segs) := by
  induction pattern with
  | nil =>
    intro segs hlen
    obtain rfl := List.length_eq_zero_iff.mp hlen.symm
    exact ⟨fun _ => .nil, fun _ => rfl⟩
  | cons p pattern ih =>
    intro segs hlen
    cases segs with
    | nil => cases hlen
    | cons seg segs =>
      rw [List.zip_cons_cons, List.all_cons, Bool.and_eq_true, ih (Nat.succ.inj hlen), forall₂_cons]
      refine and_congr_left fun _ => ?_
      cases p with
      | literal bytes => exact beq_iff_eq
      | param name => exact ⟨fun _ => trivial, fun _ => rfl⟩

/-- The parameter routes of a method that match, best first. -/
def rankedRoutes (r : Registry H) (method : Bytes) (segs : List Bytes) : List (BRoute H) :=
  ((r.candidates method segs.length).insertionSort Precedes).filter (verify · segs)

instance : Std.Total (Precedes (H := H)) where
  total x y := by
    rw [Precedes, Precedes]
    omega

instance : IsTrans (BRoute H) Precedes where
  trans x y z := by
    rw [Precedes, Precedes, Precedes]
    omega

variable (r : Registry H)

/-- More literals first, then the earlier route. -/
theorem rankedRoutes_pairwise (method : Bytes)
    (segs : List Bytes) : (rankedRoutes r method segs).Pairwise Precedes :=
  (List.pairwise_insertionSort Precedes _).filter _

/-- Exactly the routes of the method that fit. -/
theorem mem_rankedRoutes {r : Registry H} {method : Bytes} {segs : List Bytes} {route : BRoute H} :
    route ∈ rankedRoutes r method segs ↔ route ∈ r.routes ∧ route.method = method
        ∧ List.Forall₂ SegmentFits route.segs segs := by
  rw [rankedRoutes, mem_filter, List.mem_insertionSort,
    Registry.candidates, mem_filter, Bool.and_eq_true, beq_iff_eq,
    beq_iff_eq]
  constructor
  · rintro ⟨⟨hmem, hlen, hmethod⟩, hverify⟩
    exact ⟨hmem, hmethod, (verify_iff hlen).mp hverify⟩
  · rintro ⟨hmem, hmethod, hfits⟩
    exact ⟨⟨hmem, hfits.length_eq, hmethod⟩, (verify_iff hfits.length_eq).mpr hfits⟩

/-- Their matches, for a path that begins with a slash. -/
def rankedParams (r : Registry H) (method path : Bytes) : List (Candidate H) :=
  if path.head? ≠ some slash then []
  else
    match brtScan path with
    | none => []
    | some segs => (rankedRoutes r method segs).map (routeCandidate segs)

/-- The ordinary routes of a method that match, best first: the static one, then the
    parameter routes. -/
def ranked (r : Registry H) (method path : Bytes) : List (Candidate H) :=
  ((r.statics.filter (·.method == method)).find? (·.path == path)).toList.map staticCandidate
    ++ rankedParams r method path

/-- The ordinary candidates of a request; `HEAD` goes on to `GET`. -/
def candidates (r : Registry H) (method path : Bytes) : List (Candidate H) :=
  ranked r method path ++ if method = head then ranked r get path else []

variable {segs : List Bytes}

theorem tryRoutes_eq :
    ∀ (routes : List (BRoute H)) (out : TicketOut H), tryRoutes (ofMask mask) segs routes out
        = outcome mask ((routes.filter (verify · segs)).map (routeCandidate segs)) out := by
  intro routes
  induction routes with
  | nil => exact fun out => rfl
  | cons r routes ih =>
    intro out
    rw [tryRoutes]
    cases hv : verify r segs with
    | false =>
      rw [filter_cons, hv]
      exact ih out
    | true =>
      rw [filter_cons, if_pos hv, map_cons]
      have helig : routeEligible r.cmasks r.accessClauses (ofMask mask)
          = admitted mask (routeCandidate segs r) :=
        admitted_eligible _ r.accessClauses
      rw [helig]
      cases hadm : admitted mask (routeCandidate segs r) with
      | true => rw [outcome_admitted hadm]; rfl
      | false => rw [outcome_passed hadm]; exact ih _

theorem lookup_map {α β : Type} [BEq α] [LawfulBEq α] (f : α → β) (a : α) (l : List α) :
    (l.map fun x => (x, f x)).lookup a = if a ∈ l then some (f a) else none := by
  split
  · next h => exact List.lookup_graph f h
  · next h =>
    rw [List.lookup_eq_none_iff]
    rintro _ hp
    obtain ⟨x, hx, rfl⟩ := mem_map.mp hp
    exact bne_iff_ne.mpr fun hax => h (hax ▸ hx)

/-- A method without an entry has no routes. -/
theorem compile_methodGroups (method : Bytes) :
    r.compile.methodGroups method = r.methodGroups method := by
  rw [Compiled.methodGroups, Registry.compile]
  simp only [lookup_map]
  split
  · rfl
  · rename_i hroute
    rw [List.mem_eraseDups, List.mem_append, not_or] at hroute
    obtain ⟨hstatics, hroutes⟩ := hroute
    have hnil : r.statics.filter (·.method == method) = [] := by
      refine List.filter_eq_nil_iff.mpr fun e he hm => hstatics ?_
      exact mem_map.mpr ⟨e, he, eq_of_beq hm⟩
    have hnone : ∀ nseg, r.groupBuild method nseg = none := by
      intro nseg
      refine if_pos (List.filter_eq_nil_iff.mpr fun e he hm => hroutes ?_)
      rw [Bool.and_eq_true] at hm
      exact mem_map.mpr ⟨e, he, eq_of_beq hm.2⟩
    rw [Registry.methodGroups, hnil]
    exact congrArg (MethodGroups.mk []) (funext fun nseg => (hnone nseg).symm)

theorem candidates_nseg {r : Registry H} {method : Bytes} {nseg : Nat} :
    ∀ route ∈ r.candidates method nseg, route.segs.length = nseg := by
  intro route h
  have hkeep := (mem_filter.mp h).2
  rw [Bool.and_eq_true] at hkeep
  exact eq_of_beq hkeep.1

variable (method path : Bytes)

/-- The routes the group search of `brt_match_impl` visits. -/
def groupSearch (groups : MethodGroups H) (path : Bytes) : List (BRoute H) :=
  match brtScan path with
  | none => []
  | some segs =>
    match groups.byNseg segs.length with
    | none => []
    | some g => (survivors g segs).filter (verify · segs)

theorem tryRoutes_filter (caller : Caller) : ∀ (routes : List (BRoute H)) (out : TicketOut H),
      tryRoutes caller segs routes out
        = tryRoutes caller segs (routes.filter (verify · segs)) out := by
  intro routes
  induction routes with
  | nil => exact fun out => rfl
  | cons route routes ih =>
    intro out
    cases hv : verify route segs with
    | false => rw [tryRoutes, hv, filter_cons, hv]; exact ih out
    | true => rw [filter_cons, if_pos hv, tryRoutes, tryRoutes, ih, ih]

theorem groupSearch_ranked {path : Bytes} (hscan : brtScan path = some segs) :
    groupSearch (r.methodGroups method) path = rankedRoutes r method segs := by
  rw [groupSearch, hscan]
  dsimp only [Registry.methodGroups]
  rw [Registry.groupBuild]
  by_cases hnil : r.candidates method segs.length = []
  · rw [if_pos hnil, rankedRoutes, hnil]
    rfl
  · rw [if_neg hnil]
    exact survivors_filter candidates_nseg

/-- The walk of a group is a walk of the routes its search visits. -/
theorem matchGroup_search (groups : MethodGroups H) {path : Bytes}
    (hslash : path.head? = some slash) (hscan : brtScan path = some segs) (caller : Caller)
    (out : TicketOut H) :
    matchGroup groups path caller out = tryRoutes caller segs (groupSearch groups path) out := by
  rw [matchGroup, if_neg (not_not.mpr hslash), groupSearch, hscan]
  dsimp only
  cases groups.byNseg segs.length with
  | none => rfl
  | some g => exact tryRoutes_filter ..

theorem matchGroup_eq (mask : Nat) (out : TicketOut H) :
    matchGroup (r.methodGroups method) path (ofMask mask) out
      = outcome mask (rankedParams r method path) out := by
  rw [rankedParams]
  by_cases hslash : path.head? = some slash
  · rw [if_neg (not_not.mpr hslash)]
    cases hscan : brtScan path with
    | none => rw [matchGroup, if_neg (not_not.mpr hslash), hscan]; rfl
    | some segs =>
      rw [matchGroup_search _ hslash hscan, groupSearch_ranked r method hscan, tryRoutes_eq,
        rankedRoutes, filter_filter]
      simp only [Bool.and_self]
      rfl
  · rw [matchGroup, if_pos hslash, if_pos hslash]
    rfl

/-- **ONE METHOD**: the table walks its ordinary routes best first. -/
theorem matchImpl_eq (mask : Nat) (out : TicketOut H) :
    matchImpl r.compile method path (ofMask mask) out
      = outcome mask (ranked r method path) out := by
  rw [matchImpl, compile_methodGroups, ranked]
  rw [show (r.methodGroups method).statics = r.statics.filter (·.method == method) from rfl]
  cases (r.statics.filter (·.method == method)).find? (·.path == path) with
  | none => exact matchGroup_eq r method path mask out
  | some entry =>
    show _ = outcome mask (staticCandidate entry :: rankedParams r method path) out
    simp only [admitted_any (staticCandidate entry).matched]
    cases hadm : admitted mask (staticCandidate entry) with
    | true => rw [outcome_admitted hadm]; exact if_pos hadm
    | false =>
      rw [outcome_passed hadm, ← matchGroup_eq]
      exact if_neg (Bool.eq_false_iff.mp hadm)

/-- **ALL ORDINARY ROUTES.** -/
theorem dispatch_eq (mask : Nat) (out : TicketOut H) :
    dispatch r.compile method path (ofMask mask) out
      = outcome mask (candidates r method path) out := by
  rw [candidates, outcome_append, dispatch, matchImpl_eq]
  cases outcome mask (ranked r method path) out with
  | mk found out =>
    cases found with
    | some m => rfl
    | none =>
      show (if method = head then _ else _) = outcome mask _ out
      split
      · exact matchImpl_eq r get path mask out
      · rfl

/-! ## The compiled search and the linear scan -/

/-- A route compared with a path segment by segment. -/
def fits : List Segment → List Bytes → Bool
  | [], [] => true
  | .literal bytes :: pattern, seg :: segs => bytes == seg && fits pattern segs
  | .param _ :: pattern, _ :: segs => fits pattern segs
  | _, _ => false

/-- The routes with more literals first, then in registration order, each compared with the path. -/
def linearScan (routes : List (BRoute H)) (segs : List Bytes) : List (BRoute H) :=
  (routes.insertionSort Precedes).filter fun route => fits route.segs segs

theorem fits_iff (pattern : List Segment) :
    fits pattern segs = true ↔ List.Forall₂ SegmentFits pattern segs := by
  fun_induction fits pattern segs with
  | case1 => exact ⟨fun _ => .nil, fun _ => rfl⟩
  | case2 bytes pattern seg segs ih =>
    rw [Bool.and_eq_true, beq_iff_eq, ih, forall₂_cons]
    rfl
  | case3 name pattern seg segs ih =>
    rw [ih, forall₂_cons]
    exact (and_iff_right trivial).symm
  | case4 pattern segs hnil hliteral hparam =>
    refine ⟨fun h => absurd h Bool.false_ne_true, fun h => ?_⟩
    cases h with
    | nil => exact absurd rfl (hnil rfl)
    | @cons p seg pattern segs =>
      cases p with
      | literal bytes => exact absurd rfl (hliteral bytes pattern seg segs rfl)
      | param name => exact absurd rfl (hparam name pattern seg segs rfl)

theorem fits_eq (route : BRoute H) :
    fits route.segs segs = (route.nseg == segs.length && verify route segs) := by
  rw [Bool.eq_iff_iff, fits_iff, Bool.and_eq_true, beq_iff_eq]
  constructor
  · intro h
    exact ⟨h.length_eq, (verify_iff h.length_eq).mpr h⟩
  · rintro ⟨hlen, h⟩
    exact (verify_iff hlen).mp h

theorem rankedRoutes_scan :
    rankedRoutes r method segs = linearScan (r.routes.filter (·.method == method)) segs := by
  rw [rankedRoutes, linearScan, ← StableSort.insertionSort_filter, ← StableSort.insertionSort_filter,
    Registry.candidates, filter_filter, filter_filter]
  refine congrArg _ (List.filter_congr fun route _ => ?_)
  rw [fits_eq, Bool.and_left_comm, Bool.and_assoc]

/-- **THE COMPILED SEARCH IS THE LINEAR SCAN**: keys, masks, the order of the positions and
    the early stop neither lose nor move a match. -/
theorem group_search_scans (hsegs : ∀ route ∈ r.routes, route.segs.length ≤ maxSegments)
    (hslash : path.head? = some slash) : groupSearch (r.compile.methodGroups method) path
        = linearScan (r.routes.filter (·.method == method)) (path.tail.splitOn slash)
      ∧ ∀ caller out, matchGroup (r.compile.methodGroups method) path caller out
        = tryRoutes caller (path.tail.splitOn slash)
          (linearScan (r.routes.filter (·.method == method)) (path.tail.splitOn slash)) out := by
  obtain ⟨rest, rfl⟩ := List.head?_eq_some_iff.mp hslash
  rw [compile_methodGroups, ← rankedRoutes_scan, List.tail_cons]
  by_cases hlen : (rest.splitOn slash).length ≤ maxSegments
  · have hscan : brtScan (slash :: rest) = some (rest.splitOn slash) := if_pos hlen
    refine ⟨groupSearch_ranked r method hscan, fun caller out => ?_⟩
    rw [matchGroup_search _ hslash hscan, groupSearch_ranked r method hscan]
  · have hscan : brtScan (slash :: rest) = none := if_neg hlen
    have hnone : rankedRoutes r method (rest.splitOn slash) = [] := by
      refine List.eq_nil_iff_forall_not_mem.mpr fun route hroute => hlen ?_
      obtain ⟨hmem, _, hfits⟩ := mem_rankedRoutes.mp hroute
      exact hfits.length_eq ▸ hsegs route hmem
    rw [hnone, groupSearch, hscan]
    refine ⟨rfl, fun caller out => ?_⟩
    rw [matchGroup, if_neg (not_not.mpr hslash), hscan]
    rfl

/-- Two routes, the later one with the literal in front. -/
def reportRoutes : Registry Nat :=
  { Registry.empty with routes := [
      ⟨get, [.param (ascii "a"), .param (ascii "b")], 0, 0, [0]⟩,
      ⟨get, [.literal (ascii "x"), .param (ascii "b")], 1, 1, [0]⟩] }

theorem reportRoutes_scanned :
    (groupSearch (reportRoutes.compile.methodGroups get) (ascii "/x/y")).map (·.handler)
      = [1, 0] := by
  rw [(group_search_scans reportRoutes get (ascii "/x/y") (by decide) (by decide)).1]
  decide

/-! ## The route that owns a request -/

/-- A route of one method serves a request of another only as `GET` serves `HEAD`. -/
def servesMethod (method routeMethod : Bytes) : Bool :=
  routeMethod == method || (method == head && routeMethod == get)

/-- The first host route, or without a host the first greedy route, that accepts the request. -/
def owner (routes : List (BDynamicRoute H)) (method path : Bytes)
    (host : Option Bytes) : Option (Candidate H) :=
  match brtScan path, host.mapM dynamicHostScan with
  | some segs, some labels =>
    (routes.find? fun route =>
      (route.hostRoute == host.isSome && servesMethod method route.method)
        && dynamicAccepts route segs labels).map
      (dynamicCandidate segs labels)
  | _, _ => none

variable {routes : List (BDynamicRoute H)}

theorem tryDynamic_eq (labels : Option (List Bytes)) : ∀ (places : List Nat) (out : TicketOut H),
      tryDynamic routes segs labels (ofMask mask) places out = outcome mask
            (((places.filterMap (routes[·]?)).find? (dynamicAccepts · segs labels)).map
                (dynamicCandidate segs labels)).toList out := by
  intro places
  induction places with
  | nil => exact fun out => rfl
  | cons i places ih =>
    intro out
    rw [tryDynamic]
    cases hi : routes[i]? with
    | none =>
      rw [List.filterMap_cons_none hi]
      exact ih out
    | some route =>
      rw [List.filterMap_cons_some hi, List.find?_cons]
      cases hacc : dynamicAccepts route segs labels with
      | false =>
        simp only [hacc]
        exact ih out
      | true =>
        have helig : routeEligible route.cmasks route.accessClauses (ofMask mask)
              = admitted mask (dynamicCandidate segs labels route) :=
          admitted_eligible _ route.accessClauses
        simp only [hacc, helig]
        show _ = outcome mask [dynamicCandidate segs labels route] out
        cases hadm : admitted mask (dynamicCandidate segs labels route) with
        | true => rw [outcome_admitted hadm]; rfl
        | false => rw [outcome_passed hadm]; rfl

/-- The places of the routes that satisfy `p`. -/
def placesFrom (p : BDynamicRoute H → Bool) (n : Nat)
    (routes : List (BDynamicRoute H)) : List Nat :=
  ((routes.zipIdx n).filter fun entry => p entry.1).map (·.2)

theorem placesFrom_cons (p : BDynamicRoute H → Bool) (n : Nat) (route : BDynamicRoute H) :
    placesFrom p n (route :: routes) = if p route = true then n :: placesFrom p (n + 1) routes
        else placesFrom p (n + 1) routes := by
  rw [placesFrom, List.zipIdx_cons, filter_cons]
  split <;> rfl

variable {p : BDynamicRoute H → Bool}

theorem placesFrom_ge {n i : Nat} (h : i ∈ placesFrom p n routes) : n ≤ i := by
  obtain ⟨entry, hentry, rfl⟩ := mem_map.mp h
  exact (List.mem_zipIdx (mem_filter.mp hentry).1).1

theorem mergePlaces_nil (places : List Nat) : mergePlaces places [] = places := by
  induction places with
  | nil => rfl
  | cons i places ih => exact congrArg (List.cons i) ih

/-- A place before all others of its list and of the other list comes first. -/
theorem mergePlaces_left {n : Nat} {xs ys : List Nat} (hys : ∀ y ∈ ys, n < y) :
    mergePlaces (n :: xs) ys = n :: mergePlaces xs ys := by
  rw [mergePlaces]
  cases ys with
  | nil => rfl
  | cons y ys =>
    have hy : (!decide (n < y)) = false := by
      rw [decide_eq_true (hys y mem_cons_self)]
      rfl
    rw [List.takeWhile_cons_of_neg (by rw [hy]; exact nofun),
      List.dropWhile_cons_of_neg (by rw [hy]; exact nofun)]
    rfl

theorem mergePlaces_right {n : Nat} {xs ys : List Nat} (hxs : ∀ x ∈ xs, n < x) :
    mergePlaces xs (n :: ys) = n :: mergePlaces xs ys := by
  cases xs with
  | nil => rfl
  | cons x xs =>
    have hx : (!decide (x < n)) = true := by
      rw [decide_eq_false (by have := hxs x mem_cons_self; omega)]
      rfl
    rw [mergePlaces, mergePlaces, List.takeWhile_cons, List.dropWhile_cons, if_pos hx, hx]
    rfl

/-- Walking two kinds of routes together is walking both kinds in registration order. -/
theorem mergePlaces_eq {q : BDynamicRoute H → Bool}
    (hpq : ∀ route, ¬ (p route = true ∧ q route = true)) :
    ∀ (routes : List (BDynamicRoute H)) (n : Nat),
      mergePlaces (placesFrom p n routes) (placesFrom q n routes)
        = placesFrom (fun route => p route || q route) n routes := by
  intro routes
  induction routes with
  | nil => exact fun n => rfl
  | cons route routes ih =>
    intro n
    have hp : ∀ i ∈ placesFrom p (n + 1) routes, n < i := fun i hi => placesFrom_ge hi
    have hq : ∀ i ∈ placesFrom q (n + 1) routes, n < i := fun i hi => placesFrom_ge hi
    simp only [placesFrom_cons]
    by_cases h1 : p route = true
    · have h2 : ¬ q route = true := fun h2 => hpq route ⟨h1, h2⟩
      rw [if_pos h1, if_neg h2, if_pos (by rw [h1]; rfl), mergePlaces_left hq, ih]
    · by_cases h2 : q route = true
      · rw [if_neg h1, if_pos h2, if_pos (by rw [h2, Bool.or_true]), mergePlaces_right hp, ih]
      · rw [if_neg h1, if_neg h2, if_neg (by simp [h1, h2]), ih]

/-- Places lead back to the routes they were taken from. -/
theorem placesFrom_routes (p : BDynamicRoute H → Bool) :
    (placesFrom p 0 routes).filterMap (routes[·]?) = routes.filter p := by
  rw [placesFrom, List.filterMap_map]
  have hback : ∀ entry ∈ routes.zipIdx.filter fun entry => p entry.1,
      ((routes[·]?) ∘ (·.2)) entry = (some ∘ (·.1)) entry := by
    intro entry hentry
    exact List.mem_zipIdx_iff_getElem?.mp (mem_filter.mp hentry).1
  rw [List.filterMap_congr hback, List.filterMap_eq_map]
  conv_rhs => rw [← List.zipIdx_map_fst 0 routes]
  rw [List.filter_map]
  rfl

/-- **THE OWNER DECIDES**: a walk of the dynamic routes is a walk over the owner alone. -/
theorem dynamicDispatch_eq (host : Option Bytes) (out : TicketOut H) :
    dynamicDispatch (.compiled r.compile) method path host (ofMask mask) out
      = outcome mask (owner r.dynamicRoutes method path host).toList out := by
  rw [dynamicDispatch, owner]
  cases hscan : brtScan path with
  | none => rfl
  | some segs =>
    cases hlabels : host.mapM dynamicHostScan with
    | none => rfl
    | some labels =>
      simp only
      rw [tryDynamic_eq]
      -- both branches list the routes of the right kind and method
      have hplaces : mergePlaces (placesFrom (fun route => route.hostRoute == host.isSome
            && route.method == method) 0 r.dynamicRoutes)
          (if method = head then
            placesFrom (fun route => route.hostRoute == host.isSome
              && route.method == get) 0 r.dynamicRoutes
          else [])
          = placesFrom (fun route => route.hostRoute == host.isSome
            && servesMethod method route.method) 0 r.dynamicRoutes := by
        by_cases hhead : method = head
        · subst hhead
          rw [if_pos rfl, mergePlaces_eq]
          · congr 1
            funext route
            rw [servesMethod, beq_self_eq_true, Bool.true_and, Bool.and_or_distrib_left]
          · rintro route ⟨h1, h2⟩
            rw [Bool.and_eq_true] at h1 h2
            have hsame := (eq_of_beq h1.2).symm.trans (eq_of_beq h2.2)
            exact absurd hsame (by decide)
        · rw [if_neg hhead, mergePlaces_nil]
          congr 1
          funext route
          rw [servesMethod, beq_eq_false_iff_ne.mpr hhead, Bool.false_and, Bool.or_false]
      have hwalk : (mergePlaces (PolicyRouteTable.dynamicGroup (.compiled r.compile)
            host.isSome method)
          (if method = head then
            PolicyRouteTable.dynamicGroup (.compiled r.compile) host.isSome get
          else [])).filterMap ((PolicyRouteTable.dynamicRoutes (.compiled r.compile))[·]?)
          = r.dynamicRoutes.filter fun route =>
            route.hostRoute == host.isSome && servesMethod method route.method := by
        rw [← placesFrom_routes, ← hplaces]
        rfl
      rw [hwalk, List.find?_filter]
      simp only [Bool.decide_and, Bool.decide_eq_true]

end RouteSelect
