import Wreath.RouteTicketProofs

/-! # No route is exposed — what an answer says about its route

A table is used by calls in any order: registrations until it is compiled, requests before
and after. Beside it stands the list of registrations it accepted (`run`), and every answer
leads back to one of them, with its method, pattern, host and a clause of the caller's
(`answer_candidate`). Host and greedy routes do not look at the path's first byte, and answer
paths without a slash as well (`asterisk_answered`). -/

namespace RouteExposure

open ByteScan RouteAccess RouteTable RouteMatch RouteGroup RouteSelect Option Bool
open RouteTicket

variable {H : Type}

/-! ## What was registered -/

/-- An accepted registration, through `add` or `add_dynamic`. -/
structure Registration (H : Type) where
  dynamic : Bool
  path : Bytes
  method : Bytes
  host : Option Bytes
  handler : H
  clauses : List Nat

/-- The segments of a path that begins with a slash. -/
def segments (path : Bytes) : List Bytes := (path.drop 1).splitOn slash

/-- `*` and parameters of a dynamic route take any segment but the empty one. -/
def DynamicFits : BDynamicSegment → Bytes → Prop
  | .literal bytes, seg => bytes = seg
  | .greedy _, _ => True
  | _, seg => seg ≠ []

/-- A greedy pattern fits by all but its last segment, which takes the rest. -/
def DynamicPathFits (pattern : List BDynamicSegment) (segs : List Bytes) : Prop :=
  if pattern.any BDynamicSegment.isGreedy then
    ∃ fixed rest, segs = fixed ++ rest ∧ rest ≠ [] ∧ List.Forall₂ DynamicFits pattern.dropLast fixed
  else List.Forall₂ DynamicFits pattern segs

/-- The path is one the pattern was written for. -/
def Registration.PathFits (reg : Registration H) (path : Bytes) : Prop :=
  path.head? = some slash ∧
    if reg.dynamic then
      DynamicPathFits ((segments reg.path).map (dynamicSegmentCompile false)) (segments path)
    else
      List.Forall₂ SegmentFits ((segments reg.path).map segmentCompile) (segments path)

/-- A route without a host pattern is for every host. -/
def HostFits : Option Bytes → Option Bytes → Prop
  | none, _ => True
  | some _, none => False
  | some pattern, some host =>
    List.Forall₂ DynamicFits (dynamicHostCompile pattern) (host.splitOn (ch '.'))

/-- **SERVING**: the registration is for this method, path and host. -/
structure Registration.Serves (reg : Registration H) (method path : Bytes)
    (host : Option Bytes) : Prop where
  method : servesMethod method reg.method = true
  path : reg.PathFits path
  host : HostFits reg.host host

/-! ## Calls -/

/-- One call of a table. -/
inductive Call (H : Type) where
  | add (path method : Bytes) (handler : H) (clauses : Option (List Int))
  | addDynamic (path method : Bytes) (host : Option Bytes) (handler : H)
      (clauses : Option (List Int))
  | compile
  | match (method path : Bytes) (caller : Int)
  | classify (method path : Bytes)
  | classifyRequest (method path host : Bytes)

/-- The table after a call; one that raises leaves it as it was. -/
def after (t : PolicyRouteTable H) : Call H → PolicyRouteTable H
  | .add path method handler clauses =>
    match t.add path method handler clauses with
    | .ok t' => t'
    | .error _ => t
  | .addDynamic path method host handler clauses =>
    match t.addDynamic path method host handler clauses with
    | .ok t' => t'
    | .error _ => t
  | .compile => t.compile
  | .match method path caller =>
    match brtMatch t method path caller with
    | .ok (t', _) => t'
    | .error _ => t
  | .classify method path => (RouteMatch.classify t method path).1
  | .classifyRequest method path host =>
    (RouteMatch.classifyRequest t method path host).1

/-- The registration a call makes, if it does not raise. -/
def accepted (t : PolicyRouteTable H) : Call H → List (Registration H)
  | .add path method handler clauses =>
    match t.add path method handler clauses, accessClauses clauses with
    | .ok _, .ok clauses => [⟨false, path, method, none, handler, clauses⟩]
    | _, _ => []
  | .addDynamic path method host handler clauses =>
    match t.addDynamic path method host handler clauses,
      accessClauses clauses with
    | .ok _, .ok clauses => [⟨true, path, method, host, handler, clauses⟩]
    | _, _ => []
  | _ => []

/-- A table with the registrations it accepted. -/
abbrev State (H : Type) := PolicyRouteTable H × List (Registration H)

def step (s : State H) (call : Call H) : State H := (after s.1 call, s.2 ++ accepted s.1 call)

def run (calls : List (Call H)) : State H := calls.foldl step (.new, [])

/-! ## Every record was registered -/

/-- What a static entry keeps of its registration. -/
structure StaticFrom (e : StaticEntry H) (reg : Registration H) : Prop where
  dynamic : reg.dynamic = false
  host : reg.host = none
  path : reg.path = e.path
  rooted : e.path.head? = some slash
  method : reg.method = e.method
  handler : reg.handler = e.handler
  clauses : reg.clauses = e.accessClauses

/-- What a parameter route keeps of its registration. -/
structure RouteFrom (route : BRoute H) (reg : Registration H) : Prop where
  dynamic : reg.dynamic = false
  host : reg.host = none
  segs : route.segs = (segments reg.path).map segmentCompile
  method : reg.method = route.method
  handler : reg.handler = route.handler
  clauses : reg.clauses = route.accessClauses

/-- What a host or greedy route keeps of its registration. -/
structure DynamicFrom (route : BDynamicRoute H) (reg : Registration H) : Prop where
  dynamic : reg.dynamic = true
  host : route.host = reg.host.map dynamicHostCompile
  path : route.path = (segments reg.path).map (dynamicSegmentCompile false)
  method : reg.method = route.method
  handler : reg.handler = route.handler
  clauses : reg.clauses = route.accessClauses

/-- Every record of the registry was registered. -/
structure Holds (r : Registry H) (regs : List (Registration H)) : Prop where
  statics : ∀ e ∈ r.statics, ∃ reg ∈ regs, StaticFrom e reg
  routes : ∀ route ∈ r.routes, ∃ reg ∈ regs, RouteFrom route reg
  dynamic : ∀ route ∈ r.dynamicRoutes, ∃ reg ∈ regs, DynamicFrom route reg

variable {regs : List (Registration H)} {r : Registry H}

theorem Holds.append (h : Holds r regs) (more : List (Registration H)) :
    Holds r (regs ++ more) where
  statics e he :=
    let ⟨reg, hreg, hfrom⟩ := h.statics e he
    ⟨reg, List.mem_append_left more hreg, hfrom⟩
  routes e he :=
    let ⟨reg, hreg, hfrom⟩ := h.routes e he
    ⟨reg, List.mem_append_left more hreg, hfrom⟩
  dynamic e he :=
    let ⟨reg, hreg, hfrom⟩ := h.dynamic e he
    ⟨reg, List.mem_append_left more hreg, hfrom⟩

variable {segs : List Bytes} {path : Bytes}

theorem brtScan_some (h : brtScan path = some segs) : segs = segments path := by
  cases path with
  | nil => cases h
  | cons b rest =>
    rw [brtScan] at h
    split at h
    · exact (some.inj h).symm
    · cases h

variable {method : Bytes} {given : Option (List Int)}

/-- What `add` can do to the registry. -/
theorem add_ok {r' : Registry H} {handler : H} (h : r.add path method handler given = .ok r') :
    ∃ clauses, accessClauses given = .ok clauses ∧ ((path.head? = some slash
          ∧ r' = { r with statics := r.statics ++ [⟨method, path, handler, clauses⟩] })
        ∨ r' = { r with routes := r.routes ++ [⟨method,
            (segments path).map segmentCompile, r.routes.length, handler,
            clauses⟩] }) := by
  revert h
  fun_cases r.add path method handler given with
  | case4 clauses hclauses hslash =>
    rintro ⟨⟩
    exact ⟨clauses, hclauses, .inl ⟨not_not.mp hslash, rfl⟩⟩
  | case7 clauses hclauses _ _ raw hscan =>
    rw [brtScan_some hscan]
    rintro ⟨⟩
    exact ⟨clauses, hclauses, .inr rfl⟩
  | _ => rintro ⟨⟩

variable {host : Option Bytes}

/-- What `add_dynamic` can do to the registry. -/
theorem addDynamic_ok {r' : Registry H} {handler : H}
    (h : r.addDynamic path method host handler given = .ok r') :
    ∃ clauses, accessClauses given = .ok clauses
      ∧ r' = { r with dynamicRoutes := r.dynamicRoutes ++ [⟨method,
          (segments path).map (dynamicSegmentCompile false),
          host.map dynamicHostCompile, handler, clauses⟩] } := by
  revert h
  fun_cases r.addDynamic path method host handler given with
  | case5 clauses hclauses _ segs hsegs =>
    have hpath : segs = (segments path).map (dynamicSegmentCompile false) := by
      revert hsegs
      fun_cases dynamicPathCompile path with
      | case3 raw hscan =>
        rw [← brtScan_some hscan]
        exact fun h => (Except.ok.inj h).symm
      | _ => rintro ⟨⟩
    rintro ⟨⟩
    subst hpath
    exact ⟨clauses, hclauses, rfl⟩
  | _ => rintro ⟨⟩

/-- **THE INVARIANT**: the table is a registry of accepted registrations, or was compiled
    from one. -/
def Stands (s : State H) : Prop :=
  ∃ r : Registry H, (s.1 = .registering r ∨ s.1 = .compiled r.compile) ∧ Holds r s.2

theorem Stands.compile {s : State H} (h : Stands s) : Stands (s.1.compile, s.2) := by
  obtain ⟨r, ht | ht, hholds⟩ := h
  · exact ⟨r, .inr (by rw [ht]; rfl), hholds⟩
  · exact ⟨r, .inr (by rw [ht]; rfl), hholds⟩

/-- The one new record is from the one new registration. -/
theorem mem_snoc_from {α β : Type} {R : α → β → Prop} {old : List α} {regs : List β} {a : α}
    {reg : β} (hold : ∀ x ∈ old, ∃ reg' ∈ regs ++ [reg], R x reg') (hnew : R a reg) :
    ∀ x ∈ old ++ [a], ∃ reg' ∈ regs ++ [reg], R x reg' := by
  intro x hx
  rcases List.mem_append.mp hx with hx | hx
  · exact hold x hx
  · rw [List.mem_singleton.mp hx]
    exact ⟨reg, List.mem_append_right _ (List.mem_singleton_self _), hnew⟩

theorem stands_add (h : Holds r regs) (handler : H) :
    Stands (step (.registering r, regs) (.add path method handler given)) := by
  rw [step, after, accepted, PolicyRouteTable.add]
  cases hadd : r.add path method handler given with
  | error e => exact ⟨r, .inl rfl, h.append _⟩
  | ok r' =>
    obtain ⟨clauses, hclauses, hcases⟩ := add_ok hadd
    rw [hclauses]
    refine ⟨r', .inl rfl, ?_⟩
    have hold := h.append [⟨false, path, method, none, handler, clauses⟩]
    rcases hcases with ⟨hrooted, rfl⟩ | rfl
    · exact ⟨mem_snoc_from hold.statics ⟨rfl, rfl, rfl, hrooted, rfl, rfl, rfl⟩, hold.routes,
        hold.dynamic⟩
    · exact ⟨hold.statics, mem_snoc_from hold.routes ⟨rfl, rfl, rfl, rfl, rfl, rfl⟩, hold.dynamic⟩

theorem stands_addDynamic (h : Holds r regs) (handler : H) :
    Stands (step (.registering r, regs) (.addDynamic path method host handler given)) := by
  rw [step, after, accepted, PolicyRouteTable.addDynamic]
  cases hadd : r.addDynamic path method host handler given with
  | error e => exact ⟨r, .inl rfl, h.append _⟩
  | ok r' =>
    obtain ⟨clauses, hclauses, rfl⟩ := addDynamic_ok hadd
    rw [hclauses]
    refine ⟨_, .inl rfl, ?_⟩
    have hold := h.append [⟨true, path, method, host, handler, clauses⟩]
    exact ⟨hold.statics, hold.routes, mem_snoc_from hold.dynamic ⟨rfl, rfl, rfl, rfl, rfl, rfl⟩⟩

/-- **ONE CALL** keeps the invariant. -/
theorem stands_step {s : State H} (h : Stands s) (call : Call H) : Stands (step s call) := by
  have hnone : ∀ t, Stands (t, s.2) → Stands (t, s.2 ++ []) := by
    intro t ht
    rwa [List.append_nil]
  cases call with
  | add path method handler given =>
    obtain ⟨t, regs⟩ := s
    obtain ⟨r, rfl | rfl, hholds⟩ := h
    · exact stands_add hholds handler
    · exact hnone _ ⟨r, .inr rfl, hholds⟩
  | addDynamic path method host handler given =>
    obtain ⟨t, regs⟩ := s
    obtain ⟨r, rfl | rfl, hholds⟩ := h
    · exact stands_addDynamic hholds handler
    · exact hnone _ ⟨r, .inr rfl, hholds⟩
  | compile => exact hnone _ h.compile
  | «match» method path caller =>
    refine hnone _ ?_
    rw [after, brtMatch]
    cases callerMask caller with
    | error e => exact h
    | ok caller =>
      simp only
      cases (dispatch s.1.compileGroups method path caller none).1 with
      | some | none => exact h.compile
  | classify method path => exact hnone _ h.compile
  | classifyRequest method path host =>
    refine hnone _ ?_
    rw [after, classifyRequest]
    split
    · exact h.compile
    · exact h

/-- **EVERY RUN** keeps it. -/
theorem stands_run (calls : List (Call H)) : Stands (run calls) := by
  have hall : ∀ (calls : List (Call H)) (s : State H), Stands s →
      Stands (calls.foldl step s) := by
    intro calls
    induction calls with
    | nil => exact fun s h => h
    | cons call calls ih => exact fun s h => ih _ (stands_step h call)
  exact hall calls _ ⟨.empty, .inl rfl, nofun, nofun, nofun⟩

/-! ## Candidates serve the request -/

/-- The candidate stands for a registration that serves the request. -/
def Backed (regs : List (Registration H)) (method path : Bytes)
    (host : Option Bytes) (c : Candidate H) : Prop :=
  ∃ reg ∈ regs, reg.handler = c.matched.handler ∧ reg.clauses = c.clauses
    ∧ reg.Serves method path host

/-- A pattern fits itself. -/
theorem segmentFits_self (path : Bytes) :
    List.Forall₂ SegmentFits ((segments path).map segmentCompile) (segments path) := by
  rw [List.forall₂_map_left_iff, List.forall₂_same]
  intro seg _
  rw [segmentCompile]
  split
  · exact trivial
  · exact rfl

theorem hostFits_none {reg : Registration H} (h : reg.host = none) : HostFits reg.host host := by
  rw [h]
  exact trivial

variable {c : Candidate H}

/-- The ordinary routes of one method that match serve it. -/
theorem ranked_backed (h : Holds r regs) {asked : Bytes} (hserve : servesMethod asked method = true)
    (hc : c ∈ ranked r method path) : Backed regs asked path host c := by
  rcases List.mem_append.mp hc with hc | hc
  · -- the static entry: the path is the pattern itself
    obtain ⟨e, he, rfl⟩ := List.mem_map.mp hc
    have hfound := mem_toList.mp he
    have hkey := List.find?_some hfound
    have hpath : e.path = path := eq_of_beq hkey
    obtain ⟨hmem, hmethod⟩ := List.mem_filter.mp (List.mem_of_find?_eq_some hfound)
    obtain ⟨reg, hreg, hfrom⟩ := h.statics e hmem
    refine ⟨reg, hreg, hfrom.handler, hfrom.clauses, ?_, ⟨?_, ?_⟩, ?_⟩
    · rw [hfrom.method, eq_of_beq hmethod]
      exact hserve
    · exact hpath ▸ hfrom.rooted
    · rw [hfrom.dynamic, hfrom.path, ← hpath]
      exact segmentFits_self e.path
    · exact hostFits_none hfrom.host
  · rw [rankedParams] at hc
    split at hc
    · cases hc
    rename_i hslash
    split at hc
    · cases hc
    rename_i segs hscan
    obtain ⟨route, hroute, rfl⟩ := List.mem_map.mp hc
    obtain ⟨hmem, hmethod, hfits⟩ := mem_rankedRoutes.mp hroute
    obtain ⟨reg, hreg, hfrom⟩ := h.routes route hmem
    refine ⟨reg, hreg, hfrom.handler, hfrom.clauses, ?_, ⟨?_, ?_⟩, ?_⟩
    · rw [hfrom.method, hmethod]
      exact hserve
    · exact not_not.mp hslash
    · rw [hfrom.dynamic, ← hfrom.segs, ← brtScan_some hscan]
      exact hfits
    · exact hostFits_none hfrom.host

theorem candidates_backed (h : Holds r regs) (host : Option Bytes)
    (hc : c ∈ candidates r method path) : Backed regs method path host c := by
  rcases List.mem_append.mp hc with hown | hget
  · exact ranked_backed h (by rw [servesMethod, beq_self_eq_true, Bool.true_or]) hown
  · by_cases hhead : method = head
    · rw [if_pos hhead] at hget
      exact ranked_backed h (by rw [hhead]; rfl) hget
    · rw [if_neg hhead] at hget
      cases hget

variable {pattern : List BDynamicSegment}

/-- A pattern matches when a first part of the segments fits it. -/
theorem dynamicSegmentsMatch_fits :
    ∀ {segs : List Bytes}, dynamicSegmentsMatch pattern segs = true →
      ∃ fixed rest, segs = fixed ++ rest ∧ List.Forall₂ DynamicFits pattern fixed := by
  induction pattern with
  | nil => exact fun {segs} _ => ⟨[], segs, rfl, .nil⟩
  | cons p pattern ih =>
    intro segs h
    cases segs with
    | nil => cases p <;> cases h
    | cons seg segs =>
      -- each kind of segment tests its own, then the rest
      have hboth : DynamicFits p seg ∧ dynamicSegmentsMatch pattern segs = true := by
        cases p with
        | literal bytes =>
          obtain ⟨heq, hrest⟩ := (and_eq_true _ _).mp h
          exact ⟨eq_of_beq heq, hrest⟩
        | greedy name => exact ⟨trivial, h⟩
        | wildcard | param =>
          obtain ⟨hne, hrest⟩ := (and_eq_true _ _).mp h
          exact ⟨bne_iff_ne.mp hne, hrest⟩
      obtain ⟨fixed, rest, rfl, hfits⟩ := ih hboth.2
      exact ⟨seg :: fixed, rest, rfl, .cons hboth.1 hfits⟩

/-- On as many segments as the pattern has, all of them fit. -/
theorem dynamicSegmentsMatch_exact (h : dynamicSegmentsMatch pattern segs = true)
    (hlen : segs.length = pattern.length) : List.Forall₂ DynamicFits pattern segs := by
  obtain ⟨fixed, rest, rfl, hfits⟩ := dynamicSegmentsMatch_fits h
  rw [List.length_append, hfits.length_eq] at hlen
  obtain rfl : rest = [] := List.length_eq_zero_iff.mp (by omega)
  rwa [List.append_nil]

theorem dynamicPathAccepts_fits {route : BDynamicRoute H}
    (h : dynamicPathAccepts route segs = true) : DynamicPathFits route.path segs := by
  rw [dynamicPathAccepts] at h
  rw [DynamicPathFits, show route.path.any _ = route.greedy from rfl]
  by_cases hgreedy : route.greedy = true
  · rw [if_pos hgreedy, and_eq_true] at h
    rw [if_pos hgreedy]
    obtain ⟨hlen, hmatch⟩ := h
    obtain ⟨fixed, rest, rfl, hfits⟩ := dynamicSegmentsMatch_fits hmatch
    refine ⟨fixed, rest, rfl, ?_, hfits⟩
    rintro rfl
    -- a greedy pattern has a last segment, and the path one to match it
    have hnonempty : route.path ≠ [] := by
      intro hnil
      rw [BDynamicRoute.greedy, hnil] at hgreedy
      cases hgreedy
    have hpos := List.length_pos_iff.mpr hnonempty
    have hle := of_decide_eq_true hlen
    have hfixed := hfits.length_eq
    rw [List.length_dropLast] at hfixed
    rw [List.append_nil] at hle
    omega
  · rw [if_neg hgreedy, and_eq_true] at h
    rw [if_neg hgreedy]
    exact dynamicSegmentsMatch_exact h.2 (eq_of_beq h.1)

theorem dynamicHostAccepts_fits {host : List BDynamicSegment} {labels : List Bytes}
    (h : dynamicHostAccepts (some host) (some labels) = true) :
    List.Forall₂ DynamicFits host labels := by
  rw [dynamicHostAccepts, and_eq_true] at h
  exact dynamicSegmentsMatch_exact h.2 (eq_of_beq h.1)

theorem dynamicHostScan_some {host : Bytes} {labels : List Bytes}
    (h : dynamicHostScan host = some labels) : labels = host.splitOn (ch '.') := by
  rw [dynamicHostScan] at h
  split at h
  · exact (some.inj h).symm
  · cases h

/-- **THE OWNER SERVES**, if the path begins with a slash. -/
theorem owner_backed (h : Holds r regs) (hslash : path.head? = some slash)
    (hc : c ∈ owner r.dynamicRoutes method path host) : Backed regs method path host c := by
  rw [owner] at hc
  split at hc
  · rename_i segs labels hscan hlabels
    obtain ⟨route, hfound, rfl⟩ := mem_map.mp hc
    have htests := List.find?_some hfound
    rw [and_eq_true, and_eq_true] at htests
    obtain ⟨⟨hkind, hmethod⟩, hacc⟩ := htests
    obtain ⟨reg, hreg, hfrom⟩ := h.dynamic route (List.mem_of_find?_eq_some hfound)
    refine ⟨reg, hreg, hfrom.handler, hfrom.clauses, ?_, ⟨hslash, ?_⟩, ?_⟩
    · rw [hfrom.method]
      exact hmethod
    · rw [hfrom.dynamic, ← hfrom.path, ← brtScan_some hscan]
      exact dynamicPathAccepts_fits ((and_eq_true _ _).mp hacc).1
    · cases hpattern : reg.host with
      | none => exact trivial
      | some pattern =>
        have hroute : route.host = some (dynamicHostCompile pattern) := by
          rw [hfrom.host, hpattern]
          rfl
        rw [BDynamicRoute.hostRoute, hroute] at hkind
        cases host with
        | none => cases hkind
        | some host =>
          obtain ⟨ls, hls, rfl⟩ : ∃ ls, dynamicHostScan host = some ls ∧ some ls = labels := by
            cases hhost : dynamicHostScan host with
            | none =>
              rw [mapM_some, hhost] at hlabels
              cases hlabels
            | some ls =>
              rw [mapM_some, hhost] at hlabels
              exact ⟨ls, rfl, some.inj hlabels⟩
          have hhost := (and_eq_true _ _).mp hacc |>.2
          rw [hroute] at hhost
          show List.Forall₂ DynamicFits (dynamicHostCompile pattern) (host.splitOn (ch '.'))
          rw [← dynamicHostScan_some hls]
          exact dynamicHostAccepts_fits hhost
  · cases hc

/-! ## Answers -/

/-- A handler that reaches a caller, with the host that was looked at and whether it was
    answered before the caller was known. -/
inductive Answer (t : PolicyRouteTable H) (method path host : Bytes)
    (mask : Nat) : Option Bytes → Bool → Match H → Prop
  | matched {t' : PolicyRouteTable H} {m : Match H} :
      brtMatch t method path (mask : Int) = .ok (t', some m) →
      Answer t method path host mask none false m
  | opened {m : Match H} :
      (classify t method path).2 = .reachable m →
      Answer t method path host mask none true m
  | resolved {ticket : Obj H} {m : Match H} :
      (classify t method path).2 = .ticket ticket →
      resolve ticket (mask : Int) = .ok (some m) →
      Answer t method path host mask none false m
  | requestOpened {m : Match H} :
      (classifyRequest t method path host).2 = .reachable m →
      Answer t method path host mask (some host) true m
  | requestResolved {ticket : Obj H} {m : Match H} :
      (classifyRequest t method path host).2 = .ticket ticket →
      resolve ticket (mask : Int) = .ok (some m) →
      Answer t method path host mask (some host) false m

/-- The answer belongs to a registration that serves the request and admits the caller; one
    given before the caller was known admits everyone. -/
def Justified (regs : List (Registration H)) (method path : Bytes)
    (mask : Nat) (host : Option Bytes) (early : Bool) (m : Match H) : Prop :=
  ∃ reg ∈ regs, reg.handler = m.handler ∧ reg.Serves method path host
    ∧ Admits reg.clauses mask ∧ (early = true → 0 ∈ reg.clauses)

/-- The host route that owns a request, once the table is compiled. -/
def hostOwner (t : PolicyRouteTable H) (method path host : Bytes) : Option (Candidate H) :=
  match t with
  | .registering _ => none
  | .compiled groups => owner groups.dynamicRoutes method path (some host)

variable {cands : List (Candidate H)} {m : Match H} {mask : Nat}

theorem settle_some (h : settle mask cands = some m) :
    ∃ c ∈ cands, c.matched = m ∧ Admits c.clauses mask := by
  obtain ⟨c, hc, rfl⟩ := map_eq_some_iff.mp h
  have hadm := List.find?_some hc
  exact ⟨c, List.mem_of_find?_eq_some hc, rfl, of_decide_eq_true hadm⟩

theorem classified_reachable (h : classified cands = .reachable m) :
    ∃ c ∈ cands, c.matched = m ∧ Admits c.clauses 0 := by
  have hreach := reached_classified cands 0
  rw [h, Option.or_self] at hreach
  exact settle_some (Except.ok.inj hreach).symm

theorem classified_ticket {ticket : Obj H} (h : classified cands = .ticket ticket)
    (hres : resolve ticket (mask : Int) = .ok (some m)) :
    ∃ c ∈ cands, c.matched = m ∧ Admits c.clauses mask := by
  have hreach := reached_classified cands mask
  rw [h, show reached (.ticket ticket) (mask : Int) = _ from hres] at hreach
  have hchoice := (Except.ok.inj hreach).symm
  cases hzero : settle 0 cands with
  | none =>
    rw [hzero, none_or] at hchoice
    exact settle_some hchoice
  | some early =>
    -- open to everyone, so open to the caller
    rw [hzero, some_or] at hchoice
    obtain ⟨c, hc, hm, hadm⟩ := settle_some hzero
    exact ⟨c, hc, hm.trans (some.inj hchoice), hadm.of_zero mask⟩

/-- Before it is compiled the table finds no host route. -/
theorem dynamicDispatch_registering (r : Registry H) (caller : Caller) (out : TicketOut H) :
    dynamicDispatch (.registering r) method path host caller out = (none, out) := by
  rw [dynamicDispatch]
  cases brtScan path with
  | none => rfl
  | some segs =>
    cases host.mapM dynamicHostScan with
    | none => rfl
    | some labels =>
      simp only [PolicyRouteTable.dynamicGroup, ite_self]
      rfl

theorem considered_mem (h : c ∈ considered r method path) :
    c ∈ candidates r method path ∨ c ∈ owner r.dynamicRoutes method path none := by
  rw [considered] at h
  split at h
  · exact .inr (mem_toList.mp h)
  · exact .inl h

theorem Backed.justified (h : Backed regs method path host c) {early : Bool}
    (hadm : Admits c.clauses mask) (hearly : early = true → 0 ∈ c.clauses) :
    Justified regs method path mask host early c.matched := by
  obtain ⟨reg, hreg, hhandler, hclauses, hserve⟩ := h
  refine ⟨reg, hreg, hhandler, hserve, ?_, ?_⟩
  · rw [hclauses]
    exact hadm
  · rw [hclauses]
    exact hearly

/-- What serves a request without a host has no host pattern, and serves every host. -/
theorem Backed.every_host (h : Backed regs method path none c) :
    Backed regs method path host c := by
  obtain ⟨reg, hreg, hhandler, hclauses, hmethod, hpath, hhost⟩ := h
  refine ⟨reg, hreg, hhandler, hclauses, hmethod, hpath, ?_⟩
  cases hpattern : reg.host with
  | none => exact trivial
  | some pattern =>
    rw [hpattern] at hhost
    exact hhost.elim

/-- An ordinary candidate's path begins with a slash. -/
theorem candidates_rooted (h : Holds r regs)
    (hc : c ∈ candidates r method path) : path.head? = some slash := by
  obtain ⟨_, -, -, -, hserve⟩ := candidates_backed h none hc
  exact hserve.path.1

section Standing

variable {t : PolicyRouteTable H} (ht : t = .registering r ∨ t = .compiled r.compile)
include ht

theorem brtMatch_standing (method path : Bytes) (mask : Nat) : brtMatch t method path (mask : Int)
      = brtMatch (.compiled r.compile) method path (mask : Int) := by
  rcases ht with rfl | rfl <;> rfl

theorem classify_standing (method path : Bytes) :
    (classify t method path).2 = classified (considered r method path) := by
  rw [← classifyCompiled_eq]
  rcases ht with rfl | rfl <;> rfl

theorem classifyRequest_standing (method path host : Bytes) :
    (classifyRequest t method path host).2 = classified (match hostOwner t method path host with
        | some route => [route]
        | none => considered r method path) := by
  rcases ht with rfl | rfl
  · rw [classifyRequest, dynamicDispatch_registering]
    exact classifyCompiled_eq r method path
  · rw [classifyRequest_eq]
    show _ = classified (match owner r.dynamicRoutes method path (some host)
      with | some route => [route] | none => considered r method path)
    cases owner r.dynamicRoutes method path (some host) with
    | none | some => rfl

/-- **EVERY ANSWER IS A CANDIDATE** that admits the caller. -/
theorem answer_candidate {method path host : Bytes} {seen : Option Bytes}
    {early : Bool} (h : Answer t method path host mask seen early m) :
    ∃ c : Candidate H, c.matched = m ∧ Admits c.clauses mask ∧ (early = true → 0 ∈ c.clauses)
      ∧ (c ∈ candidates r method path ∨ c ∈ owner r.dynamicRoutes method path none
        ∨ seen = some host ∧ c ∈ hostOwner t method path host) := by
  have hreq : ∀ c, c ∈ (match hostOwner t method path host with
      | some route => [route]
      | none => considered r method path) →
      c ∈ candidates r method path ∨ c ∈ owner r.dynamicRoutes method path none
        ∨ c ∈ hostOwner t method path host := by
    intro c hc
    cases hhost : hostOwner t method path host with
    | none =>
      rw [hhost] at hc
      exact (considered_mem hc).imp_right .inl
    | some route =>
      rw [hhost] at hc
      exact .inr (.inr (congrArg some (List.mem_singleton.mp hc).symm))
  cases h with
  | matched h =>
    rw [brtMatch_standing ht, brtMatch_eq] at h
    obtain ⟨c, hc, hm, hadm⟩ := settle_some (congrArg Prod.snd (Except.ok.inj h))
    refine ⟨c, hm, hadm, nofun, ?_⟩
    rcases List.mem_append.mp hc with hc | hc
    · exact .inl hc
    · exact .inr (.inl (mem_toList.mp hc))
  | opened h =>
    rw [classify_standing ht] at h
    obtain ⟨c, hc, hm, hadm⟩ := classified_reachable h
    exact ⟨c, hm, hadm.of_zero mask, fun _ => (admits_zero_iff c.clauses).mp hadm,
      (considered_mem hc).imp_right .inl⟩
  | resolved h hres =>
    rw [classify_standing ht] at h
    obtain ⟨c, hc, hm, hadm⟩ := classified_ticket h hres
    exact ⟨c, hm, hadm, nofun, (considered_mem hc).imp_right .inl⟩
  | requestOpened h =>
    rw [classifyRequest_standing ht] at h
    obtain ⟨c, hc, hm, hadm⟩ := classified_reachable h
    exact ⟨c, hm, hadm.of_zero mask, fun _ => (admits_zero_iff c.clauses).mp hadm,
      (hreq c hc).imp_right (.imp_right fun h => ⟨rfl, h⟩)⟩
  | requestResolved h hres =>
    rw [classifyRequest_standing ht] at h
    obtain ⟨c, hc, hm, hadm⟩ := classified_ticket h hres
    exact ⟨c, hm, hadm, nofun, (hreq c hc).imp_right (.imp_right fun h => ⟨rfl, h⟩)⟩

/-! ## Exposure -/

theorem hostOwner_backed (h : Holds r regs) {host : Bytes} (hslash : path.head? = some slash)
    (hc : c ∈ hostOwner t method path host) : Backed regs method path (some host) c := by
  rcases ht with rfl | rfl
  · cases hc
  · exact owner_backed h hslash hc

/-- An admitted host owner is an answer. -/
theorem hostOwner_answer {host : Bytes}
    (hc : c ∈ hostOwner t method path host) (hadm : Admits c.clauses mask) :
    ∃ early m, Answer t method path host mask (some host) early m := by
  have hclass : (classifyRequest t method path host).2 = classified [c] := by
    rw [classifyRequest_standing ht, show hostOwner t method path host = some c from hc]
  have hreach := reached_classified [c] mask
  have hmask : settle mask [c] = some c.matched := by
    rw [settle, List.find?_cons_of_pos (show admitted mask c = true from decide_eq_true hadm)]
    rfl
  rw [settle_zero_or_single, hmask] at hreach
  cases hkind : classified [c] with
  | absent =>
    rw [hkind] at hreach
    cases hreach
  | reachable m => exact ⟨true, m, .requestOpened (hclass.trans hkind)⟩
  | ticket ticket =>
    rw [hkind] at hreach
    exact ⟨false, c.matched, .requestResolved (hclass.trans hkind) hreach⟩

/-- An admitted greedy owner of a request without ordinary candidates is an answer. -/
theorem greedyOwner_answer {host : Bytes} (hnone : candidates r method path = [])
    (hc : c ∈ owner r.dynamicRoutes method path none) (hadm : Admits c.clauses mask) :
    Answer t method path host mask none false c.matched := by
  have hmatch : brtMatch t method path (mask : Int)
      = .ok (.compiled r.compile, some c.matched) := by
    rw [brtMatch_standing ht, brtMatch_eq, hnone, List.nil_append,
      show owner r.dynamicRoutes method path none = some c from hc,
      toList_some, settle, List.find?_cons_of_pos
        (show admitted mask c = true from decide_eq_true hadm)]
    rfl
  exact .matched hmatch

end Standing

/-- **WHEN NO ROUTE IS EXPOSED**: after any calls, every answer is justified exactly when
    the path begins with a slash, or neither the greedy nor the host route that would own it
    admits the caller. -/
theorem exposure_iff (calls : List (Call H)) (method path host : Bytes) (mask : Nat) :
    (∀ seen early m, Answer (run calls).1 method path host mask seen early m →
      Justified (run calls).2 method path mask seen early m)
    ↔ path.head? = some slash ∨ ((∀ c ∈ owner (run calls).1.dynamicRoutes method path none,
            ¬ Admits c.clauses mask)
        ∧ ∀ c ∈ hostOwner (run calls).1 method path host, ¬ Admits c.clauses mask) := by
  obtain ⟨r, ht, hholds⟩ := stands_run calls
  generalize hs : run calls = s at ht hholds
  obtain ⟨t, regs⟩ := s
  have hroutes : t.dynamicRoutes = r.dynamicRoutes := by
    rcases ht with rfl | rfl <;> rfl
  rw [hroutes]
  constructor
  · intro hjust
    by_cases hslash : path.head? = some slash
    · exact .inl hslash
    -- off the root no registration serves, so no answer can be justified
    have hnone : ∀ seen early m, ¬ Answer t method path host mask seen early m := by
      intro seen early m hanswer
      obtain ⟨_, -, -, hserves, -⟩ := hjust seen early m hanswer
      exact hslash hserves.path.1
    have hcands : candidates r method path = [] :=
      List.eq_nil_iff_forall_not_mem.mpr fun c hc => hslash (candidates_rooted hholds hc)
    refine .inr ⟨fun c hc hadm => ?_, fun c hc hadm => ?_⟩
    · exact hnone _ _ _ (greedyOwner_answer ht hcands hc hadm)
    · obtain ⟨early, m, hanswer⟩ := hostOwner_answer ht hc hadm
      exact hnone _ _ _ hanswer
  · intro hwhen seen early m hanswer
    obtain ⟨c, rfl, hadm, hearly, hsource⟩ := answer_candidate ht hanswer
    rcases hsource with hc | hc | ⟨rfl, hc⟩
    · exact (candidates_backed hholds seen hc).justified hadm hearly
    · rcases hwhen with hslash | ⟨hgreedy, -⟩
      · exact ((owner_backed hholds hslash hc).every_host).justified hadm hearly
      · exact absurd hadm (hgreedy c hc)
    · rcases hwhen with hslash | ⟨-, hhost⟩
      · exact (hostOwner_backed ht hholds hslash hc).justified hadm hearly
      · exact absurd hadm (hhost c hc)

/-- A tree of files under `/files`, and one of everything for `OPTIONS`. -/
def fileCalls : List (Call Nat) :=
  [.addDynamic (ascii "/files/\x7brest:path\x7d") get none 7 none,
    .addDynamic (ascii "/\x7brest:path\x7d") (ascii "OPTIONS") none 8 none]

/-- The handler `match` returns to a caller without capabilities. -/
def publicHandler (calls : List (Call Nat)) (method path : Bytes) : Option Nat :=
  match brtMatch (run calls).1 method path 0 with
  | .ok (_, some m) => some m.handler
  | _ => none

/-- **OFF THE ROOT**: `xfiles/a` is answered by `/files/{rest:path}` and the target `*` by
    `/{rest:path}`, though no registration serves either. -/
theorem asterisk_answered : publicHandler fileCalls get (ascii "xfiles/a") = some 7
    ∧ publicHandler fileCalls (ascii "OPTIONS") (ascii "*") = some 8
    ∧ (∀ reg ∈ (run fileCalls).2, ¬ reg.Serves get (ascii "xfiles/a") none
        ∧ ¬ reg.Serves (ascii "OPTIONS") (ascii "*") none) := by
  refine ⟨by decide +kernel, by decide +kernel, fun reg _ => ⟨?_, ?_⟩⟩
  · intro hserves
    exact absurd hserves.path.1 (by decide)
  · intro hserves
    exact absurd hserves.path.1 (by decide)

end RouteExposure
