import Wreath.RouteSelectProofs

/-! # Tickets — classify now, resolve later

A ticket holds the candidates that were passed over, as the one entry or as the tuple of
entries, and `resolve` reads both back (`reached_classified`). With that the two ways
to a route can be compared: `match` looks at the ordinary candidates and then at the
greedy route, all with the caller's mask; `classify` looks for a route open to everyone
first, and at the greedy route only when no ordinary route matches at all. -/

namespace RouteTicket

open ByteScan RouteAccess RouteTable RouteMatch RouteGroup RouteSelect List

variable {H : Type}

/-! ## The two encodings -/

/-- The ticket of the candidates passed over so far. -/
def ticketOf : List (Candidate H) → Option (Obj H)
  | [] => none
  | [c] => some c.entry
  | c :: d :: cs => some (.list ((c :: d :: cs).map (·.entry)))

variable {cs : List (Candidate H)}

variable {c : Candidate H}

theorem ticketOf_append :
    TicketOut.append (some (ticketOf cs)) c = some (ticketOf (cs ++ [c])) := by
  cases cs with
  | nil => rfl
  | cons x cs =>
    cases cs with
    | nil => rfl
    | cons y cs =>
      have hents : ((x :: y :: cs).map (·.entry)) ++ [c.entry]
          = (x :: y :: cs ++ [c]).map (·.entry) := by
        rw [map_append]
        rfl
      exact congrArg (fun items => some (some (Obj.list items))) hents

theorem appendAll_ticket : ∀ start : List (Candidate H),
      appendAll (some (ticketOf start)) cs = some (ticketOf (start ++ cs)) := by
  induction cs with
  | nil =>
    intro start
    rw [append_nil]
    rfl
  | cons c cs ih =>
    intro start
    rw [appendAll, foldl_cons, ticketOf_append]
    exact (ih (start ++ [c])).trans (by rw [append_assoc]; rfl)

/-- What is said of the candidates before the caller is known. -/
def classified (cands : List (Candidate H)) : Classification H :=
  classificationFinish (outcome 0 cands (some none))

theorem outcome_zero (cands : List (Candidate H)) :
    outcome 0 cands (some none) = (settle 0 cands, some (ticketOf (passed 0 cands))) := by
  rw [outcome, show (some none : TicketOut H) = some (ticketOf []) from rfl, appendAll_ticket]
  rfl

theorem unanswered_iff (cands : List (Candidate H)) :
    unanswered (outcome 0 cands (some none)) = true ↔ cands = [] := by
  rw [outcome_zero]
  cases hsettle : settle 0 cands with
  | some m =>
    refine ⟨nofun, fun h => ?_⟩
    subst h
    cases hsettle
  | none =>
    rw [passed_all hsettle]
    match cands with
    | [] => exact ⟨fun _ => rfl, fun _ => rfl⟩
    | [_] => exact ⟨nofun, nofun⟩
    | _ :: _ :: _ => exact ⟨nofun, nofun⟩

/-! ## Resolving -/

theorem clauseItems_int (clauses : List Nat) :
    clauseItems (clauses.map (Obj.int (H := H))) = clauses := by
  rw [clauseItems, filterMap_map]
  exact filterMap_some

variable {mask : Nat}

theorem resolveEntry_entry : resolveEntry (ofMask mask)
        [.matched c.matched, .tuple (c.clauses.map .int)]
      = settle mask [c] := by
  rw [resolveEntry, clauseItems_int, admitted_any c.matched]
  cases hadm : admitted mask c with
  | true => rw [settle, find?_cons_of_pos hadm]; rfl
  | false =>
    rw [settle, find?_cons_of_neg (by rw [hadm]; rintro ⟨⟩)]
    rfl

theorem single_entry : ticketIsSingle [.matched c.matched, .tuple (c.clauses.map .int)] = true := by
  cases c.clauses with
  | nil | cons => rfl

/-- Two entries are never taken for one: the second begins with a match, not with an integer. -/
theorem not_single_entries (c d : Candidate H) :
    ticketIsSingle ((c :: d :: cs).map (·.entry)) = false := by
  cases cs with
  | nil | cons => rfl

theorem resolve_entries :
    (cs.map (·.entry)).findSome? (resolveItem (ofMask mask)) = settle mask cs := by
  induction cs with
  | nil => rfl
  | cons c cs ih =>
    rw [map_cons, findSome?_cons,
      show settle mask (c :: cs) = settle mask ([c] ++ cs) from rfl,
      settle_append, Candidate.entry, resolveItem, resolveEntry_entry]
    cases settle mask [c] with
    | some m => rfl
    | none => exact ih

/-- What a caller gets for a classification: a ticket is resolved. -/
def reached (classification : Classification H) (mask : Int) : Except PyError (Option (Match H)) :=
  match classification with
  | .absent => .ok none
  | .reachable m => .ok (some m)
  | .ticket ticket => resolve ticket mask

theorem resolve_tuple (items : List (Obj H)) :
    resolve (.tuple items) (mask : Int) = .ok (resolveMask (ofMask mask) items) := by
  rw [resolve, callerMask_natCast]

/-- **CLASSIFIED, THEN RESOLVED**: the first candidate open to everyone, or else the first
    that admits the caller. -/
theorem reached_classified (cands : List (Candidate H)) (mask : Nat) :
    reached (classified cands) (mask : Int) = .ok ((settle 0 cands).or (settle mask cands)) := by
  rw [classified, outcome_zero]
  cases hsettle : settle 0 cands with
  | some m => rfl
  | none =>
    rw [passed_all hsettle, Option.none_or]
    match cands with
    | [] => rfl
    | [c] =>
      show resolve c.entry (mask : Int) = _
      rw [Candidate.entry, resolve_tuple, resolveMask, if_pos (single_entry), resolveEntry_entry]
    | c :: d :: cs =>
      show resolve (.tuple ((c :: d :: cs).map (·.entry))) (mask : Int) = _
      rw [resolve_tuple, resolveMask, if_neg (by rw [not_single_entries]; exact nofun),
        resolve_entries]

/-! ## The calls over a compiled table -/

/-- A route open to everyone admits every caller. -/
theorem settle_zero_or_single (mask : Nat) :
    (settle 0 [c]).or (settle mask [c]) = settle mask [c] := by
  cases hzero : settle 0 [c] with
  | none => rfl
  | some m =>
    by_cases hadm : admitted 0 c = true
    · have hmask : admitted mask c = true := decide_eq_true ((of_decide_eq_true hadm).of_zero mask)
      rw [settle, find?_cons_of_pos hadm] at hzero
      rw [settle, find?_cons_of_pos hmask]
      exact hzero.symm
    · rw [settle, find?_cons_of_neg hadm] at hzero
      cases hzero

variable (r : Registry H)

theorem brtMatch_eq (method path : Bytes) (mask : Nat) :
    brtMatch (.compiled r.compile) method path (mask : Int)
      = .ok (.compiled r.compile, settle mask (candidates r method path
            ++ (owner r.dynamicRoutes method path none).toList)) := by
  rw [brtMatch, callerMask_natCast, settle_append]
  simp only [PolicyRouteTable.compile, PolicyRouteTable.compileGroups,
    dispatch_eq, dynamicDispatch_eq, outcome]
  cases settle mask (candidates r method path) with
  | some | none => rfl

/-- The candidates `classify` goes by: the ordinary ones, and the greedy route only when
    there are none. -/
def considered (r : Registry H) (method path : Bytes) : List (Candidate H) :=
  if candidates r method path = [] then (owner r.dynamicRoutes method path none).toList
  else candidates r method path

theorem classifyCompiled_eq (method path : Bytes) :
    classifyCompiled (.compiled r.compile) method path = classified (considered r method path) := by
  rw [classifyCompiled, considered, classified]
  simp only [PolicyRouteTable.compile, PolicyRouteTable.compileGroups,
    show Caller.word 0 = ofMask 0 from rfl, dispatch_eq, dynamicDispatch_eq,
    unanswered_iff]
  split <;> rfl

theorem classifyRequest_eq (method path host : Bytes) :
    (classifyRequest (.compiled r.compile) method path host).2
      = match owner r.dynamicRoutes method path (some host) with
        | some route => classified [route]
        | none => classified (considered r method path) := by
  rw [classifyRequest]
  simp only [show Caller.word 0 = ofMask 0 from rfl, dynamicDispatch_eq, unanswered_iff]
  cases owner r.dynamicRoutes method path (some host) with
  | none => exact classifyCompiled_eq r method path
  | some route => rfl

/-! ## The two ways compared -/

/-- The conditions under which classifying first makes no difference. -/
def Foregone (mask : Nat) (cands greedy : List (Candidate H)) : Prop :=
  cands = [] ∨ (∃ c, cands.find? (admitted mask) = some c
        ∧ (Admits c.clauses 0 ∨ ∀ d ∈ cands, ¬ Admits d.clauses 0))
    ∨ ∀ c ∈ cands ++ greedy, ¬ Admits c.clauses mask

variable {cands : List (Candidate H)}

theorem settle_zero_first (hfirst : cands.find? (admitted mask) = some c)
    (hopen : Admits c.clauses 0) : settle 0 cands = some c.matched := by
  obtain ⟨-, before, after, rfl, hbef⟩ := find?_eq_some_iff_append.mp hfirst
  have hnone : settle 0 before = none := by
    refine settle_eq_none.mpr fun d hd hzero => ?_
    have hd' := hbef d hd
    rw [admitted, decide_eq_true (hzero.of_zero mask)] at hd'
    cases hd'
  have hadm : admitted 0 c = true := decide_eq_true hopen
  rw [settle_append, hnone, Option.none_or, settle, find?_cons_of_pos hadm]
  rfl

theorem settle_foregone {greedy : List (Candidate H)}
    (h : Foregone mask cands greedy) (hne : cands ≠ []) :
    (settle 0 cands).or (settle mask cands) = settle mask (cands ++ greedy) := by
  rw [settle_append]
  rcases h with h | ⟨c, hfirst, hopen⟩ | hnone
  · exact absurd h hne
  · have hmask : settle mask cands = some c.matched := by
      rw [settle, hfirst]
      rfl
    rw [hmask, Option.some_or]
    rcases hopen with hopen | hclosed
    · rw [settle_zero_first hfirst hopen, Option.some_or]
    · rw [settle_eq_none.mpr hclosed, Option.none_or]
  · have hcands : ∀ c ∈ cands, ¬ Admits c.clauses mask := fun c hc => hnone c (mem_append_left _ hc)
    have hgreedy : ∀ c ∈ greedy, ¬ Admits c.clauses mask :=
      fun c hc => hnone c (mem_append_right _ hc)
    rw [settle_eq_none.mpr hcands, settle_eq_none.mpr hgreedy,
      settle_eq_none.mpr fun c hc hzero => hcands c hc (hzero.of_zero mask)]

/-- The page of one user behind a capability, and a public page for every name. -/
def profileRoutes : Except PyError (Registry Nat) := do
  let r ← Registry.empty.add (ascii "/me") get 0 (some [1])
  r.add (ascii "/\x7buser\x7d") get 1 none

/-- A page behind a capability, with a public tree under the same path. -/
def treeRoutes : Except PyError (Registry Nat) := do
  let r ← Registry.empty.add (ascii "/\x7buser\x7d") get 0 (some [1])
  r.addDynamic (ascii "/\x7brest:path\x7d") get none 1 none

/-- Two trees, the first behind a capability; and a page of one host. -/
def hostRoutes : Except PyError (Registry Nat) := do
  let r ← Registry.empty.addDynamic (ascii "/\x7brest:path\x7d") get none 0 (some [1])
  let r ← r.addDynamic (ascii "/\x7bfile:path\x7d") get none 1 none
  r.addDynamic (ascii "/me") get (some (ascii "a.example")) 2 none

/-- The handlers `match`, `classify` and `classify_request` lead a caller to, for the path
    `/me` on `a.example`. -/
def handlers (routes : Except PyError (Registry Nat)) (mask : Int) :
    Except PyError (Option Nat × Option Nat × Option Nat) := do
  let r ← routes
  let t := PolicyRouteTable.compiled r.compile
  let path := ascii "/me"
  let (_, matched) ← brtMatch t get path mask
  let classified ← reached (classify t get path).2 mask
  let requested ← reached (classifyRequest t get path (ascii "a.example")).2 mask
  return (matched.map (·.handler), classified.map (·.handler), requested.map (·.handler))

end RouteTicket
