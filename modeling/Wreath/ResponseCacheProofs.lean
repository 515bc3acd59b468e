import Mathlib.Data.List.Basic
import Mathlib.Logic.Function.Basic
import Wreath.ByteStringProofs
import Wreath.TableProofs
import Wreath.StepSystemProofs

/-! # The response cache — `response_cache.py`

A wrapped handler answers from the store, joins a computation of the same key that is still
running, or runs the handler and stores what it returned. The wrapper is a state machine over
tasks; between two steps of one any other request may move, a write may commit and be
announced, and the store may be cleared. Beside the program's own data a stored entry names
the request it was computed for, and the log lists each answer with that request. -/

namespace ResponseCache

open List

open ByteScan (Bytes ascii lower)
open Option (bind_eq_some_iff some.inj)

abbrev Header := Bytes × Bytes

/-! ## Results and what may be stored -/

/-- `kind` is the name of the response's class. -/
structure Response where
  kind : String
  status : Nat
  headers : List Header
  body : Bytes
  deriving Repr, DecidableEq

/-- What a handler returns: a response, text or bytes, a dict or a list, or something else. -/
inductive Result where
  | response (r : Response)
  | value (payload : String)
  | copy (payload : String)
  | other (payload : String)
  deriving Repr, DecidableEq

inductive Entry where
  | response (status : Nat) (headers : List Header) (body : Bytes)
  | value (payload : String)
  | copy (payload : String)
  deriving Repr, DecidableEq

def uncacheableBody : List String :=
  ["StreamingResponse", "FileResponse", "SSEResponse", "PreparedResponse"]

def headerNameIs (name : Bytes) (expected : String) : Bool := lower name == ascii expected

def headerContainsCi (value : Bytes) (needle : String) : Bool :=
  (lower value).tails.any fun rest => (ascii needle).isPrefixOf rest

def isSpace (b : UInt8) : Bool := b == 32 || (9 ≤ b && b ≤ 13)

/-- One field of the scan in `wreath_cacheable_headers`. -/
def headerAllowed (h : Header) : Bool := !headerNameIs h.1 "set-cookie" &&
  !(headerNameIs h.1 "vary" && !h.2.all isSpace) &&
  !(headerNameIs h.1 "cache-control" &&
    (headerContainsCi h.2 "no-store" || headerContainsCi h.2 "private"))

def cacheableHeaders (headers : List Header) : Bool := headers.all headerAllowed

def cacheableResponse (r : Response) : Bool :=
  !uncacheableBody.contains r.kind && (200 ≤ r.status && r.status < 300) &&
    cacheableHeaders r.headers

/-- `_snapshot`: the entry of a result; nothing when it must not be stored. -/
def snapshot : Result → Option Entry
  | .response r =>
    if cacheableResponse r then some (.response r.status r.headers r.body)
    else none
  | .value payload => some (.value payload)
  | .copy payload => some (.copy payload)
  | .other _ => none

/-- `_revive`. -/
def revive : Entry → Result
  | .response status headers body => .response ⟨"Response", status, headers, body⟩
  | .value payload => .value payload
  | .copy payload => .copy payload

def applyHeader (name value : Bytes) : Result → Result
  | .response r =>
    if (name, value) ∈ r.headers then .response r
    else .response { r with headers := r.headers ++ [(name, value)] }
  | result => result

def tagHeaders : List String := ["cache-tag", "surrogate-key", "edge-cache-tag"]

/-- `_apply_tags`: the surrogate keys and the cache groups. -/
def applyTags (tags : Option (Bytes × Bytes)) (result : Result) : Result :=
  match tags with
  | none => result
  | some (value, groups) =>
    applyHeader (ascii "cache-groups") groups
      (tagHeaders.foldl (fun r name => applyHeader (ascii name) value r) result)

/-- The value of `Cache-Status` for each outcome. -/
structure StatusValues where
  hit : Bytes
  miss : Bytes
  stored : Bytes
  method : Bytes
  bypass : Bytes
  deriving Repr, DecidableEq

def applyStatus (status : Option StatusValues)
    (select : StatusValues → Bytes) (result : Result) : Result :=
  match status with
  | none => result
  | some values => applyHeader (ascii "cache-status") (select values) result

/-! ## Keys -/

/-- The Host field: given more than once, not given, or its value. -/
inductive Host where
  | ambiguous
  | absent
  | value (s : String)
  deriving Repr, DecidableEq

/-- `path` is what `_request_path` reads; `tenant` and the three parts of the identity are
    the strings the keys are built from. -/
structure Request where
  method : String
  path : String
  query : Bytes
  scheme : String
  host : Host
  server : Option (String × Option Nat)
  tenant : Option String
  identity : Option (String × String × String)
  headers : List Header
  body : Bytes
  deriving Repr, DecidableEq

inductive Key where
  | default
  | declared (names : List String)
  | custom (key : Request → String)

def Key.isPublic : Key → Bool
  | .custom _ => false
  | _ => true

/-- `lower` is `str.lower`, `blake2b` the digest in hexadecimal and `componentToStr` the
    decoding of one query component. -/
structure Config where
  key : Key
  methods : List String
  maxEntries : Nat
  ttl : Option ℚ
  watched : List String
  tags : Option (Bytes × Bytes)
  status : Option StatusValues
  lower : String → String
  blake2b : Bytes → String
  componentToStr : Bytes → String

/-- The methods `cached` accepts. -/
def cacheableMethods : List String := ["GET", "HEAD", "OPTIONS", "QUERY"]

def safeMethods : List String := ["GET", "HEAD", "OPTIONS", "QUERY", "TRACE"]

variable (cfg : Config)

variable (s : State) (id : Nat) (req : Request)

/-- The host the key is bound to: the Host field, or the server address. -/
def hostText : Option String :=
  match req.host with
  | .value s => if s = "" then serverText req.server else some s
  | _ => serverText req.server
where
  serverText : Option (String × Option Nat) → Option String
    | none => none
    | some (host, none) => some host
    | some (host, some port) => some (host ++ ":" ++ toString port)

/-- The scheme and the authority of a request, in lower case. -/
def authority : Option (String × String) :=
  (hostText req).map fun host => (cfg.lower req.scheme, cfg.lower host)

/-- `_authority_prefix`; nothing is the ambiguous authority. -/
def authorityPrefix : Option String :=
  if req.host = .ambiguous then none
  else
    match authority cfg req with
    | none => some ""
    | some (scheme, host) => some (Frame.frame scheme ++ Frame.frame host)

/-- Bytes as `latin-1` text. -/
def latin1 (b : Bytes) : String := String.ofList (b.map fun x => Char.ofNat x.toNat)

def defaultResource : String :=
  if req.query.isEmpty then req.method ++ " " ++ req.path
  else req.method ++ " " ++ req.path ++ "?" ++ latin1 req.query

def urlencodeSafe (b : UInt8) : Bool :=
  (97 ≤ b && b ≤ 122) || (65 ≤ b && b ≤ 90) || (48 ≤ b && b ≤ 57) ||
    b == 95 || b == 46 || b == 45 || b == 126

def hexDigits : List Char := "0123456789ABCDEF".toList

def urlencode (s : String) : String := String.ofList (s.toByteArray.data.toList.flatMap fun b =>
    if urlencodeSafe b then [Char.ofNat b.toNat]
    else if b = 32 then ['+']
    else ['%', hexDigits.getD (b.toNat / 16) '0', hexDigits.getD (b.toNat % 16) '0'])

/-- The fields of a query, decoded, in their order. -/
def queryFields (query : Bytes) : List (String × String) :=
  ((query.splitOn 38).filter fun field => !field.isEmpty).map fun field =>
    (cfg.componentToStr (field.takeWhile (· ≠ 61)),
      cfg.componentToStr ((field.dropWhile (· ≠ 61)).drop 1))

/-- The first value of each declared name, in the declared order. -/
def selectedFields (names : List String) : List String :=
  names.filterMap fun name =>
    ((queryFields cfg req.query).lookup name).map fun value =>
      urlencode name ++ "=" ++ urlencode value

/-- `wreath_cache_key_selected`. -/
def cacheKeySelected (names : List String) : String :=
  if (selectedFields cfg req names).isEmpty then req.method ++ " " ++ req.path
  else
    req.method ++ " " ++ req.path ++ "?" ++ "&".intercalate (selectedFields cfg req names)

/-- The application's own key of a request. -/
def applicationKey : Option String :=
  match cfg.key with
  | .default => (authorityPrefix cfg req).map (· ++ defaultResource req)
  | .declared names =>
    (authorityPrefix cfg req).map (· ++ cacheKeySelected cfg req names)
  | .custom key => some (key req)

/-- `_private_cache_key`. -/
def privateCacheKey (key : String) : Option String :=
  (authorityPrefix cfg req).map fun authority =>
    match req.identity with
    | none => "0:" ++ (authority ++ key)
    | some (space, kind, subject) =>
      "1:" ++ (Frame.frame space ++ (Frame.frame kind ++
        (Frame.frame subject ++ (authority ++ key))))

/-- `_tenant_cache_key`. -/
def tenantCacheKey (key : String) : String :=
  match req.tenant with
  | none => "0:" ++ key
  | some value => "1:" ++ (Frame.frame value ++ key)

/-- A public key stands for itself, any other gets its owner. -/
def ownedKey (key : String) : Option String :=
  if cfg.key.isPublic then some key else privateCacheKey cfg req key

/-- The key before the body of a `QUERY` is read. -/
def baseKey : Option String := do
  let key ← applicationKey cfg req
  let owned ← ownedKey cfg req key
  return tenantCacheKey req owned

def strip (b : Bytes) : Bytes := ((b.dropWhile isSpace).reverse.dropWhile isSpace).reverse

def normalizedContentType (value : Bytes) : Bytes :=
  let mediaType := lower (strip (value.takeWhile (· ≠ 59)))
  if value.contains 59 then
    mediaType ++ [59] ++ strip ((value.dropWhile (· ≠ 59)).drop 1)
  else mediaType

def normalizedCommaTokens (value : Bytes) : Bytes :=
  [44].intercalate ((value.splitOn 44).map fun part => lower (strip part))

/-- `_digest_part`: the kind, the length in eight bytes and the value. -/
def digestPart (kind : String) (value : Bytes) : Bytes :=
  ascii kind ++ (List.range 8).map (fun i => UInt8.ofNat (value.length / 256 ^ (7 - i))) ++ value

def headerPart (h : Header) : Bytes :=
  if h.1 = ascii "content-type" then digestPart "t" (normalizedContentType h.2)
  else if h.1 = ascii "content-encoding" then
    digestPart "e" (normalizedCommaTokens h.2)
  else if h.1 = ascii "content-language" then
    digestPart "l" (normalizedCommaTokens h.2)
  else if h.1 = ascii "content-location" then digestPart "u" (strip h.2)
  else []

/-- `_query_cache_key`. -/
def queryCacheKey (base : String) : String :=
  base ++ ("#query=" ++ cfg.blake2b (req.headers.flatMap headerPart ++ digestPart "b" req.body))

/-- Where a request goes: past the cache, or to the key it has so far. -/
inductive Route where
  | bypass
  | keyed (base : String)
  deriving Repr, DecidableEq

def route : Route :=
  if !cfg.methods.contains req.method then .bypass
  else if cfg.key.isPublic && req.identity.isSome then .bypass
  else
    match baseKey cfg req with
    | none => .bypass
    | some base => .keyed base

/-- The key the store and the running computations are asked for. -/
def cacheKey (base : String) : String :=
  if req.method = "QUERY" then queryCacheKey cfg req base else base

/-- What a request that went past the cache is answered. -/
def bypassed (result : Result) : Result :=
  if cfg.methods.contains req.method || safeMethods.contains req.method then
    applyStatus cfg.status StatusValues.bypass result
  else
    applyStatus cfg.status StatusValues.method (match cfg.tags with
        | none => result
        | some (_, groups) =>
          applyHeader (ascii "cache-group-invalidation") groups result)

/-! ## The wrapper as a state machine -/

inductive Outcome where
  | returned (result : Result)
  | raised
  deriving Repr, DecidableEq

/-- What a request is waiting for: its handler past the cache, its body, its handler under a
    key, another request's computation, or nothing. -/
inductive Phase where
  | bypassing
  | reading (base : String)
  | computing (key : String)
  | joined (owner : Nat)
  | ended (outcome : Outcome)
  deriving Repr, DecidableEq

/-- `floor` is the last watched write announced when the request began, and `readAt` the
    number of writes committed when its handler first read. -/
structure Task where
  request : Request
  floor : Nat
  readAt : Option Nat
  phase : Phase
  deriving Repr, DecidableEq

/-- An answer: to whom, and for whom it was computed. -/
structure Delivery where
  recipient : Nat
  origin : Nat
  result : Result
  deriving Repr, DecidableEq

/-- `commits` are the committed writes, each the names of its models; `floor` is the last
    watched one that was announced. -/
structure State where
  store : Lease.Table String (Nat × Entry)
  inflight : List (String × Nat)
  task : Nat → Option Task
  ids : List Nat
  log : List Delivery
  commits : List (List String)
  floor : Nat

def State.init : State := ⟨.new cfg.maxEntries cfg.ttl, [], fun _ => none, [], [], [], 0⟩

def State.put (t : Task) : State := { s with task := Function.update s.task id (some t) }

def State.answer (id origin : Nat) (result : Result) : State :=
  { s with log := s.log ++ [⟨id, origin, result⟩] }

inductive Event where
  | arrive (id : Nat) (req : Request) (now : ℚ)
  | body (id : Nat) (now : ℚ)
  | read (id : Nat)
  | returns (id : Nat) (result : Result) (now : ℚ)
  | raises (id : Nat)
  | wake (id : Nat)
  | cancel (id : Nat)
  | commit (written : List String)
  | announce (n : Nat)
  | invalidate (target : Option Request)

/-- A request ends with a result that `origin` computed. -/
def State.replies (s : State) (id : Nat) (t : Task) (origin : Nat) (result : Result) : State :=
  (s.put id { t with phase := .ended (.returned result) }).answer id origin result

def State.fails (s : State) (id : Nat) (t : Task) : State :=
  s.put id { t with phase := .ended .raised }

/-- The look-up: a hit is the answer, a running computation is joined, and otherwise the
    handler runs. -/
def lookup (s : State) (id : Nat) (t : Task) (key : String) (now : ℚ) : State :=
  match Lease.get s.store key now with
  | (some (origin, entry), store) =>
    ({ s with store := store } : State).replies id t origin
      (applyStatus cfg.status StatusValues.hit (revive entry))
  | (none, store) =>
    match s.inflight.lookup key with
    | some owner =>
      ({ s with store := store } : State).put id { t with phase := .joined owner }
    | none =>
      ({ s with store := store, inflight := (key, id) :: s.inflight } :
        State).put id { t with phase := .computing key }

def arrive (now : ℚ) : State :=
  let t : Task := ⟨req, s.floor, none, .bypassing⟩
  let s : State := { s with ids := id :: s.ids }
  match route cfg req with
  | .bypass => s.put id t
  | .keyed base =>
    if req.method = "QUERY" then s.put id { t with phase := .reading base }
    else lookup cfg s id t base now

/-- The result a computation ends with. The headers are added to the very object the
    waiters are given. -/
def finished (result : Result) : Result := applyStatus cfg.status
    (if (snapshot (applyTags cfg.tags result)).isSome then StatusValues.stored
      else StatusValues.miss)
    (applyTags cfg.tags result)

/-- The store after a computation: an entry, when there is one to keep. -/
def keep (store : Lease.Table String (Nat × Entry)) (id : Nat) (key : String)
    (result : Result) (now : ℚ) : Lease.Table String (Nat × Entry) :=
  match snapshot (applyTags cfg.tags result) with
  | none => store
  | some entry => (Lease.set store key (id, entry) none now false).getD store

def State.drop (key : String) : State := { s with inflight := s.inflight.filter fun p => p.1 ≠ key }

def returns (result : Result) (now : ℚ) : Option State := do
  let t ← s.task id
  match t.phase with
  | .computing key =>
    some (({ s.drop key with store := keep cfg s.store id key result now } : State).replies id t id
      (finished cfg result))
  | .bypassing =>
    some (s.replies id t id (bypassed cfg t.request result))
  | _ => none

def raises : Option State := do
  let t ← s.task id
  match t.phase with
  | .computing key => some ((s.drop key).fails id t)
  | .bypassing => some (s.fails id t)
  | _ => none

def wake : Option State := do
  let t ← s.task id
  match t.phase with
  | .joined owner =>
    match (s.task owner).map Task.phase with
    | some (.ended (.returned result)) =>
      some (s.replies id t owner result)
    | some (.ended .raised) => some (s.fails id t)
    | _ => none
  | _ => none

/-- A request that waits is cancelled; the computation it joined goes on. -/
def cancel : Option State := do
  let t ← s.task id
  match t.phase with
  | .joined _ | .reading _ => some (s.fails id t)
  | _ => none

def read : Option State := do
  let t ← s.task id
  match t.phase with
  | .computing _ | .bypassing =>
    some (s.put id { t with readAt := some (t.readAt.getD s.commits.length) })
  | _ => none

/-- `_on_write` of the `n`-th committed write. -/
def announce (n : Nat) : Option State := do
  let written ← s.commits[n]?
  if written.any cfg.watched.contains then
    some { s with store := Lease.clear s.store, floor := max s.floor (n + 1) }
  else some s

/-- `invalidate`: one key, or everything. -/
def invalidate (target : Option Request) : State :=
  match target with
  | none => { s with store := Lease.clear s.store }
  | some req =>
    match baseKey cfg req with
    | none => s
    | some base => { s with store := Lease.delete s.store (cacheKey cfg req base) }

def step : Event → Option State
  | .arrive id req now =>
    if (s.task id).isSome then none else some (arrive cfg s id req now)
  | .body id now => do
      let t ← s.task id
      match t.phase with
      | .reading base =>
        some (lookup cfg s id t (queryCacheKey cfg t.request base) now)
      | _ => none
  | .read id => read s id
  | .returns id result now => returns cfg s id result now
  | .raises id => raises s id
  | .wake id => wake s id
  | .cancel id => cancel s id
  | .commit written => some { s with commits := s.commits ++ [written] }
  | .announce n => announce cfg s n
  | .invalidate target => some (invalidate cfg s target)

/-! ## What a step can do -/

variable {cfg}

/-- The three outcomes of a look-up. -/
inductive Looked (cfg : Config) (s : State) (id : Nat) (t : Task)
    (key : String) (now : ℚ) : State → Prop where
  | hit {origin : Nat} {entry : Entry} {store : Lease.Table String (Nat × Entry)}
      (h : Lease.get s.store key now = (some (origin, entry), store)) :
      Looked cfg s id t key now (({ s with store := store } : State).replies id t origin
          (applyStatus cfg.status StatusValues.hit (revive entry)))
  | joins {owner : Nat} {store : Lease.Table String (Nat × Entry)}
      (h : Lease.get s.store key now = (none, store))
      (howner : s.inflight.lookup key = some owner) :
      Looked cfg s id t key now (({ s with store := store } : State).put id
          { t with phase := .joined owner })
  | computes {store : Lease.Table String (Nat × Entry)}
      (h : Lease.get s.store key now = (none, store))
      (hnone : s.inflight.lookup key = none) :
      Looked cfg s id t key now (({ s with store := store, inflight := (key, id) :: s.inflight } :
          State).put id { t with phase := .computing key })

theorem lookup_looked (t : Task) (key : String)
    (now : ℚ) : Looked cfg s id t key now (lookup cfg s id t key now) := by
  rw [lookup]
  cases hget : Lease.get s.store key now with
  | mk found store =>
    cases found with
    | some pair => exact .hit hget
    | none =>
      cases howner : s.inflight.lookup key with
      | some owner => exact .joins hget howner
      | none => exact .computes hget howner

/-- A request that has just arrived. -/
def arrived (phase : Phase) : Task := ⟨req, s.floor, none, phase⟩

/-- **EVERYTHING A STEP CAN DO**, one case for each way it can go. -/
inductive Move (cfg : Config) (s : State) : Event → State → Prop where
  | bypass {id : Nat} {req : Request} {now : ℚ} (hnew : s.task id = none)
      (hroute : route cfg req = .bypass) :
      Move cfg s (.arrive id req now) (({ s with ids := id :: s.ids } : State).put id
          (arrived s req .bypassing))
  | waits {id : Nat} {req : Request} {now : ℚ} {base : String}
      (hnew : s.task id = none) (hroute : route cfg req = .keyed base)
      (hquery : req.method = "QUERY") :
      Move cfg s (.arrive id req now) (({ s with ids := id :: s.ids } : State).put id
          (arrived s req (.reading base)))
  | looks {id : Nat} {req : Request} {now : ℚ} {base : String} {s' : State}
      (hnew : s.task id = none) (hroute : route cfg req = .keyed base)
      (hquery : req.method ≠ "QUERY")
      (h : Looked cfg { s with ids := id :: s.ids } id (arrived s req .bypassing) base now s') :
      Move cfg s (.arrive id req now) s'
  | body {id : Nat} {now : ℚ} {t : Task} {base : String} {s' : State}
      (ht : s.task id = some t) (hphase : t.phase = .reading base)
      (h : Looked cfg s id t (queryCacheKey cfg t.request base) now s') :
      Move cfg s (.body id now) s'
  | read {id : Nat} {t : Task} (ht : s.task id = some t)
      (hphase : (∃ key, t.phase = .computing key) ∨ t.phase = .bypassing) :
      Move cfg s (.read id) (s.put id { t with readAt := some (t.readAt.getD s.commits.length) })
  | computed {id : Nat} {t : Task} {key : String} {result : Result} {now : ℚ}
      (ht : s.task id = some t) (hphase : t.phase = .computing key) :
      Move cfg s (.returns id result now)
        (({ s.drop key with store := keep cfg s.store id key result now } : State).replies id t id
          (finished cfg result))
  | passed {id : Nat} {t : Task} {result : Result} {now : ℚ}
      (ht : s.task id = some t) (hphase : t.phase = .bypassing) :
      Move cfg s (.returns id result now) (s.replies id t id (bypassed cfg t.request result))
  | failed {id : Nat} {t : Task} {key : String} (ht : s.task id = some t)
      (hphase : t.phase = .computing key) :
      Move cfg s (.raises id) ((s.drop key).fails id t)
  | woken {id owner : Nat} {t o : Task} {result : Result}
      (ht : s.task id = some t) (hphase : t.phase = .joined owner)
      (ho : s.task owner = some o)
      (hended : o.phase = .ended (.returned result)) :
      Move cfg s (.wake id) (s.replies id t owner result)
  | stops {e : Event} {id : Nat} {t : Task} (ht : s.task id = some t)
      (hphase : t.phase = .bypassing ∨ (∃ owner, t.phase = .joined owner) ∨
        ∃ base, t.phase = .reading base) :
      Move cfg s e (s.fails id t)
  | commit {written : List String} :
      Move cfg s (.commit written) { s with commits := s.commits ++ [written] }
  | announce {n : Nat} {written : List String}
      (hcommit : s.commits[n]? = some written)
      (hwatched : written.any cfg.watched.contains = true) :
      Move cfg s (.announce n) { s with store := Lease.clear s.store, floor := max s.floor (n + 1) }
  | forgets {e : Event} {store : Lease.Table String (Nat × Entry)}
      (hsub : ∀ x ∈ store.entries, x ∈ s.store.entries) :
      Move cfg s e { s with store := store }

variable {s : State} {id : Nat}

theorem arrive_move {req : Request} {now : ℚ} (hnew : s.task id = none) :
    Move cfg s (.arrive id req now) (arrive cfg s id req now) := by
  rw [arrive]
  cases hroute : route cfg req with
  | bypass => exact .bypass hnew hroute
  | keyed base =>
    dsimp only
    split
    · exact .waits hnew hroute ‹_›
    · exact .looks hnew hroute ‹_› (lookup_looked ..)

theorem invalidate_move (target : Option Request) :
    Move cfg s (.invalidate target) (invalidate cfg s target) := by
  cases target with
  | none => exact .forgets fun x hx => absurd hx not_mem_nil
  | some req =>
    rw [invalidate]
    split
    · exact .forgets fun x hx => hx
    · exact .forgets fun x hx => Lease.mem_others hx

variable {s' : State}

theorem step_move {e : Event} (h : step cfg s e = some s') : Move cfg s e s' := by
  cases e with
  | arrive id req now =>
    rw [step] at h
    split at h
    · cases h
    · rename_i hnew
      cases h
      exact arrive_move (Option.not_isSome_iff_eq_none.mp hnew)
  | body id now =>
    obtain ⟨t, ht, h⟩ := bind_eq_some_iff.mp h
    split at h
    · rename_i hph
      cases h
      exact .body ht hph (lookup_looked ..)
    · cases h
  | read id =>
    obtain ⟨t, ht, h⟩ := bind_eq_some_iff.mp h
    split at h
    · rename_i hph
      cases h
      exact .read ht (.inl ⟨_, hph⟩)
    · rename_i hph
      cases h
      exact .read ht (.inr hph)
    · cases h
  | returns id result now =>
    obtain ⟨t, ht, h⟩ := bind_eq_some_iff.mp h
    split at h
    · rename_i hph
      cases h
      exact .computed ht hph
    · rename_i hph
      cases h
      exact .passed ht hph
    · cases h
  | raises id =>
    obtain ⟨t, ht, h⟩ := bind_eq_some_iff.mp h
    split at h
    · rename_i hph
      cases h
      exact .failed ht hph
    · rename_i hph
      cases h
      exact .stops ht (.inl hph)
    · cases h
  | wake id =>
    obtain ⟨t, ht, h⟩ := bind_eq_some_iff.mp h
    split at h
    · rename_i owner hph
      split at h
      · rename_i result hresult
        obtain ⟨o, ho, hended⟩ := Option.map_eq_some_iff.mp hresult
        cases h
        exact .woken ht hph ho hended
      · cases h
        exact .stops ht (.inr (.inl ⟨owner, hph⟩))
      · cases h
    · cases h
  | cancel id =>
    obtain ⟨t, ht, h⟩ := bind_eq_some_iff.mp h
    split at h
    · rename_i owner hph
      cases h
      exact .stops ht (.inr (.inl ⟨owner, hph⟩))
    · rename_i base hph
      cases h
      exact .stops ht (.inr (.inr ⟨base, hph⟩))
    · cases h
  | commit written =>
    cases h
    exact .commit
  | announce n =>
    obtain ⟨written, hcommit, h⟩ := bind_eq_some_iff.mp h
    split at h
    · rename_i hwatch
      cases h
      exact .announce hcommit hwatch
    · cases h
      exact .forgets fun x hx => hx
  | invalidate target =>
    cases h
    exact invalidate_move target

/-! ## The wiring of tasks -/

section
variable {s s' : State} {id : Nat} {t' : Task}

section

variable (htask : s'.task = Function.update s.task id (some t'))
include htask

theorem task_self : s'.task id = some t' := by
  rw [htask, Function.update_self]

theorem task_other {i : Nat} (hi : i ≠ id) : s'.task i = s.task i := by
  rw [htask, Function.update_of_ne hi]

theorem task_cases {i : Nat} {t : Task} (h : s'.task i = some t) :
    (i = id ∧ t = t') ∨ (i ≠ id ∧ s.task i = some t) :=
  SlotMap.set_cases (htask ▸ h)

/-- What holds of the task that is set and of those before. -/
theorem task_all {P : Nat → Task → Prop} (hnew : P id t') (hold : ∀ i t, s.task i = some t → P i t)
    (i : Nat) (t : Task) (ht : s'.task i = some t) : P i t :=
  SlotMap.set_all hnew hold i t (htask ▸ ht)

end

/-- What holds of the answer that is given and of those before. -/
theorem answer_all {log : List Delivery} {d : Delivery} {P : Delivery → Prop} (hnew : P d) :
    ∀ d' ∈ log ++ [d], d' ∈ log ∨ P d' :=
  forall_mem_append.mpr ⟨fun _ => .inl, forall_mem_singleton.mpr (.inr hnew)⟩

end

/-- A request that neither runs a computation nor has ended. -/
def Idle (s : State) (id : Nat) : Prop :=
  ∀ t, s.task id = some t → (∀ key, t.phase ≠ .computing key) ∧ ∀ out, t.phase ≠ .ended out

theorem Idle.new (h : s.task id = none) : Idle s id := fun _ ht => nomatch h.symm.trans ht

theorem Idle.old {t : Task} (ht : s.task id = some t)
    (hph : t.phase = .bypassing ∨ (∃ owner, t.phase = .joined owner) ∨
      ∃ base, t.phase = .reading base) : Idle s id := by
  intro t₁ ht₁
  cases ht.symm.trans ht₁
  rcases hph with h | ⟨owner, h⟩ | ⟨base, h⟩
  · rw [h]; exact ⟨nofun, nofun⟩
  · rw [h]; exact ⟨nofun, nofun⟩
  · rw [h]; exact ⟨nofun, nofun⟩

/-- A request that others may have joined: it computes, or has ended. -/
def Leads (t : Task) : Prop := (∃ key, t.phase = .computing key) ∨ ∃ out, t.phase = .ended out

theorem Idle.leads {t : Task} (h : Idle s id) (ht : s.task id = some t) : ¬Leads t := by
  rintro (⟨key, hph⟩ | ⟨out, hph⟩)
  · exact (h t ht).1 key hph
  · exact (h t ht).2 out hph

/-- Every request that came is numbered, and what is in flight computes. -/
structure Wired (s : State) : Prop where
  ids : ∀ id t, s.task id = some t → id ∈ s.ids
  inflight : ∀ p ∈ s.inflight, ∃ t, s.task p.2 = some t ∧ t.phase = .computing p.1

theorem Wired.init : Wired (State.init cfg) := ⟨nofun, nofun⟩

section

variable (h : Wired s)
include h

theorem Wired.computes {key : String} {owner : Nat} (howner : s.inflight.lookup key = some owner) :
    ∃ t, s.task owner = some t ∧ t.phase = .computing key := by
  obtain ⟨l₁, l₂, hsplit, -⟩ := lookup_eq_some_iff.mp howner
  exact h.inflight (key, owner) (by rw [hsplit]; simp)

/-- One task moves. -/
theorem Wired.put {t' : Task} (htask : s'.task = Function.update s.task id (some t'))
    (hid : id ∈ s'.ids) (hids : ∀ i ∈ s.ids, i ∈ s'.ids)
    (hinflight : ∀ p ∈ s'.inflight, (p ∈ s.inflight ∧ p.2 ≠ id) ∨
      (p.2 = id ∧ t'.phase = .computing p.1)) : Wired s' := by
  constructor
  · exact task_all htask hid fun i t ht => hids i (h.ids i t ht)
  · intro p hp
    rcases hinflight p hp with ⟨hold, hne⟩ | ⟨hid, hph⟩
    · obtain ⟨t, ht, hph⟩ := h.inflight p hold
      exact ⟨t, (task_other htask hne).trans ht, hph⟩
    · exact ⟨t', hid ▸ task_self htask, hph⟩

/-- A task that does not compute is not in flight. -/
theorem Wired.idle (hidle : Idle s id)
    {p : String × Nat} (hp : p ∈ s.inflight) : p ∈ s.inflight ∧ p.2 ≠ id := by
  refine ⟨hp, ?_⟩
  rintro rfl
  obtain ⟨t, ht, hph⟩ := h.inflight p hp
  exact (hidle t ht).1 p.1 hph

/-- The computation under a key is the only one in flight under it. -/
theorem Wired.dropped {t : Task}
    {key : String} (ht : s.task id = some t) (hph : t.phase = .computing key)
    {p : String × Nat} (hp : p ∈ (s.drop key).inflight) : p ∈ s.inflight ∧ p.2 ≠ id := by
  obtain ⟨hmem, hkey⟩ := mem_filter.mp hp
  refine ⟨hmem, ?_⟩
  rintro rfl
  obtain ⟨t₁, ht₁, hph₁⟩ := h.inflight p hmem
  cases ht.symm.trans ht₁
  have hsame := Phase.computing.inj (hph.symm.trans hph₁)
  simp [hsame] at hkey

/-- A look-up for a task that does not compute. -/
theorem Wired.looked {t : Task} {key : String} {now : ℚ} (hid : id ∈ s.ids) (hidle : Idle s id)
    (hlook : Looked cfg s id t key now s') : Wired s' := by
  cases hlook with
  | hit | joins =>
    exact h.put rfl hid (fun _ hi => hi) fun p hp => .inl (h.idle hidle hp)
  | computes hget hnone =>
    refine h.put rfl hid (fun _ hi => hi) fun p hp => ?_
    rcases mem_cons.mp hp with rfl | hold
    · exact .inr ⟨rfl, rfl⟩
    · exact .inl (h.idle hidle hold)

/-- Numbering a request that has not looked at the cache yet. -/
theorem Wired.enter (id : Nat) : Wired { s with ids := id :: s.ids } :=
  ⟨fun i t ht => mem_cons_of_mem id (h.ids i t ht), h.inflight⟩

theorem Wired.move {e : Event} (hmove : Move cfg s e s') : Wired s' := by
  cases hmove with
  | bypass hnew _ | waits hnew _ _ =>
    exact h.put rfl mem_cons_self (fun _ => mem_cons_of_mem _)
      fun p hp => .inl (h.idle (.new hnew) hp)
  | looks hnew _ _ hlook =>
    exact (h.enter _).looked mem_cons_self (.new hnew) hlook
  | body ht hph hlook =>
    exact h.looked (h.ids _ _ ht) (.old ht (.inr (.inr ⟨_, hph⟩))) hlook
  | @read id t ht hph =>
    refine h.put rfl (h.ids _ _ ht) (fun _ hi => hi) fun p hp => ?_
    rcases hph with ⟨key, hph⟩ | hph
    · by_cases hp₂ : p.2 = id
      · obtain ⟨t₁, ht₁, hph₁⟩ := h.inflight p hp
        rw [hp₂] at ht₁
        cases ht.symm.trans ht₁
        exact .inr ⟨hp₂, hph₁⟩
      · exact .inl ⟨hp, hp₂⟩
    · exact .inl (h.idle (.old ht (.inl hph)) hp)
  | computed ht hph | failed ht hph =>
    exact h.put rfl (h.ids _ _ ht) (fun _ => id) fun p hp => .inl (h.dropped ht hph hp)
  | passed ht hph =>
    exact h.put rfl (h.ids _ _ ht) (fun _ => id) fun p hp =>
      .inl (h.idle (.old ht (.inl hph)) hp)
  | woken ht hph _ _ =>
    exact h.put rfl (h.ids _ _ ht) (fun _ => id) fun p hp =>
      .inl (h.idle (.old ht (.inr (.inl ⟨_, hph⟩))) hp)
  | stops ht hph =>
    exact h.put rfl (h.ids _ _ ht) (fun _ => id) fun p hp =>
      .inl (h.idle (.old ht hph) hp)
  | commit | announce | forgets => exact ⟨h.ids, h.inflight⟩

end

end ResponseCache
