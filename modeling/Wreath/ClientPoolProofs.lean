import Wreath.ClientResponseProofs
import Wreath.TableProofs
import Wreath.StepSystemProofs

/-! # The client's connection pool — whose bytes a response is made of

A request takes an idle connection, on the native path or through `_acquire`, or opens one;
it is written, and the stream reads a response from the bytes it has received. Leftover bytes
are refused when a response is complete and not looked for again: what a connection receives
while it is idle is the response of the next request (`stale_response`). When bytes come only
while a response is due, every response is made of its own (`answers_own_request`). -/

namespace ClientPool

open ClientResponse StepSystem List Option Function

/-- A connection and its stream. `due` says that a request was written whose response has
    not ended; `stray`, that bytes have come when none was due, and how many requests had
    been written by then. -/
structure Conn where
  buffer : List Octet
  eof : Bool
  connected : Bool
  closing : Bool
  paused : Bool
  reading : Option Reading
  owner : Option Nat
  written : Nat
  due : Bool
  stray : Option Nat
  deriving DecidableEq

inductive Outcome where
  | answer (a : Response)
  | failed (e : Refusal)
  deriving DecidableEq

/-- `reading true` is the native path, which releases the connection itself; on the other
    path the task releases it when it sees what was `resolved`. -/
inductive Phase where
  | parked
  | connecting
  | fresh
  | draining
  | reading (native : Bool)
  | resolved (o : Outcome) (reusable : Bool)
  | done (o : Outcome)
  deriving DecidableEq

/-- A request, with its number on the connection. -/
structure Request where
  method : String
  conn : Nat
  seq : Nat
  phase : Phase
  deriving DecidableEq

structure Config where
  maxHeader : Nat
  maxBody : Nat
  maxIdle : Nat
  maxConnections : Nat
  maxWaiters : Nat

/-- `idle` has the connection that was released last in front. -/
structure State where
  conn : Nat → Option Conn
  request : Nat → Option Request
  idle : List Nat
  opened : Nat
  waiters : Nat
  started : Bool

def State.init : State := ⟨fun _ => none, fun _ => none, [], 0, 0, true⟩

inductive Event where
  | native (r : Nat) (method : String)
  | ask (r : Nat) (method : String)
  | wake (r : Nat)
  | connected (r c : Nat)
  | write (r : Nat)
  | drained (r : Nat)
  | release (r : Nat)
  | fail (r : Nat) (e : Refusal)
  | receive (c : Nat) (data : ByteScan.Bytes)
  | eof (c : Nat)
  | lose (c : Nat) (error : Bool)
  | pausing (c : Nat) (paused : Bool)
  | stop

/-! ## The pool -/

variable (s : State)

def State.setConn (c : Nat) (k : Conn) : State := { s with conn := update s.conn c (some k) }

def State.put (r : Nat) (q : Request) : State := { s with request := update s.request r (some q) }

/-- `fast_stream_is_open`. -/
def fastStreamIsOpen (k : Conn) : Bool := k.connected && !k.eof && !k.paused && !k.closing

/-- What `_acquire` asks of an idle connection. -/
def usable (k : Conn) : Bool := !k.closing && !(k.eof && k.buffer.isEmpty)

variable (ok : Conn → Bool)

/-- The idle connections that are in front of the first one that will do. -/
def State.skipped : List Nat := s.idle.takeWhile fun c => !(s.conn c).any ok

/-- The idle connections from the first one that will do. -/
def State.picks : List Nat := s.idle.dropWhile fun c => !(s.conn c).any ok

/-- Connections that will not do are closed. -/
def State.skip : State := { s with
    conn := fun c =>
      if c ∈ s.skipped ok then (s.conn c).map fun k => { k with closing := true }
      else s.conn c
    idle := s.picks ok
    opened := s.opened - (s.skipped ok).length }

/-- The request is written to connection `c`. -/
def Conn.send (k : Conn) (r : Nat) : Conn :=
  { k with owner := some r, written := k.written + 1, due := true }

/-- A connection is given back: kept, or closed. -/
def giveBack (c : Nat) (k : Conn) (keep : Bool) : State :=
  if keep then
    { s.setConn c { k with owner := none } with idle := c :: s.idle }
  else
    { s.setConn c { k with owner := none, closing := true } with opened := s.opened - 1 }

variable (cfg : Config)

variable (s : State) (r : Nat)

/-- `fast_release_connection` keeps a connection. -/
def keepNative (k : Conn) (reusable : Bool) : Bool :=
  reusable && s.started && s.waiters == 0 && k.connected && !k.eof && s.idle.length < cfg.maxIdle

/-- `_release` keeps a connection. -/
def keepPython (k : Conn) (reusable : Bool) : Bool :=
  reusable && s.started && usable k && s.idle.length < cfg.maxIdle

/-- The response has ended, in whichever way. -/
def resolve (q : Request) (k : Conn) (o : Outcome) (reusable : Bool) : State :=
  let k' := { k with reading := none, due := false }
  match q.phase with
  | .reading true =>
    (giveBack s q.conn k' (keepNative cfg s k reusable)).put r { q with phase := .done o }
  | _ => (s.setConn q.conn k').put r { q with phase := .resolved o reusable }

/-- `cs_try_satisfy` for the response that request `r` reads. -/
def satisfy (q : Request) (k : Conn) (reading : Reading) : State :=
  match takeResponse k.eof reading k.buffer with
  | .error e => resolve cfg s r q k (.failed e) false
  | .ok ([], reading', rest) =>
    (s.setConn q.conn { k with reading := some reading', buffer := rest }).put r q
  | .ok (a :: _, reading', rest) =>
    resolve cfg s r q { k with buffer := rest } (.answer a) reading'.reusable

/-- The stream has changed, and a response that is read looks at it. -/
def look (c : Nat) (k : Conn) : State :=
  match k.owner.bind fun r => (s.request r).map (r, ·), k.reading with
  | some (r, q), some reading => satisfy cfg s r q k reading
  | _, _ => s.setConn c k

/-- `cs_start_response`. -/
def startResponse (q : Request) (k : Conn) : State :=
  satisfy cfg s r q k (.start q.method cfg.maxHeader cfg.maxBody)

/-! ## Requests -/

/-- `http_client_request_once_parts`: nothing else happens when there is no idle connection
    that will do. -/
def native (method : String) : Option State :=
  if (s.request r).isSome ∨ !s.started ∨ s.waiters ≠ 0 then none
  else
    let s' := s.skip fastStreamIsOpen
    match s'.idle with
    | [] => some s'
    | c :: rest => do
        let k ← s'.conn c
        some (startResponse cfg { s' with idle := rest } r
          ⟨method, c, k.written + 1, .reading true⟩ (k.send r))

/-- `_acquire`, up to where it waits. -/
def acquire (method : String) : Option State :=
  if !s.started then some (s.put r ⟨method, 0, 0, .done (.failed .transport)⟩)
  else
    let s' := s.skip usable
    match s'.idle with
    | c :: rest => do
        let k ← s'.conn c
        some (({ s' with idle := rest }.setConn c (k.send r)).put r
          ⟨method, c, k.written + 1, .draining⟩)
    | [] =>
      if s'.opened < cfg.maxConnections then
        some ({ s' with opened := s'.opened + 1 }.put r ⟨method, 0, 0, .connecting⟩)
      else if cfg.maxWaiters ≤ s'.waiters then
        some (s'.put r ⟨method, 0, 0, .done (.failed .timeout)⟩)
      else
        some ({ s' with waiters := s'.waiters + 1 }.put r ⟨method, 0, 0, .parked⟩)

/-- A new connection. -/
def Conn.new : Conn := ⟨[], false, true, false, false, none, some r, 0, false, none⟩

/-- The request ends with an error: a timeout, a cancellation, a refused connection. A
    connection that it has is closed. -/
def fail (e : Refusal) : Option State := do
  let q ← s.request r
  let ended := { q with phase := .done (.failed e) }
  match q.phase with
  | .parked => some ({ s with waiters := s.waiters - 1 }.put r ended)
  | .connecting => some ({ s with opened := s.opened - 1 }.put r ended)
  | .fresh => some (s.put r ended)
  | .draining | .reading _ | .resolved .. => do
      let k ← s.conn q.conn
      some ((giveBack s q.conn { k with reading := none, due := false } false).put r ended)
  | .done _ => none

def step : Event → Option State
  | .native r method => native cfg s r method
  | .ask r method =>
    if (s.request r).isSome then none else acquire cfg s r method
  | .wake r => do
      let q ← s.request r
      if q.phase = .parked then
        acquire cfg { s with waiters := s.waiters - 1 } r q.method
      else none
  | .connected r c => do
      let q ← s.request r
      if q.phase = .connecting ∧ s.conn c = none then
        some ((s.setConn c (.new r)).put r { q with conn := c, phase := .fresh })
      else none
  | .write r => do
      let q ← s.request r
      let k ← s.conn q.conn
      if q.phase = .fresh then
        if s.started then
          some ((s.setConn q.conn (k.send r)).put r
            { q with seq := k.written + 1, phase := .draining })
        else
          some ((giveBack s q.conn k false).put r { q with phase := .done (.failed .transport) })
      else none
  | .drained r => do
      let q ← s.request r
      let k ← s.conn q.conn
      if q.phase = .draining then
        if k.connected then
          some (startResponse cfg s r { q with phase := .reading false } k)
        else fail s r .transport
      else none
  | .release r => do
      let q ← s.request r
      let k ← s.conn q.conn
      match q.phase with
      | .resolved o reusable =>
        some ((giveBack s q.conn k (keepPython cfg s k reusable)).put r { q with phase := .done o })
      | _ => none
  | .fail r e => fail s r e
  | .receive c data => do
      let k ← s.conn c
      if k.connected ∧ !k.eof ∧ !k.closing ∧ data ≠ [] then
        some (look cfg s c { k with
          buffer := k.buffer ++ data.map (⟨·, k.written⟩)
          stray := if k.due then k.stray else some k.written })
      else none
  | .eof c => do
      let k ← s.conn c
      some (look cfg s c { k with eof := true })
  | .lose c error => do
      let k ← s.conn c
      let k' := { k with eof := true, connected := false, closing := true, paused := false }
      if error then
        match k.owner.bind fun r => (s.request r).map (r, ·), k.reading with
        | some (r, q), some _ => some (resolve cfg s r q k' (.failed .transport) false)
        | _, _ => some (s.setConn c k')
      else some (look cfg s c k')
  | .pausing c paused => do
      let k ← s.conn c
      some (s.setConn c { k with paused := paused })
  | .stop =>
    some { s with
      conn := fun c =>
        if c ∈ s.idle then (s.conn c).map fun k => { k with closing := true }
        else s.conn c
      idle := [], opened := s.opened - s.idle.length, started := false }

/-! ## What holds of the pool -/

/-- What a connection's bytes and marks say of each other. -/
structure Conn.Tidy (k : Conn) : Prop where
  buffer : k.due = true → ∀ o ∈ k.buffer, o.after = k.written
  used : k.due = true → ∀ g, k.reading = some g → ∀ o ∈ g.used, o.after = k.written
  reading : k.due = false → k.reading = none

/-- The answer is made of what was received while request `seq` was the last one written. -/
def Outcome.Own (seq : Nat) : Outcome → Prop
  | .answer a => ∀ o ∈ a.used, o.after = seq
  | .failed _ => True

/-- What a request's phase says of the connection that it names. -/
def Holds (conn : Option Conn) (r : Nat) (q : Request) : Prop :=
  match q.phase with
  | .parked | .connecting => True
  | .fresh => ∃ k, conn = some k ∧ k.owner = some r ∧ k.due = false ∧ k.buffer = []
  | .draining | .reading _ =>
    ∃ k, conn = some k ∧ k.owner = some r ∧ k.due = true ∧ k.written = q.seq
  | .resolved o reusable =>
    o.Own q.seq ∧ ∃ k, conn = some k ∧ k.owner = some r ∧ k.due = false ∧
      (reusable = true → k.buffer = [])
  | .done o => o.Own q.seq

/-- Who has which connection, and that the idle ones hold no bytes. -/
structure Sound (s : State) : Prop where
  nodup : s.idle.Nodup
  resting : ∀ c ∈ s.idle, ∃ k, s.conn c = some k ∧ k.owner = none ∧ k.due = false ∧ k.buffer = []
  tidy : ∀ c k, s.conn c = some k → k.Tidy
  held : ∀ r q, s.request r = some q → Holds (s.conn q.conn) r q
  reads : ∀ c k g, s.conn c = some k → k.reading = some g →
    ∃ r q b, k.owner = some r ∧ s.request r = some q ∧ q.conn = c ∧ q.phase = .reading b

variable {r : Nat} {q : Request}

/-- A request that has no part in a connection is not concerned by it. -/
theorem Holds.elsewhere {conn conn' : Option Conn}
    (h : Holds conn r q) (hnot : ∀ k, conn = some k → k.owner ≠ some r) : Holds conn' r q := by
  unfold Holds at h ⊢
  split
  case h_1 | h_2 => trivial
  case h_3 hq | h_4 hq | h_5 hq =>
    rw [hq] at h
    obtain ⟨k, hk, hown, -⟩ := h
    exact absurd hown (hnot k hk)
  case h_6 hq =>
    rw [hq] at h
    obtain ⟨-, k, hk, hown, -⟩ := h
    exact absurd hown (hnot k hk)
  case h_7 hq =>
    rw [hq] at h
    exact h

variable {k : Conn}

/-- Flags that the bytes and marks do not depend on. -/
theorem Conn.Tidy.flags (h : k.Tidy) (eof connected closing paused : Bool) : Conn.Tidy { k with
      eof := eof, connected := connected, closing := closing, paused := paused } := { h with }

/-- The connection is redrawn, and keeps its owner and count; bytes come only to one that a
    response is due on. -/
structure Keeps (k k' : Conn) : Prop where
  tidy : k.Tidy → k'.Tidy
  buffer : k.due = false → k'.buffer = k.buffer := by exact fun _ => rfl
  owner : k'.owner = k.owner := by rfl
  due : k'.due = k.due := by rfl
  written : k'.written = k.written := by rfl
  reading : k'.reading = k.reading := by rfl

theorem Holds.same {k' : Conn} (h : Holds (some k) r q) (hkeeps : Keeps k k') :
    Holds (some k') r q := by
  have hbuffer := hkeeps.buffer
  unfold Holds at h ⊢
  simp only [Option.some.injEq, exists_eq_left'] at h ⊢
  rw [hkeeps.owner, hkeeps.due, hkeeps.written]
  split <;> simp_all

variable {s : State} {s' : State} {c : Nat}

/-- **ONE REQUEST, ONE CONNECTION**: a step that redraws a request and the connection it
    has, or takes, concerns no other. -/
theorem Sound.turn (h : Sound s) (hc : s'.conn = update s.conn c (some k))
    (hr : s'.request = update s.request r (some q))
    (hown : ∀ k₀, s.conn c = some k₀ → k₀.owner = none ∨ k₀.owner = some r)
    (hwas : ∀ q₀, s.request r = some q₀ → q₀.conn = c ∨ ∀ b, q₀.phase ≠ .reading b)
    (hat : q.conn = c) (htidy : k.Tidy) (hholds : Holds (some k) r q)
    (hreads : ∀ g, k.reading = some g → k.owner = some r ∧ ∃ b, q.phase = .reading b)
    (hnd : s'.idle.Nodup)
    (hidle : ∀ d ∈ s'.idle, d ≠ c ∧ d ∈ s.idle ∨
      d = c ∧ k.owner = none ∧ k.due = false ∧ k.buffer = []) :
    Sound s' := by
  refine ⟨hnd, ?_, ?_, ?_, ?_⟩
  · intro d hd
    rw [hc]
    rcases hidle d hd with ⟨hne, hin⟩ | ⟨rfl, hfree⟩
    · rw [update_of_ne hne]
      exact h.resting d hin
    · rw [update_self]
      exact ⟨k, rfl, hfree⟩
  · intro d k₁ hk₁
    rw [hc] at hk₁
    rcases SlotMap.update_cases hk₁ with ⟨rfl, hk⟩ | ⟨hne, hold⟩
    · cases hk
      exact htidy
    · exact h.tidy d k₁ hold
  · intro r₁ q₁ hq₁
    rw [hr] at hq₁
    rw [hc]
    rcases SlotMap.update_cases hq₁ with ⟨rfl, hq⟩ | ⟨hne, hold⟩
    · cases hq
      rw [hat, update_self]
      exact hholds
    · by_cases hc₁ : q₁.conn = c
      · -- the connection is the other request's, or no one's
        refine (h.held r₁ q₁ hold).elsewhere ?_
        intro k₀ hk₀ howned
        rw [hc₁] at hk₀
        rcases hown k₀ hk₀ with hno | hsome
        · cases hno.symm.trans howned
        · rw [hsome] at howned
          exact hne (some.inj howned).symm
      · rw [update_of_ne hc₁]
        exact h.held r₁ q₁ hold
  · intro d k₁ g hk₁ hg
    rw [hc] at hk₁
    rw [hr]
    rcases SlotMap.update_cases hk₁ with ⟨rfl, hk⟩ | ⟨hne, hold⟩
    · cases hk
      obtain ⟨ho, b, hb⟩ := hreads g hg
      exact ⟨r, q, b, ho, update_self .., hat, hb⟩
    · obtain ⟨r₁, q₁, b, ho, hq₁, hat₁, hb⟩ := h.reads d k₁ g hold hg
      refine ⟨r₁, q₁, b, ho, ?_, hat₁, hb⟩
      rw [update_of_ne ?_]
      · exact hq₁
      · rintro rfl
        rcases hwas q₁ hq₁ with hsame | hnot
        · exact hne (hat₁.symm.trans hsame)
        · exact hnot b hb

/-- The request, if there is one, does not read. -/
def Unread (s : State) (r : Nat) : Prop := ∀ q₀, s.request r = some q₀ → ∀ b, q₀.phase ≠ .reading b

theorem unread_of_phase {p : Phase} (hq : s.request r = some q) (hph : q.phase = p)
    (hno : ∀ b, p ≠ .reading b) : Unread s r := by
  intro q₀ hq₀
  cases hq.symm.trans hq₀
  rw [hph]
  exact hno

/-- A request that has no connection is redrawn. -/
theorem Sound.put (h : Sound s)
    (hsame : (s'.request, s'.conn, s'.idle) = (update s.request r (some q), s.conn, s.idle))
    (hwas : Unread s r) (hholds : Holds (s.conn q.conn) r q) : Sound s' := by
  simp only [Prod.mk.injEq] at hsame
  obtain ⟨hr, hc, hi⟩ := hsame
  refine ⟨hi ▸ h.nodup, ?_, ?_, ?_, ?_⟩
  · rw [hi, hc]
    exact h.resting
  · rw [hc]
    exact h.tidy
  · intro r₁ q₁ hq₁
    rw [hr] at hq₁
    rw [hc]
    rcases SlotMap.update_cases hq₁ with ⟨rfl, hq⟩ | ⟨-, hold⟩
    · cases hq
      exact hholds
    · exact h.held r₁ q₁ hold
  · intro d k g hk hg
    rw [hc] at hk
    obtain ⟨r₁, q₁, b, ho, hq₁, hat, hb⟩ := h.reads d k g hk hg
    refine ⟨r₁, q₁, b, ho, ?_, hat, hb⟩
    rw [hr, update_of_ne]
    · exact hq₁
    · rintro rfl
      exact hwas q₁ hq₁ b hb

theorem Sound.redraw {f : Nat → Conn → Conn} (h : Sound s)
    (hc : ∀ c, s'.conn c = (s.conn c).map (f c)) (hr : s'.request = s.request)
    (hi : s'.idle.Sublist s.idle) (hkeeps : ∀ c k, s.conn c = some k → Keeps k (f c k)) :
    Sound s' := by
  refine ⟨h.nodup.sublist hi, ?_, ?_, ?_, ?_⟩
  · intro c hmem
    obtain ⟨k, hk, ho, hd, hnil⟩ := h.resting c (hi.subset hmem)
    have hkeep := hkeeps c k hk
    refine ⟨f c k, ?_, hkeep.owner.trans ho, hkeep.due.trans hd, (hkeep.buffer hd).trans hnil⟩
    rw [hc, hk, map_some]
  · intro c k' hk'
    rw [hc] at hk'
    obtain ⟨k, hk, rfl⟩ := map_eq_some_iff.mp hk'
    exact (hkeeps c k hk).tidy (h.tidy c k hk)
  · intro r q hq
    rw [hr] at hq
    have hheld := h.held r q hq
    rw [hc]
    cases hk : s.conn q.conn with
    | none =>
      rw [hk] at hheld
      exact hheld
    | some k =>
      rw [hk] at hheld
      exact hheld.same (hkeeps _ k hk)
  · intro c k' g hk' hg
    rw [hc] at hk'
    obtain ⟨k, hk, rfl⟩ := map_eq_some_iff.mp hk'
    rw [(hkeeps c k hk).reading] at hg
    rw [(hkeeps c k hk).owner, hr]
    exact h.reads c k g hk hg

/-! ## The functions of the pool keep it -/

/-- Marking a connection as closing changes nothing else. -/
theorem Sound.closing (h : Sound s) (cs : List Nat) (hc : ∀ c, s'.conn c =
      if c ∈ cs then (s.conn c).map fun k => { k with closing := true } else s.conn c)
    (hr : s'.request = s.request) (hi : s'.idle.Sublist s.idle) : Sound s' := by
  refine h.redraw (f := fun c k =>
    { k with closing := if c ∈ cs then true else k.closing }) ?_ hr hi fun _ _ _ =>
    { tidy := fun ht => ht.flags .. }
  intro c
  rw [hc c]
  cases s.conn c with
  | none => simp
  | some k => by_cases hmem : c ∈ cs <;> simp [hmem]

theorem Sound.skip (h : Sound s) (ok : Conn → Bool) : Sound (s.skip ok) :=
  h.closing (s.skipped ok) (fun _ => rfl) rfl (dropWhile_sublist _)

/-- A connection that no response is due on is tidy. -/
theorem Conn.Tidy.rest (hdue : k.due = false) (hread : k.reading = none) : k.Tidy := by
  refine ⟨?_, ?_, fun _ => hread⟩
  all_goals
    intro h
    cases hdue.symm.trans h

/-- Sending on a connection without bytes. -/
theorem Conn.Tidy.send (h : k.Tidy) (hdue : k.due = false)
    (hnil : k.buffer = []) (r : Nat) : (k.send r).Tidy := by
  refine ⟨fun _ o ho => ?_, fun _ g hg => ?_, nofun⟩
  · rw [show (k.send r).buffer = [] from hnil] at ho
    cases ho
  · rw [show (k.send r).reading = none from h.reading hdue] at hg
    cases hg

/-- The request has its connection, or may take it. -/
structure Redraws (s : State) (r c : Nat) : Prop where
  own : ∀ k₀, s.conn c = some k₀ → k₀.owner = none ∨ k₀.owner = some r
  was : ∀ q₀, s.request r = some q₀ → q₀.conn = c ∨ ∀ b, q₀.phase ≠ .reading b
  idle : c ∉ s.idle

section

variable (h : Sound s)
include h

/-- The idle list stays as it is. -/
theorem Sound.keep (hsame : (s'.request, s'.conn, s'.idle)
      = (update s.request r (some q), update s.conn q.conn (some k), s.idle))
    (hdraw : Redraws s r q.conn) (htidy : k.Tidy) (hholds : Holds (some k) r q)
    (hreads : ∀ g, k.reading = some g → k.owner = some r ∧ ∃ b, q.phase = .reading b) :
    Sound s' := by
  simp only [Prod.mk.injEq] at hsame
  obtain ⟨hr, hc, hi⟩ := hsame
  refine h.turn hc hr hdraw.own hdraw.was rfl htidy hholds hreads (hi ▸ h.nodup) ?_
  intro d hd
  rw [hi] at hd
  refine .inl ⟨?_, hd⟩
  rintro rfl
  exact hdraw.idle hd

/-- **GIVING BACK**: a request that is done gives its connection back, and one that is kept
    holds no bytes. -/
theorem Sound.giveBack {o : Outcome} {keep : Bool}
    (hdraw : Redraws s r q.conn) (hdue : k.due = false) (htidy : k.Tidy) (ho : o.Own q.seq)
    (hnil : keep = true → k.buffer = []) :
    Sound ((giveBack s q.conn k keep).put r { q with phase := .done o }) := by
  have hread := htidy.reading hdue
  cases keep with
  | true =>
    refine h.turn (c := q.conn) (k := { k with owner := none }) (q := _) rfl rfl hdraw.own
      hdraw.was rfl (.rest hdue hread) ho ?_ ?_ ?_
    · intro g hg
      exact nomatch hread.symm.trans hg
    · exact nodup_cons.mpr ⟨hdraw.idle, h.nodup⟩
    · intro d hd
      rcases mem_cons.mp hd with rfl | hin
      · exact .inr ⟨rfl, rfl, hdue, hnil rfl⟩
      · exact .inl ⟨fun e => hdraw.idle (e ▸ hin), hin⟩
  | false =>
    refine h.keep (k := { k with owner := none, closing := true }) rfl hdraw
      (.rest hdue hread) ho ?_
    intro g hg
    exact nomatch hread.symm.trans hg

theorem resolve_sound {o : Outcome} {reusable : Bool} (hdraw : Redraws s r q.conn)
    (howner : k.owner = some r) (ho : o.Own q.seq) (hnil : reusable = true → k.buffer = []) :
    Sound (resolve cfg s r q k o reusable) := by
  have htidy : Conn.Tidy { k with reading := none, due := false } := .rest rfl rfl
  unfold resolve
  split
  · refine h.giveBack hdraw rfl htidy ho fun hkeep => hnil ?_
    simp only [keepNative, Bool.and_eq_true] at hkeep
    exact hkeep.1.1.1.1.1
  · exact h.keep rfl hdraw htidy ⟨ho, _, rfl, howner, rfl, hnil⟩ nofun

/-- **READING**: whatever the stream makes of its bytes, an answer is made of bytes that
    came after the request was written. -/
theorem satisfy_sound {g : Reading} {b : Bool} (hdraw : Redraws s r q.conn)
    (hph : q.phase = .reading b) (howner : k.owner = some r) (hdue : k.due = true)
    (hseq : k.written = q.seq) (htidy : k.Tidy) (hused : ∀ o ∈ g.used, o.after = k.written) :
    Sound (satisfy cfg s r q k g) := by
  have hbytes : ∀ o ∈ g.used ++ k.buffer, o.after = k.written := by
    intro o ho
    rcases mem_append.mp ho with hu | hb
    · exact hused o hu
    · exact htidy.buffer hdue o hb
  unfold satisfy
  split
  · exact resolve_sound cfg h hdraw howner trivial nofun
  · next g' rest htake =>
      obtain ⟨hsame, -⟩ := takeResponse_accounts htake
      rw [← hsame] at hbytes
      refine h.keep (k := { k with reading := some g', buffer := rest }) rfl hdraw ?_ ?_ ?_
      · refine ⟨fun _ o ho => ?_, fun _ g₁ hg₁ o ho => ?_, ?_⟩
        · exact hbytes o (mem_append_right _ ho)
        · cases hg₁
          exact hbytes o (mem_append_left _ ho)
        · exact fun hno => nomatch hdue.symm.trans hno
      · unfold Holds
        rw [hph]
        exact ⟨_, rfl, howner, hdue, hseq⟩
      · exact fun _ _ => ⟨howner, b, hph⟩
  · next a more g' rest htake =>
      obtain ⟨hsame, hans⟩ := takeResponse_accounts htake
      rw [← hsame] at hbytes
      obtain ⟨hmade, hnil⟩ := hans a mem_cons_self
      refine resolve_sound cfg h hdraw howner ?_ fun _ => hnil
      intro o ho
      rw [hmade] at ho
      exact (hbytes o (mem_append_left _ ho)).trans hseq


/-! ## Every step keeps it -/

theorem Sound.holds {p : Phase} (hq : s.request r = some q) (hph : q.phase = p) :
    Holds (s.conn q.conn) r { q with phase := p } := by
  subst hph
  exact h.held r q hq

theorem Sound.not_idle (hk : s.conn c = some k) (howner : k.owner = some r) : c ∉ s.idle := by
  intro hidle
  obtain ⟨k₁, hk₁, hnone, -⟩ := h.resting c hidle
  cases hk.symm.trans hk₁
  exact nomatch hnone.symm.trans howner

/-- A request that has its connection may redraw both. -/
theorem Sound.redraws (hq : s.request r = some q) (hk : s.conn q.conn = some k)
    (howner : k.owner = some r) : Redraws s r q.conn := by
  refine ⟨?_, ?_, h.not_idle hk howner⟩
  · intro k₀ hk₀
    cases hk.symm.trans hk₀
    exact .inr howner
  · intro q₀ hq₀
    cases hq.symm.trans hq₀
    exact .inl rfl

theorem Sound.setConn {k₀ : Conn} (hk : s.conn c = some k₀) (hkeeps : Keeps k₀ k) :
    Sound (s.setConn c k) := by
  refine h.redraw (f := fun d x => if d = c then k else x) ?_ rfl (.refl _) ?_
  · intro d
    show update s.conn c (some k) d = _
    by_cases hd : d = c
    · subst hd
      rw [update_self, hk, map_some, if_pos rfl]
    · simp [hd]
  · intro d x hx
    split
    · next hd =>
      subst hd
      cases hk.symm.trans hx
      exact hkeeps
    · exact { tidy := id }

/-- Whoever reads a connection is the request it is lent to. -/
theorem Sound.reader {g : Reading} (hk : s.conn c = some k) (hg : k.reading = some g)
    (hwho : (k.owner.bind fun r => (s.request r).map fun q => (r, q)) = some (r, q)) :
    ∃ b, k.owner = some r ∧ s.request r = some q ∧ q.conn = c ∧ q.phase = .reading b := by
  obtain ⟨r₁, q₁, b, howner, hq₁, hc, hph⟩ := h.reads c k g hk hg
  rw [howner] at hwho
  simp only [bind_some, hq₁, map_some, Option.some.injEq, Prod.mk.injEq] at hwho
  obtain ⟨rfl, rfl⟩ := hwho
  exact ⟨b, howner, hq₁, hc, hph⟩

/-- The stream changes, and whoever reads looks at it. -/
theorem look_sound {k₀ : Conn} (hk : s.conn c = some k₀) (hkeeps : Keeps k₀ k) :
    Sound (look cfg s c k) := by
  unfold look
  split
  · next r q g hwho hg =>
      rw [hkeeps.owner] at hwho
      obtain ⟨b, howner, hq, rfl, hph⟩ := h.reader hk (hkeeps.reading.symm.trans hg) hwho
      obtain ⟨k₁, hk₁, -, hdue, hseq⟩ := h.holds hq hph
      cases hk.symm.trans hk₁
      have hdue' := hkeeps.due.trans hdue
      have htidy := hkeeps.tidy (h.tidy _ _ hk)
      exact satisfy_sound cfg h (h.redraws hq hk howner) hph
        (hkeeps.owner.trans howner) hdue' (hkeeps.written.trans hseq) htidy (htidy.used hdue' g hg)
  · exact h.setConn hk hkeeps

end

/-- A request takes the connection at the front of the idle list. -/
theorem Sound.takes {ok : Conn → Bool} {rest : List Nat} (h : Sound s)
    (hidle : (s.skip ok).idle = c :: rest) (hk : (s.skip ok).conn c = some k) (hwas : Unread s r) :
    Sound { s.skip ok with idle := rest } ∧ Redraws { s.skip ok with idle := rest } r c
      ∧ (k.send r).Tidy ∧ k.reading = none := by
  have hskip := h.skip ok
  have hnd := hskip.nodup
  rw [hidle, nodup_cons] at hnd
  obtain ⟨k₁, hk₁, hnone, hdue, hnil⟩ := hskip.resting c (by rw [hidle]; exact mem_cons_self)
  cases hk.symm.trans hk₁
  have htidy := hskip.tidy c k hk
  refine ⟨?_, ⟨fun k₀ hk₀ => ?_, fun q₀ hq₀ => .inr (hwas q₀ hq₀), hnd.1⟩,
    htidy.send hdue hnil r, htidy.reading hdue⟩
  · refine hskip.redraw (f := fun _ => id) (fun c => (Option.map_id' ..).symm) rfl ?_
      fun _ _ _ => { tidy := id }
    rw [hidle]
    exact sublist_cons_self c rest
  · cases hk.symm.trans hk₀
    exact .inl hnone

theorem native_sound {method : String} (h : Sound s)
    (hstep : native cfg s r method = some s') : Sound s' := by
  unfold native at hstep
  split at hstep
  · cases hstep
  next hnew =>
  have hfresh : s.request r = none := by
    cases hr : s.request r with
    | none => rfl
    | some q => exact absurd (.inl (by rw [hr]; rfl)) hnew
  dsimp only at hstep
  split at hstep
  · cases hstep
    exact h.skip fastStreamIsOpen
  · next c rest hidle =>
      obtain ⟨k, hk, hstep⟩ := bind_eq_some_iff.mp hstep
      cases hstep
      obtain ⟨htaken, hdraw, htidy, -⟩ :=
        h.takes hidle hk fun q₀ hq₀ => nomatch hfresh.symm.trans hq₀
      exact satisfy_sound cfg htaken (b := true) hdraw rfl rfl rfl rfl htidy nofun

theorem acquire_sound {method : String} (h : Sound s) (hwas : Unread s r)
    (hstep : acquire cfg s r method = some s') : Sound s' := by
  have hskip := h.skip usable
  revert hstep
  fun_cases acquire cfg s r method with
  | case1 =>
    rintro ⟨⟩
    exact h.put rfl hwas trivial
  | case2 _ _ c rest hidle =>
    intro hstep
    obtain ⟨k, hk, hstep⟩ := bind_eq_some_iff.mp hstep
    cases hstep
    obtain ⟨htaken, hdraw, htidy, hread⟩ := h.takes hidle hk hwas
    exact htaken.keep (k := k.send r) rfl hdraw htidy ⟨_, rfl, rfl, rfl, rfl⟩
      fun g hg => nomatch hread.symm.trans hg
  | _ =>
    rintro ⟨⟩
    exact hskip.put rfl hwas trivial

/-- An owned connection that ends without an answer. -/
theorem Sound.abandon {e : Refusal} (h : Sound s) (hq : s.request r = some q)
    (hk : s.conn q.conn = some k) (howner : k.owner = some r) :
    Sound ((ClientPool.giveBack s q.conn { k with reading := none, due := false } false).put r
      { q with phase := .done (.failed e) }) := by
  have hdraw := h.redraws hq hk howner
  exact h.giveBack hdraw rfl (.rest rfl rfl) trivial nofun

theorem fail_sound {e : Refusal} (h : Sound s) (hstep : fail s r e = some s') : Sound s' := by
  obtain ⟨q, hq, hstep⟩ := bind_eq_some_iff.mp hstep
  split at hstep
  case h_1 hph | h_2 hph | h_3 hph =>
    cases hstep
    exact h.put rfl (unread_of_phase hq hph nofun) trivial
  case h_4 hph | h_5 hph =>
    obtain ⟨k, hk, howner, -⟩ := h.holds hq hph
    rw [hk] at hstep
    cases hstep
    exact h.abandon hq hk howner
  case h_6 hph =>
    obtain ⟨-, k, hk, howner, -⟩ := h.holds hq hph
    rw [hk] at hstep
    cases hstep
    exact h.abandon hq hk howner
  case h_7 => cases hstep

/-- **NOTHING UNASKED**: the condition on a step. Bytes come to a connection only while a
    response is due on it. -/
def Clean (s : State) : Event → Prop
  | .receive c _ => ∀ k ∈ s.conn c, k.due = true
  | _ => True

instance (s : State) : DecidablePred (Clean s)
  | .receive c _ => inferInstanceAs (Decidable (∀ k ∈ s.conn c, k.due = true))
  | .native .. | .ask .. | .wake _ | .write _ | .connected .. | .drained _ | .release _
  | .fail .. | .eof _ | .lose .. | .pausing .. | .stop => .isTrue trivial

/-- Bytes are received while a response is due. -/
theorem Conn.Tidy.receive (h : k.Tidy) (hdue : k.due = true) {data : ByteScan.Bytes}
    {stray : Option Nat} :
    Conn.Tidy { k with buffer := k.buffer ++ data.map (⟨·, k.written⟩), stray := stray } := by
  refine ⟨fun _ o ho => ?_, fun _ => h.used hdue, fun hno => nomatch hdue.symm.trans hno⟩
  rcases mem_append.mp ho with hold | hnew
  · exact h.buffer hdue o hold
  · obtain ⟨x, -, rfl⟩ := mem_map.mp hnew
    rfl

theorem step_sound {e : Event} (h : Sound s) (hclean : Clean s e)
    (hstep : step cfg s e = some s') : Sound s' := by
  cases e with
  | native r method => exact native_sound cfg h hstep
  | ask r method =>
    simp only [step] at hstep
    split at hstep
    · cases hstep
    next hnew =>
    refine acquire_sound cfg h ?_ hstep
    intro q₀ hq₀
    rw [hq₀] at hnew
    exact absurd rfl hnew
  | wake r =>
    obtain ⟨q, hq, hstep⟩ := bind_eq_some_iff.mp hstep
    split at hstep
    · next hph =>
        have hwaits : Sound { s with waiters := s.waiters - 1 } := { h with }
        exact acquire_sound cfg hwaits (unread_of_phase hq hph nofun) hstep
    · cases hstep
  | connected r c =>
    obtain ⟨q, hq, hstep⟩ := bind_eq_some_iff.mp hstep
    split at hstep
    · next hnew =>
        obtain ⟨hph, hnone⟩ := hnew
        cases hstep
        refine h.turn (c := c) (k := .new r) (q := _) rfl rfl ?_ ?_ rfl
          (.rest rfl rfl) ⟨_, rfl, rfl, rfl, rfl⟩ nofun h.nodup ?_
        · intro k₀ hk₀
          exact nomatch hnone.symm.trans hk₀
        · exact fun q₀ hq₀ => .inr (unread_of_phase hq hph nofun q₀ hq₀)
        · intro d hd
          refine .inl ⟨?_, hd⟩
          rintro rfl
          obtain ⟨k, hk, -⟩ := h.resting d hd
          exact nomatch hnone.symm.trans hk
    · cases hstep
  | write r =>
    obtain ⟨q, hq, hstep⟩ := bind_eq_some_iff.mp hstep
    obtain ⟨k, hk, hstep⟩ := bind_eq_some_iff.mp hstep
    split at hstep
    · next hph =>
        obtain ⟨k₁, hk₁, howner, hdue, hnil⟩ := h.holds hq hph
        cases hk.symm.trans hk₁
        have hdraw := h.redraws hq hk howner
        have htidy := h.tidy _ k hk
        split at hstep
        · cases hstep
          refine h.keep (k := k.send r) rfl hdraw
            (htidy.send hdue hnil r) ⟨_, rfl, rfl, rfl, rfl⟩ ?_
          intro g hg
          exact nomatch (htidy.reading hdue).symm.trans hg
        · cases hstep
          exact h.giveBack hdraw hdue htidy trivial nofun
    · cases hstep
  | drained r =>
    obtain ⟨q, hq, hstep⟩ := bind_eq_some_iff.mp hstep
    obtain ⟨k, hk, hstep⟩ := bind_eq_some_iff.mp hstep
    split at hstep
    · next hph =>
        split at hstep
        · cases hstep
          obtain ⟨k₁, hk₁, howner, hdue, hseq⟩ := h.holds hq hph
          cases hk.symm.trans hk₁
          have hdraw := h.redraws hq hk howner
          exact satisfy_sound cfg h hdraw rfl howner hdue hseq (h.tidy _ k hk) nofun
        · exact fail_sound h hstep
    · cases hstep
  | release r =>
    obtain ⟨q, hq, hstep⟩ := bind_eq_some_iff.mp hstep
    obtain ⟨k, hk, hstep⟩ := bind_eq_some_iff.mp hstep
    split at hstep
    · next o reusable hph =>
        cases hstep
        obtain ⟨ho, k₁, hk₁, howner, hdue, hnil⟩ := h.holds hq hph
        cases hk.symm.trans hk₁
        have hdraw := h.redraws hq hk howner
        refine h.giveBack hdraw hdue (h.tidy _ k hk) ho fun hkeep => hnil ?_
        simp only [keepPython, Bool.and_eq_true] at hkeep
        exact hkeep.1.1.1
    · cases hstep
  | fail r e => exact fail_sound h hstep
  | receive c data =>
    obtain ⟨k, hk, hstep⟩ := bind_eq_some_iff.mp hstep
    split at hstep
    · cases hstep
      have hdue := hclean k hk
      exact look_sound cfg h hk
        { tidy := fun ht => ht.receive hdue, buffer := fun hno => nomatch hdue.symm.trans hno }
    · cases hstep
  | eof c =>
    obtain ⟨k, hk, hstep⟩ := bind_eq_some_iff.mp hstep
    cases hstep
    exact look_sound cfg h hk { tidy := fun ht => ht.flags .. }
  | lose c error =>
    obtain ⟨k, hk, hstep⟩ := bind_eq_some_iff.mp hstep
    split at hstep
    · split at hstep
      · next r q g hwho hg =>
          cases hstep
          obtain ⟨-, howner, hq, rfl, -⟩ := h.reader hk hg hwho
          exact resolve_sound cfg h (h.redraws hq hk howner) howner trivial nofun
      · cases hstep
        exact h.setConn hk { tidy := fun ht => ht.flags .. }
    · cases hstep
      exact look_sound cfg h hk { tidy := fun ht => ht.flags .. }
  | pausing c paused =>
    obtain ⟨k, hk, hstep⟩ := bind_eq_some_iff.mp hstep
    cases hstep
    exact h.setConn hk { tidy := fun ht => ht.flags .. }
  | stop =>
    cases hstep
    exact h.closing s.idle (fun _ => rfl) rfl (nil_sublist _)

theorem init_sound : Sound .init := by
  have hno : ∀ {V : Type} {v : V}, (none : Option V) ≠ some v := nofun
  exact ⟨nodup_nil, nofun, fun _ _ hk => absurd hk hno,
    fun _ _ hq => absurd hq hno, fun _ _ _ hk => absurd hk hno⟩

/-! ## Runs -/

/-- **A RESPONSE IS MADE OF ITS OWN BYTES**: when bytes come only while a response is due, every
    byte of an answer was received after its request was written and before the next one, and no
    idle or new connection holds a byte. -/
theorem answers_own_request {es : List Event} {s : State}
    (h : exec (guarded Clean (step cfg)) .init es = some s) :
    (∀ r q a, s.request r = some q → q.phase = .done (.answer a) → ∀ o ∈ a.used, o.after = q.seq) ∧
    (∀ c ∈ s.idle, ∃ k, s.conn c = some k ∧ k.buffer = []) ∧
    ∀ r q, s.request r = some q → q.phase = .fresh →
      ∃ k, s.conn q.conn = some k ∧ k.buffer = [] := by
  have hmoves : ∀ s e s', Sound s → Clean s e → step cfg s e = some s' → Sound s' :=
    fun _ _ _ hs hc hstep => step_sound cfg hs hc hstep
  have hsound := exec_guarded_invariant hmoves init_sound h
  refine ⟨?_, ?_, ?_⟩
  · intro r q a hq hphase
    exact hsound.holds hq hphase
  · intro c hc
    obtain ⟨k, hk, -, -, hnil⟩ := hsound.resting c hc
    exact ⟨k, hk, hnil⟩
  · intro r q hq hphase
    obtain ⟨k, hk, -, -, hnil⟩ := hsound.holds hq hphase
    exact ⟨k, hk, hnil⟩

/-! ## Two runs -/

def smallPool : Config := ⟨200, 100, 2, 2, 2⟩

/-- A request on a new connection, answered with `hi`; then the connection is idle. -/
def firstRequest : List Event := [.ask 1 "GET", .connected 1 0, .write 1, .drained 1,
    .receive 0 (ByteScan.ascii "HTTP/1.1 200 OK\r\nContent-Length: 2\r\n\r\nhi"), .release 1]

def lateAnswer : ByteScan.Bytes := ByteScan.ascii "HTTP/1.1 200 OK\r\nContent-Length: 4\r\n\r\nevil"

/-- The answer of a request, and its number on the connection. -/
def State.answered (s : State) (r : Nat) : Option (Nat × Response) := do
  let q ← s.request r
  match q.phase with
  | .done (.answer a) => some (q.seq, a)
  | _ => none

/-- The second request is answered by what came after it was written, and the connection
    that both used is idle. -/
theorem answers_own_request_twice : ∃ s, exec (guarded Clean (step smallPool)) .init
        (firstRequest ++ [.native 2 "GET", .receive 0 lateAnswer]) = some s ∧
      (∀ r q a, s.request r = some q → q.phase = .done (.answer a) →
        ∀ o ∈ a.used, o.after = q.seq) ∧
      (∃ k, s.conn 0 = some k ∧ k.buffer = []) ∧
      ((s.answered 2).map fun x => (x.1, x.2.body)) = some (2, ByteScan.ascii "evil") := by
  refine run_ends (fun s => ((s.answered 2).map fun x => (x.1, x.2.body), s.idle))
    (some (2, ByteScan.ascii "evil"), [0]) (by decide +kernel) fun s hs hval => ?_
  obtain ⟨hown, hidle, -⟩ := answers_own_request smallPool hs
  obtain ⟨hval, hlist⟩ := Prod.mk.inj hval
  exact ⟨hown, hidle 0 (hlist ▸ mem_cons_self), hval⟩

/-- **A STALE RESPONSE**: an answer that arrives while the connection is idle is the answer
    of the next request; none of its bytes was received after that request was written. -/
theorem stale_response : ∃ s a k, exec (step smallPool) .init
        (firstRequest ++ [.receive 0 lateAnswer, .native 2 "GET"]) = some s ∧
      s.answered 2 = some (2, a) ∧ a.body = ByteScan.ascii "evil" ∧ a.used ≠ [] ∧
      (∀ o ∈ a.used, o.after = 1) ∧
      s.conn 0 = some k ∧ k.stray = some 1 ∧ k.written = 2 := by
  have hruns : ((exec (step smallPool) .init
      (firstRequest ++ [.receive 0 lateAnswer, .native 2 "GET"])).bind fun s =>
        (s.answered 2).bind fun x => (s.conn 0).map fun k =>
          (x.1, x.2.body, decide (x.2.used ≠ [] ∧ ∀ o ∈ x.2.used, o.after = 1), k.stray, k.written))
      = some (2, ByteScan.ascii "evil", true, some 1, 2) := by
    decide +kernel
  obtain ⟨s, hs, hruns⟩ := bind_eq_some_iff.mp hruns
  obtain ⟨⟨seq, a⟩, ha, hruns⟩ := bind_eq_some_iff.mp hruns
  obtain ⟨k, hk, hfacts⟩ := map_eq_some_iff.mp hruns
  simp only [Prod.mk.injEq, decide_eq_true_eq] at hfacts
  obtain ⟨rfl, hbody, ⟨hused, hafter⟩, hstray, hwritten⟩ := hfacts
  exact ⟨s, a, k, hs, ha, hbody, hused, hafter, hk, hstray, hwritten⟩

end ClientPool
