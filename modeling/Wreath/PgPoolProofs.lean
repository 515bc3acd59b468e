import Wreath.TableProofs
import Wreath.StepSystemProofs
import Mathlib.Data.Finset.Card
import Mathlib.Data.Finset.Lattice.Basic

/-! # The connection pool — every connection in one place

A lease is one call of `acquire` up to its release: it takes an idle connection, opens one,
or queues on a future of its own. A connection that comes back is marked borrowed for the
longest-waiting caller, who takes it over when its task runs. A future that has expired or
was cancelled stays queued for a turn, and a caller cancelled after the hand-off never takes
the connection over: `leases_accounted` avoids both, and `lease_leaked` does not. -/

namespace PgPool

open Tally List Function StepSystem
open Option (getD_some map_eq_some_iff mem_def some.inj)

/-! ## The pool -/

structure Config where
  maxSize : Nat
  maxQueue : Nat
  /-- `pipeline_depth` -/
  depth : Nat

/-- The future a queued caller waits on. -/
inductive Waiter where
  | pending
  /-- it expired or was cancelled -/
  | failed
  | handed (connection : Nat)
  | woken
  deriving Repr, DecidableEq

/-- A call of `acquire`, by where its task is. -/
inductive Lease where
  | unborn
  /-- in `_open` -/
  | opening (shared : Bool)
  /-- on its future; `cancelling` when the task was cancelled after that was
      resolved -/
  | waiting (shared : Bool) (future : Waiter) (cancelling : Bool)
  | held (connection : Nat) (shared : Bool)
  | over
  deriving Repr, DecidableEq

/-- `_connections` is split into the connections and the placeholders of those being opened. -/
structure Pool where
  available : List Nat
  connections : Finset Nat
  placeholders : Nat
  borrowed : Finset Nat
  /-- share counts by connection, in the order of the dict -/
  shared : List (Nat × Nat)
  waiters : List Nat
  active : Finset Nat
  leases : Nat → Lease
  /-- the connection reports itself closed -/
  closed : Nat → Bool
  nextConn : Nat
  nextLease : Nat
  /-- a release by a holder has raised -/
  raised : Bool

/-- After `start` has opened the first connections. -/
def Pool.started (minSize : Nat) : Pool where
  available := List.range minSize
  connections := Finset.range minSize
  placeholders := 0
  borrowed := ∅
  shared := []
  waiters := []
  active := ∅
  leases _ := .unborn
  closed _ := false
  nextConn := minSize
  nextLease := 0
  raised := false

variable (cfg : Config) (p : Pool) (connection : Nat) (shared : List (Nat × Nat))

def Pool.setLease (l : Nat) (x : Lease) : Pool := { p with leases := update p.leases l x }

/-- `dict[key] = value`. -/
def assign : List (Nat × Nat) → Nat → Nat → List (Nat × Nat)
  | [], key, value => [(key, value)]
  | (k, v) :: rest, key, value =>
    if k = key then (key, value) :: rest else (k, v) :: assign rest key value

def count (connection : Nat) : Option Nat :=
  (shared.find? fun e => decide (e.1 = connection)).map Prod.snd

def remove (connection : Nat) : List (Nat × Nat) :=
  shared.filter fun e => !decide (e.1 = connection)

/-! ## Queued callers -/

/-- The longest-waiting caller that is still queued, and those behind. -/
def nextActive (active : Finset Nat) : List Nat → Option (Nat × List Nat)
  | [] => none
  | w :: ws => if w ∈ active then some (w, ws) else nextActive active ws

/-- `waiter.set_result`: `none` when the future is done. -/
def resolve (w : Nat) (result : Waiter) : Option Pool :=
  match p.leases w with
  | .waiting shared .pending cancelling =>
    some (p.setLease w (.waiting shared result cancelling))
  | _ => none

/-- The pool without the callers that were passed over, and `w`. -/
def Pool.dequeue (w : Nat) (ws : List Nat) : Pool :=
  { p with waiters := ws, active := p.active.erase w }

@[simp] def Pool.lend (c : Nat) : Pool := { p with borrowed := insert c p.borrowed }

@[simp] def Pool.unlend (c : Nat) : Pool := { p with borrowed := p.borrowed.erase c }

@[simp] def Pool.forget (c : Nat) : Pool := { p with connections := p.connections.erase c }

/-- `_hand_off`, and whether a caller was found; an `InvalidStateError` is noted. -/
def handOff : Bool × Pool :=
  match nextActive p.active p.waiters with
  | none => (false, { p with waiters := [] })
  | some (w, ws) =>
    let p := (p.dequeue w ws).lend connection
    match resolve p w (.handed connection) with
    | some p => (true, p)
    | none => (true, { p with raised := true })

/-- `_wake_one`, and whether it returned. -/
def wakeOne : Bool × Pool :=
  match nextActive p.active p.waiters with
  | none => (true, { p with waiters := [] })
  | some (w, ws) =>
    match resolve (p.dequeue w ws) w .woken with
    | some p => (true, p)
    | none => (false, p.dequeue w ws)

/-- `_unqueue`. -/
def unqueue (l : Nat) : Pool :=
  let active := p.active.erase l
  { p with active, waiters := if active = ∅ then [] else p.waiters }

/-! ## Acquisition -/

/-- The connection with the fewest borrowers: the first strict minimum, and nothing is lower
    than one. -/
def leastLoaded : Nat → Option (Nat × Nat) → List (Nat × Nat) → Option (Nat × Nat)
  | _, best, [] => best
  | bound, best, (connection, n) :: rest =>
    if n < bound then
      if n = 1 then some (connection, n)
      else leastLoaded n (some (connection, n)) rest
    else leastLoaded bound best rest

/-- `try_acquire_shared`, and `pool_try_acquire_exact` without a Python frame. -/
def tryAcquireShared : Option (Nat × Pool) :=
  if cfg.depth ≤ 1 then none
  else
    match p.available.getLast? with
    | some connection =>
      some (connection, { p with
        available := p.available.dropLast
        shared := assign p.shared connection 1 })
    | none =>
      match leastLoaded cfg.depth none p.shared with
      | none => none
      | some (connection, n) =>
        some (connection, { p with shared := assign p.shared connection (n + 1) })

/-- `acquire` returns a borrowed connection; `_acquire_shared` moves it to the shared ones. -/
def grant (l connection : Nat) (shared : Bool) : Pool :=
  if shared then
    { p.setLease l (.held connection true) with
      borrowed := p.borrowed.erase connection
      shared := assign p.shared connection 1 }
  else p.setLease l (.held connection false)

/-- One round of the loop of `acquire`; `late` is whether the deadline has passed. -/
def acquireRound (l : Nat) (shared late : Bool) : Pool :=
  match p.available.getLast? with
  | some connection =>
    grant { p with
      available := p.available.dropLast
      borrowed := insert connection p.borrowed } l connection shared
  | none =>
    if p.connections.card + p.placeholders < cfg.maxSize then
      { p.setLease l (.opening shared) with placeholders := p.placeholders + 1 }
    -- "PostgreSQL pool queue is full", or the deadline has passed
    else if cfg.maxQueue ≤ p.active.card ∨ late then p.setLease l .over
    else
      { p.setLease l (.waiting shared .pending false) with
        waiters := p.waiters ++ [l]
        active := insert l p.active }

/-- `acquire`. -/
def acquire (shared late : Bool) : Pool :=
  let l := p.nextLease
  let p := { p with nextLease := p.nextLease + 1 }
  if shared ∧ 1 < cfg.depth then
    match tryAcquireShared cfg p with
    | some (connection, p) => p.setLease l (.held connection true)
    | none => acquireRound cfg p l true late
  else acquireRound cfg p l false late

/-! ## Release -/

/-- A connection that is not reusable goes, and its capacity wakes a caller. -/
def discard : Pool :=
  match wakeOne (p.forget connection) with
  | (true, p) => p
  | (false, p) => { p with raised := true }

/-- A connection in no place goes to a queued caller or becomes idle. -/
def putBack : Pool :=
  match handOff p connection with
  | (true, p) => p
  | (false, p) => { p with available := p.available ++ [connection] }

/-- `release` of an exclusive lease. -/
def release : Pool :=
  if connection ∈ p.borrowed then
    let p := p.unlend connection
    if p.closed connection then discard p connection else putBack p connection
  -- "connection was not borrowed from this pool"
  else { p with raised := true }

/-- `release` of a shared lease: `try_release_shared`, and `_release_shared` for the last
    borrower of a closed connection. -/
def releaseShared : Pool :=
  match count p.shared connection with
  | none => { p with raised := true }
  | some n =>
    if 1 < n then { p with shared := assign p.shared connection (n - 1) }
    else
      let p := { p with shared := remove p.shared connection }
      if p.closed connection then
        release (p.lend connection) connection
      else putBack p connection

/-- `pool_try_release_exact`: `none` leaves it to the ordinary path. -/
def tryReleaseExact : Option Pool :=
  if cfg.depth ≤ 1 then none
  else
    match count p.shared connection with
    | none => none
    | some n =>
      if n < 1 then none
      else if 1 < n then
        some { p with shared := assign p.shared connection (n - 1) }
      else if p.waiters ≠ [] ∨ p.closed connection then none
      else
        some { p with
          shared := remove p.shared connection
          available := p.available ++ [connection] }

/-! ## Events -/

inductive Event where
  | acquire (shared late : Bool)
  /-- `_open` returns -/
  | opened (lease : Nat)
  /-- `_open` raises, or its task is cancelled -/
  | openFailed (lease : Nat)
  /-- the deadline of a queued caller passes -/
  | expire (lease : Nat)
  /-- the task of a queued caller is cancelled -/
  | cancel (lease : Nat)
  /-- and runs, once its future is done -/
  | resume (lease : Nat) (late : Bool)
  | release (lease : Nat)
  /-- a connection fails -/
  | fail (connection : Nat)
  deriving Repr, DecidableEq

/-- A connection that was opened takes its place. -/
def Pool.enrolled : Pool :=
  { p with
    connections := insert p.nextConn p.connections
    placeholders := p.placeholders - 1
    nextConn := p.nextConn + 1 }

/-- One event; `none` where it cannot happen. -/
def step : Event → Option Pool
  | .acquire shared late => some (acquire cfg p shared late)
  | .opened l =>
    match p.leases l with
    | .opening shared => some (grant (p.enrolled.lend p.nextConn) l p.nextConn shared)
    | _ => none
  | .openFailed l =>
    match p.leases l with
    | .opening _ =>
      some (wakeOne { p.setLease l .over with placeholders := p.placeholders - 1 }).2
    | _ => none
  | .expire l =>
    match p.leases l with
    | .waiting shared .pending cancelling =>
      some (p.setLease l (.waiting shared .failed cancelling))
    | .waiting .. => some p
    | _ => none
  | .cancel l =>
    match p.leases l with
    | .waiting shared .pending cancelling =>
      some (p.setLease l (.waiting shared .failed cancelling))
    | .waiting shared future _ =>
      some (p.setLease l (.waiting shared future true))
    | _ => none
  | .resume l late =>
    match p.leases l with
    | .waiting _ .pending _ => none
    | .waiting shared future cancelling =>
      match future, cancelling with
      | .handed connection, false => some (grant p l connection shared)
      | .woken, false => some (acquireRound cfg p l shared late)
      | _, _ => some ((unqueue p l).setLease l .over)
    | _ => none
  | .release l =>
    match p.leases l with
    | .held connection true =>
      some (releaseShared (p.setLease l .over) connection)
    | .held connection false =>
      some (release (p.setLease l .over) connection)
    | _ => none
  | .fail connection =>
    some { p with closed := update p.closed connection true }

/-! ## Places -/

def Pool.keys : List Nat := p.shared.map Prod.fst

/-- Every connection is idle, borrowed, shared, or the one in between. -/
structure Places (p : Pool) (between : Option Nat) : Prop where
  idle : p.available.Nodup
  shared : p.keys.Nodup
  placed : ∀ c, c ∈ p.connections ↔ c ∈ p.available ∨ c ∈ p.borrowed ∨ c ∈ p.keys ∨ c ∈ between
  idleOnly : ∀ c ∈ p.available, c ∉ p.borrowed ∧ c ∉ p.keys
  lentOnly : ∀ c ∈ p.borrowed, c ∉ p.keys
  between : ∀ c ∈ between, c ∉ p.available ∧ c ∉ p.borrowed ∧ c ∉ p.keys

section Places

variable {p p' : Pool} {c : Nat}

/-- Places are about four fields. -/
def Pool.stock (p : Pool) := (p.available, p.connections, p.borrowed, p.shared)

theorem Places.congr {b : Option Nat} (h : Places p b) (hstock : p'.stock = p.stock) :
    Places p' b := by
  cases p
  cases p'
  cases hstock
  exact { h with }

variable {shared : List (Nat × Nat)}

theorem assign_new (h : c ∉ shared.map Prod.fst) (n : Nat) :
    assign shared c n = shared ++ [(c, n)] := by
  induction shared with
  | nil => rfl
  | cons e rest ih =>
    rw [map_cons, mem_cons, not_or] at h
    rw [assign, if_neg (Ne.symm h.1), ih h.2]
    rfl

theorem assign_mem {n : Nat} {e : Nat × Nat}
    (h : e ∈ assign shared c n) : e ∈ shared ∨ e = (c, n) := by
  fun_induction assign shared c n with
  | case1 => exact .inr (mem_singleton.mp h)
  | case2 => exact (mem_cons.mp h).symm.imp_left (mem_cons_of_mem _)
  | case3 k v rest _ _ _ ih =>
    rcases mem_cons.mp h with rfl | h
    · exact .inl mem_cons_self
    · exact (ih h).imp_left (mem_cons_of_mem _)

theorem assign_keys (h : c ∈ shared.map Prod.fst) (n : Nat) :
    (assign shared c n).map Prod.fst = shared.map Prod.fst := by
  fun_induction assign shared c n with
  | case1 => exact absurd h not_mem_nil
  | case2 => rfl
  | case3 k v rest c n hne ih =>
    rw [map_cons, mem_cons] at h
    rw [map_cons, map_cons, ih (h.resolve_left (Ne.symm hne))]

theorem remove_keys :
    (remove shared c).map Prod.fst = (shared.map Prod.fst).filter fun k => !decide (k = c) := by
  rw [remove, filter_map]
  rfl

/-- Where a connection may be, and where it may not. -/
structure Placed (p : Pool) (between : Option Nat) (c : Nat) : Prop where
  known : c ∈ p.connections ↔ c ∈ p.available ∨ c ∈ p.borrowed ∨ c ∈ p.keys ∨ c ∈ between
  idleOnly : c ∈ p.available → c ∉ p.borrowed ∧ c ∉ p.keys
  lentOnly : c ∈ p.borrowed → c ∉ p.keys
  between : c ∈ between → c ∉ p.available ∧ c ∉ p.borrowed ∧ c ∉ p.keys

variable {b b' : Option Nat}

/-- One connection changes its place. -/
theorem Places.moved (h : Places p b) (c : Nat) (hidle : p'.available.Nodup) (hkeys : p'.keys.Nodup)
    (hsame : ∀ x, x ≠ c → (x ∈ p'.connections ↔ x ∈ p.connections)
      ∧ (x ∈ p'.available ↔ x ∈ p.available) ∧ (x ∈ p'.borrowed ↔ x ∈ p.borrowed)
      ∧ (x ∈ p'.keys ↔ x ∈ p.keys) ∧ (x ∈ b' ↔ x ∈ b)) (hc : Placed p' b' c) : Places p' b' := by
  have hall : ∀ x, Placed p' b' x := by
    intro x
    by_cases hx : x = c
    · exact hx ▸ hc
    · obtain ⟨hconn, hidle, hlent, hkey, hb⟩ := hsame x hx
      constructor <;> simp only [hconn, hidle, hlent, hkey, hb]
      · exact h.placed x
      · exact h.idleOnly x
      · exact h.lentOnly x
      · exact h.between x
  exact ⟨hidle, hkeys, fun x => (hall x).known, fun x => (hall x).idleOnly,
    fun x => (hall x).lentOnly, fun x => (hall x).between⟩

theorem Places.pop (h : Places p none) (hlast : p.available.getLast? = some c) :
    Places { p with available := p.available.dropLast } (some c) := by
  obtain ⟨rest, hrest⟩ := getLast?_eq_some_iff.mp hlast
  have hdrop : p.available.dropLast = rest := by rw [hrest, dropLast_concat]
  obtain ⟨hidle, -, hnew⟩ := nodup_append.mp (hrest ▸ h.idle)
  have hin : c ∈ p.available := by simp [hrest]
  have hout : c ∉ rest := fun hx => hnew c hx c (mem_singleton_self _) rfl
  rw [hdrop]
  refine h.moved c hidle h.shared (fun x hx => ?_) ?_
  · simp [hrest, hx, Ne.symm hx, Pool.keys]
  · have honly := h.idleOnly c hin
    constructor <;> simp_all [h.placed c, Pool.keys]

theorem Places.lend (h : Places p (some c)) : Places (p.lend c) none := by
  obtain ⟨hidle, -, hshared⟩ := h.between c rfl
  refine h.moved c h.idle h.shared (fun x hx => ?_) ?_
  · simp [hx, Ne.symm hx, Pool.keys]
  · constructor <;> simp_all [h.placed c, Pool.keys]

theorem Places.unlend (h : Places p none) (hc : c ∈ p.borrowed) : Places (p.unlend c) (some c) := by
  have hidle : c ∉ p.available := fun hidle => (h.idleOnly c hidle).1 hc
  have hshared := h.lentOnly c hc
  refine h.moved c h.idle h.shared (fun x hx => ?_) ?_
  · simp [hx, Ne.symm hx, Pool.keys]
  · constructor <;> simp_all [h.placed c, Pool.keys]

theorem Places.share (h : Places p (some c)) (n : Nat) :
    Places { p with shared := assign p.shared c n } none := by
  obtain ⟨hidle, hlent, hshared⟩ := h.between c rfl
  have hkeys : Pool.keys { p with shared := assign p.shared c n } = p.keys ++ [c] := by
    rw [Pool.keys, assign_new hshared, map_append]
    rfl
  refine h.moved c h.idle ?_ (fun x hx => ?_) ?_
  · rw [hkeys]
    exact h.shared.append (nodup_singleton c) (disjoint_singleton.mpr hshared)
  · simp [hkeys, hx, Ne.symm hx]
  · constructor <;> simp_all [h.placed c]

/-- A share count changes. -/
theorem Places.recount (h : Places p b) (hc : c ∈ p.keys)
    (n : Nat) : Places { p with shared := assign p.shared c n } b := by
  have hkeys : Pool.keys { p with shared := assign p.shared c n } = p.keys := assign_keys hc n
  exact ⟨h.idle, hkeys ▸ h.shared, hkeys ▸ h.placed, hkeys ▸ h.idleOnly,
    hkeys ▸ h.lentOnly, hkeys ▸ h.between⟩

theorem Places.unshare (h : Places p none) (hc : c ∈ p.keys) :
    Places { p with shared := remove p.shared c } (some c) := by
  have hkeys : Pool.keys { p with shared := remove p.shared c }
      = p.keys.filter fun k => !decide (k = c) := remove_keys
  have hidle : c ∉ p.available := fun hidle => (h.idleOnly c hidle).2 hc
  have hlent : c ∉ p.borrowed := fun hlent => h.lentOnly c hlent hc
  refine h.moved c h.idle (hkeys ▸ h.shared.filter _) (fun x hx => ?_) ?_
  · simp [hkeys, hx, Ne.symm hx]
  · constructor <;> simp_all [h.placed c]

theorem Places.rest (h : Places p (some c)) :
    Places { p with available := p.available ++ [c] } none := by
  obtain ⟨hidle, hlent, hshared⟩ := h.between c rfl
  refine h.moved c ?_ h.shared (fun x hx => ?_) ?_
  · exact h.idle.append (nodup_singleton c) (disjoint_singleton.mpr hidle)
  · simp [hx, Ne.symm hx, Pool.keys]
  · constructor <;> simp_all [h.placed c, Pool.keys]

theorem Places.forget (h : Places p (some c)) : Places (p.forget c) none := by
  obtain ⟨hidle, hlent, hshared⟩ := h.between c rfl
  refine h.moved c h.idle h.shared (fun x hx => ?_) ?_
  · simp [hx, Ne.symm hx, Pool.keys]
  · constructor <;> simp_all [Pool.keys]

theorem Places.enrol (h : Places p none) (hc : c ∉ p.connections) :
    Places { p with connections := insert c p.connections } (some c) := by
  have hnot : c ∉ p.available ∧ c ∉ p.borrowed ∧ c ∉ p.keys := by
    rw [h.placed c] at hc
    tauto
  refine h.moved c h.idle h.shared (fun x hx => ?_) ?_
  · simp [hx, Ne.symm hx, Pool.keys]
  · constructor <;> simp_all [Pool.keys]

end Places

/-! ## Dues -/

theorem count_cons (k v : Nat) (rest : List (Nat × Nat)) (d : Nat) :
    count ((k, v) :: rest) d = if k = d then some v else count rest d := by
  rw [count, find?_cons]
  by_cases h : k = d
  · rw [if_pos h, decide_eq_true h]
    rfl
  · rw [if_neg h, decide_eq_false h, count]

theorem count_assign (c n d : Nat) :
    count (assign shared c n) d = if d = c then some n else count shared d := by
  fun_induction assign shared c n with
  | case1 => simp only [count_cons, eq_comm]
  | case2 =>
    simp only [count_cons, eq_comm]
    split <;> rfl
  | case3 k v rest _ _ hne ih =>
    rw [count_cons, count_cons, ih]
    split
    · rename_i hk
      rw [if_neg (hk ▸ hne)]
    · rfl

theorem count_remove (c d : Nat) :
    count (remove shared c) d = if d = c then none else count shared d := by
  rw [count, remove, find?_filter]
  split
  · rename_i h
    subst h
    rw [find?_eq_none.mpr]
    · rfl
    · intro e _
      simp
  · rename_i h
    refine congrArg (Option.map Prod.snd) (congrArg (List.find? · shared) ?_)
    funext e
    by_cases he : e.1 = d
    · simp [he, h]
    · simp [he]

variable {shared : List (Nat × Nat)}

theorem count_mem {c n : Nat} (h : count shared c = some n) : (c, n) ∈ shared := by
  obtain ⟨e, he, rfl⟩ := map_eq_some_iff.mp h
  have hfound := find?_some he
  have hkey : e.1 = c := of_decide_eq_true hfound
  rw [← hkey]
  exact mem_of_find?_eq_some he

theorem count_of_mem {c n : Nat} (hkeys : (shared.map Prod.fst).Nodup) (h : (c, n) ∈ shared) :
    count shared c = some n :=
  congrArg (Option.map Prod.snd) (SlotMap.find_key hkeys h)

theorem count_none {c : Nat} (h : c ∉ shared.map Prod.fst) : count shared c = none := by
  rw [count, find?_eq_none.mpr]
  · rfl
  · intro e he hkey
    exact h (mem_map.mpr ⟨e, he, of_decide_eq_true hkey⟩)

/-- What a lease may have a claim to. -/
inductive Claim where
  | lent (connection : Nat)
  | share (connection : Nat)
  | opening
  deriving DecidableEq

def Lease.claims (k : Claim) : Lease → Bool
  | .opening _ => decide (k = .opening)
  | .waiting _ (.handed c) _ => decide (k = .lent c)
  | .held c true => decide (k = .share c)
  | .held c false => decide (k = .lent c)
  | _ => false

/-- What the pool has on its books. -/
def Pool.due : Claim → Nat
  | .lent c => if c ∈ p.borrowed then 1 else 0
  | .share c => (count p.shared c).getD 0
  | .opening => p.placeholders

def one (b : Bool) : Nat := if b then 1 else 0

section Books

variable {p : Pool} {c n : Nat}

theorem one_decide_ne {k k' : Claim} (h : k ≠ k') : one (decide (k = k')) = 0 := by
  rw [decide_eq_false h]
  rfl

theorem due_lend (h : c ∉ p.borrowed) (k : Claim) :
    (p.lend c).due k = p.due k + one (decide (k = .lent c)) := by
  cases k with
  | lent d =>
    show (if d ∈ insert c p.borrowed then 1 else 0) = (if d ∈ p.borrowed then 1 else 0) + _
    by_cases hd : d = c
    · rw [hd, if_pos (Finset.mem_insert_self ..), if_neg h, decide_eq_true rfl]
      rfl
    · rw [one_decide_ne fun heq => hd (Claim.lent.inj heq)]
      simp only [Finset.mem_insert, hd, false_or, Nat.add_zero]
  | share | opening => exact (Nat.add_zero _).symm

theorem lend_unlend (h : c ∈ p.borrowed) : (p.unlend c).lend c = p :=
  congrArg (fun borrowed => { p with borrowed }) (Finset.insert_erase h)

theorem due_unlend (h : c ∈ p.borrowed) (k : Claim) :
    (p.unlend c).due k + one (decide (k = .lent c)) = p.due k := by
  have hlend := due_lend (p := p.unlend c) (Finset.notMem_erase c p.borrowed) k
  rw [← hlend, lend_unlend h]

/-- A share count goes up by one. -/
theorem due_share (hone : (count shared c).getD 0 = (count p.shared c).getD 0 + 1)
    (hother : ∀ d, d ≠ c → count shared d = count p.shared d) (k : Claim) :
    Pool.due { p with shared } k = p.due k + one (decide (k = .share c)) := by
  cases k with
  | lent | opening => rfl
  | share d =>
    show (count shared d).getD 0 = (count p.shared d).getD 0 + _
    by_cases hd : d = c
    · rw [hd, hone, decide_eq_true rfl]
      rfl
    · rw [hother d hd, one_decide_ne fun heq => hd (Claim.share.inj heq), Nat.add_zero]

theorem due_assign (hn : (count p.shared c).getD 0 + 1 = n) (k : Claim) :
    Pool.due { p with shared := assign p.shared c n } k
      = p.due k + one (decide (k = .share c)) := by
  refine due_share ?_ (fun d hd => ?_) k
  · rw [count_assign, if_pos rfl, getD_some, hn]
  · rw [count_assign, if_neg hd]

end Books

/-- Every claim is on the books, and nothing else is. -/
def Balanced : Prop := ∀ k, tally p.nextLease p.leases (Lease.claims k) = p.due k

/-- A lease changes along with the books. -/
theorem Balanced.change {p p' : Pool} (h : Balanced p) {l : Nat} (hl : l < p.nextLease) (x : Lease)
    (hleases : p'.leases = update p.leases l x) (hnext : p'.nextLease = p.nextLease)
    (hdue : ∀ k, one ((p.leases l).claims k) + p'.due k = one (x.claims k) + p.due k) :
    Balanced p' := by
  intro k
  have hupdate := tally_update p.leases x (Lease.claims k) hl
  have hbef := h k
  have hbooks := hdue k
  rw [one, one] at hbooks
  rw [hnext, hleases]
  omega

/-! ## The invariant -/

/-- A caller that is cancelled with a connection handed to it, or cancelled twice over. -/
def Lease.rash : Lease → Bool
  | .waiting _ .pending true => true
  | .waiting _ (.handed _) true => true
  | _ => false

/-- **ACCOUNTED**: places, books and queue, with one connection in between while it changes
    places. -/
structure Accounted (cfg : Config) (p : Pool) (between : Option Nat) : Prop where
  places : Places p between
  books : Balanced p
  counts : ∀ e ∈ p.shared, 1 ≤ e.2 ∧ e.2 ≤ cfg.depth
  room : p.connections.card + p.placeholders ≤ cfg.maxSize
  queue : ∀ w ∈ p.active, ∃ shared future cancelling,
    p.leases w = .waiting shared future cancelling ∧ (future = .pending ∨ future = .failed)
  calm : ∀ l, (p.leases l).rash = false
  unborn : ∀ l, p.nextLease ≤ l → p.leases l = .unborn
  known : ∀ c ∈ p.connections, c < p.nextConn
  present : ∀ c < p.nextConn, p.closed c = false → c ∈ p.connections
  fine : p.raised = false

theorem accounted_started {minSize : Nat} (h : minSize ≤ cfg.maxSize) :
    Accounted cfg (.started minSize) none where
  places := by
    refine ⟨nodup_range, nodup_nil, fun c => ?_, fun c _ => ?_, nofun, nofun⟩
    · simp [Pool.started, Pool.keys]
    · exact ⟨Finset.notMem_empty c, not_mem_nil⟩
  books k := by
    cases k <;> rfl
  counts := nofun
  room := by
    show (Finset.range minSize).card + 0 ≤ cfg.maxSize
    rw [Finset.card_range]
    exact h
  queue w hw := absurd hw (Finset.notMem_empty w)
  calm _ := rfl
  unborn _ _ := rfl
  known c hc := Finset.mem_range.mp hc
  present c hc _ := Finset.mem_range.mpr hc
  fine := rfl

section Changes

variable {cfg : Config} {p p' : Pool} {b b' : Option Nat} {l c : Nat}

/-- The futures an active waiter may have, read off a lease. -/
def Lease.queued : Lease → Bool
  | .waiting _ .pending _ => true
  | .waiting _ .failed _ => true
  | _ => false

theorem Lease.queued_iff (x : Lease) : x.queued = true ↔
    ∃ shared future cancelling, x = .waiting shared future cancelling
      ∧ (future = .pending ∨ future = .failed) := by
  constructor
  · intro h
    match x, h with
    | .waiting s .pending b, _ => exact ⟨s, _, b, rfl, .inl rfl⟩
    | .waiting s .failed b, _ => exact ⟨s, _, b, rfl, .inr rfl⟩
  · rintro ⟨s, f, b, rfl, rfl | rfl⟩ <;> rfl

/-- A lease whose future is neither pending nor failed is not active. -/
theorem Accounted.not_active (h : Accounted cfg p b)
    (hl : (p.leases l).queued = false) : l ∉ p.active := by
  intro hactive
  have hqueued := (Lease.queued_iff _).mpr (h.queue l hactive)
  cases hl.symm.trans hqueued

theorem Accounted.born {x : Lease} (h : Accounted cfg p b) (hl : p.leases l = x)
    (hx : x ≠ .unborn) : l < p.nextLease := by
  by_contra hge
  exact hx (hl.symm.trans (h.unborn l (not_lt.mp hge)))

def Pool.fixed (p : Pool) := (p.connections, p.nextLease, p.nextConn, p.closed, p.raised)

/-- One lease changes, and with it the places and the books. -/
theorem Accounted.change (h : Accounted cfg p b) (hl : l < p.nextLease)
    (x : Lease) (hsame : (p'.leases, p'.fixed) = (update p.leases l x, p.fixed))
    (hcalm : x.rash = false) (hplaces : Places p' b')
    (hdue : ∀ k, one ((p.leases l).claims k) + p'.due k = one (x.claims k) + p.due k)
    (hcounts : ∀ e ∈ p'.shared, 1 ≤ e.2 ∧ e.2 ≤ cfg.depth)
    (hroom : p'.connections.card + p'.placeholders ≤ cfg.maxSize)
    (hactive : ∀ w ∈ p'.active, (w = l ∧ x.queued = true) ∨ (w ≠ l ∧ w ∈ p.active)) :
    Accounted cfg p' b' := by
  obtain ⟨hleases, hfixed⟩ := Prod.mk.inj hsame
  have hself : p'.leases l = x := by
    rw [hleases, update_self]
  have hne : ∀ i, i ≠ l → p'.leases i = p.leases i := by
    intro i hi
    rw [hleases, update_of_ne hi]
  have hnext : p'.nextLease = p.nextLease := congrArg (fun f => f.2.1) hfixed
  have hbooks := h.books.change hl x hleases hnext hdue
  cases p
  cases p'
  cases hfixed
  refine ⟨hplaces, hbooks, hcounts, hroom, fun w hw => ?_, fun i => ?_, fun i hi => ?_,
    h.known, h.present, h.fine⟩
  · rcases hactive w hw with ⟨rfl, hx⟩ | ⟨hw', hw⟩
    · rw [hself]
      exact (Lease.queued_iff x).mp hx
    · rw [hne w hw']
      exact h.queue w hw
  · by_cases heq : i = l
    · rw [heq, hself]
      exact hcalm
    · rw [hne i heq]
      exact h.calm i
  · rw [hne i fun heq => not_lt.mpr hi (heq ▸ hl)]
    exact h.unborn i hi

/-- All but the idle list and the waiting queue. -/
def Pool.ledger (p : Pool) := (p.leases, p.placeholders, p.borrowed, p.shared, p.fixed)

/-- The idle list changes, or the waiting queue. -/
theorem Accounted.replace (h : Accounted cfg p b) (hplaces : Places p' b')
    (hactive : ∀ w ∈ p'.active, w ∈ p.active)
    (hledger : p'.ledger = p.ledger) : Accounted cfg p' b' := by
  cases p
  cases p'
  cases hledger
  refine { h with
    places := hplaces, books := fun k => ?_, queue := fun w hw => h.queue w (hactive w hw) }
  refine (h.books k).trans ?_
  cases k <;> rfl

/-! ## The queue -/

theorem nextActive_some {active : Finset Nat} {ws rest : List Nat} {w : Nat}
    (h : nextActive active ws = some (w, rest)) : w ∈ active := by
  fun_induction nextActive active ws with
  | case1 => cases h
  | case2 _ _ hx =>
    cases h
    exact hx
  | case3 _ _ _ ih => exact ih h

/-- A caller is taken off the queue, and its future may be resolved. -/
theorem Accounted.wake (h : Accounted cfg p b) : Accounted cfg (wakeOne p).2 b := by
  rw [wakeOne]
  split
  · exact h.replace (h.places.congr rfl) (fun _ => id) rfl
  rename_i w ws hnext
  have hdequeue : Accounted cfg (p.dequeue w ws) b :=
    h.replace (h.places.congr rfl) (fun _ hw => Finset.mem_of_mem_erase hw) rfl
  rw [resolve]
  split
  · rename_i q hres
    split at hres
    · rename_i shared cancelling hlease
      have hlease : p.leases w = .waiting shared .pending cancelling := hlease
      cases hres
      refine hdequeue.change (hdequeue.born hlease nofun) (.waiting shared .woken cancelling) rfl rfl
        (h.places.congr rfl) (fun k => ?_) h.counts h.room (fun x hx => .inr ?_)
      · show one ((p.leases w).claims k) + _ = _
        rw [hlease]
        rfl
      · exact ⟨(Finset.mem_erase.mp hx).1, hx⟩
    · cases hres
  · exact hdequeue

/-! ## Giving back -/

/-- The longest-waiting caller, if there is one, has a pending future. -/
def HeadPending (p : Pool) : Prop := ∀ e ∈ nextActive p.active p.waiters, ∃ shared cancelling,
    p.leases e.1 = .waiting shared .pending cancelling

variable {cancelling : Bool} {shared : Bool}

theorem resolve_pending {w : Nat}
    (h : p.leases w = .waiting shared .pending cancelling) (result : Waiter) :
    resolve p w result = some (p.setLease w (.waiting shared result cancelling)) := by
  rw [resolve, h]

/-- Then a hand-off finds nobody, or resolves a future. -/
theorem handOff_cases (hhead : HeadPending p) :
    handOff p c = (false, { p with waiters := [] }) ∨ ∃ w ws shared cancelling, w ∈ p.active
        ∧ p.leases w = .waiting shared .pending cancelling
        ∧ handOff p c = (true, ((p.dequeue w ws).lend c).setLease w
            (.waiting shared (.handed c) cancelling)) := by
  rw [handOff]
  cases hnext : nextActive p.active p.waiters with
  | none => exact .inl rfl
  | some e =>
    obtain ⟨w, ws⟩ := e
    obtain ⟨shared, cancelling, hlease⟩ := hhead _ hnext
    have hres := resolve_pending (p := (p.dequeue w ws).lend c) hlease (.handed c)
    refine .inr ⟨w, ws, shared, cancelling, nextActive_some hnext, hlease, ?_⟩
    simp only [hres]

theorem Accounted.putBack (h : Accounted cfg p (some c))
    (hhead : HeadPending p) : Accounted cfg (PgPool.putBack p c) none := by
  rw [PgPool.putBack]
  rcases handOff_cases hhead with hnobody
    | ⟨w, ws, shared, cancelling, hw, hlease, hhanded⟩
  · rw [hnobody]
    exact h.replace (h.places.rest.congr rfl) (fun _ => id) rfl
  · rw [hhanded]
    obtain ⟨-, hlent, -⟩ := h.places.between c rfl
    have hcalm := h.calm w
    rw [hlease] at hcalm
    refine h.change (l := w) (h.born hlease nofun) _ rfl ?_
      (h.places.lend.congr rfl) (fun k => ?_) h.counts h.room
      fun x hx => .inr (Finset.mem_erase.mp hx)
    · cases cancelling with
      | false => rfl
      | true => cases hcalm
    · have hbooks := due_lend hlent k
      rw [hlease]
      show one false + (p.lend c).due k = one (decide (k = .lent c)) + p.due k
      show 0 + _ = _
      omega

theorem wakeOne_returns (hhead : HeadPending p) : (wakeOne p).1 = true := by
  rw [wakeOne]
  cases hnext : nextActive p.active p.waiters with
  | none => rfl
  | some e =>
    obtain ⟨w, ws⟩ := e
    obtain ⟨shared, cancelling, hlease⟩ := hhead _ hnext
    have hres := resolve_pending (p := p.dequeue w ws) hlease .woken
    simp only [hres]

theorem Accounted.discard (h : Accounted cfg p (some c)) (hclosed : p.closed c = true)
    (hhead : HeadPending p) : Accounted cfg (PgPool.discard p c) none := by
  have hforget : Accounted cfg (p.forget c) none := by
    refine { h with
      places := h.places.forget, room := ?_, present := fun d hd hopen => ?_
      known := fun d hd => h.known d (Finset.mem_of_mem_erase hd) }
    · have hcard := Finset.card_erase_le (s := p.connections) (a := c)
      have hroom := h.room
      show (p.connections.erase c).card + p.placeholders ≤ cfg.maxSize
      omega
    · refine Finset.mem_erase.mpr ⟨?_, h.present d hd hopen⟩
      rintro rfl
      exact nomatch hopen.symm.trans hclosed
  rw [PgPool.discard]
  have hwake := hforget.wake
  have hreturns := wakeOne_returns (p := p.forget c) hhead
  revert hwake hreturns
  generalize wakeOne (p.forget c) = result
  obtain ⟨returned, q⟩ := result
  rintro hwake rfl
  exact hwake

/-- A lease that is not queued may change, and the head stays pending. -/
theorem HeadPending.frame (hhead : HeadPending p) (hl : l ∉ p.active)
    (hne : ∀ i, i ≠ l → p'.leases i = p.leases i)
    (hrest : p'.active = p.active ∧ p'.waiters = p.waiters) : HeadPending p' := by
  intro e he
  rw [hrest.1, hrest.2] at he
  have hactive := nextActive_some he
  rw [hne e.1 fun heq => hl (heq ▸ hactive)]
  exact hhead e he

theorem Accounted.active_ne {x : Lease} (h : Accounted cfg p b) (hl : (p.leases l).queued = false) :
    ∀ w ∈ p.active, w = l ∧ x.queued = true ∨ w ≠ l ∧ w ∈ p.active := by
  intro w hw
  refine .inr ⟨?_, hw⟩
  rintro rfl
  exact h.not_active hl hw

/-- What is claimed is on the books. -/
theorem Accounted.claimed (h : Accounted cfg p b) {k : Claim}
    (hclaim : (p.leases l).claims k = true) : l < p.nextLease ∧ 0 < p.due k := by
  have hl : l < p.nextLease := by
    refine h.born rfl fun hunborn => ?_
    rw [hunborn] at hclaim
    cases hclaim
  exact ⟨hl, h.books k ▸ tally_pos hl hclaim⟩

theorem Accounted.lent (h : Accounted cfg p b)
    (hclaim : (p.leases l).claims (.lent c) = true) : c ∈ p.borrowed := by
  have hdue := (h.claimed hclaim).2
  by_contra hnot
  rw [Pool.due, if_neg hnot] at hdue
  exact absurd hdue (lt_irrefl 0)

/-- The holder of a lent connection lets go of it. -/
theorem Accounted.free (h : Accounted cfg p none)
    (hclaims : ∀ k, (p.leases l).claims k = decide (k = .lent c))
    (hqueued : (p.leases l).queued = false) :
    Accounted cfg ((p.setLease l .over).unlend c) (some c) := by
  have hclaim := (hclaims (.lent c)).trans (decide_eq_true rfl)
  have hc := h.lent hclaim
  refine h.change (h.claimed hclaim).1 .over rfl rfl ((h.places.unlend hc).congr rfl)
    (fun k => ?_) h.counts h.room (h.active_ne hqueued)
  have hbooks := due_unlend hc k
  rw [hclaims]
  show one (decide (k = .lent c)) + (p.unlend c).due k = 0 + p.due k
  omega

/-- What is borrowed only for its release is let go of. -/
theorem release_lend (h : c ∉ p.borrowed) :
    release (p.lend c) c = if p.closed c then discard p c else putBack p c := by
  have hsame : (p.lend c).unlend c = p :=
    congrArg (fun borrowed => { p with borrowed }) (Finset.erase_insert h)
  rw [release, if_pos (show c ∈ (p.lend c).borrowed from Finset.mem_insert_self ..), hsame]

theorem Accounted.release (h : Accounted cfg p none) (hlease : p.leases l = .held c false)
    (hhead : HeadPending p) : Accounted cfg (PgPool.release (p.setLease l .over) c) none := by
  have hqueued : (p.leases l).queued = false := by
    rw [hlease]
    rfl
  have hfree := h.free (c := c) (fun k => by rw [hlease]; rfl) hqueued
  have hhead' : HeadPending ((p.setLease l .over).unlend c) :=
    hhead.frame (h.not_active hqueued) (fun i hi => update_of_ne hi _ _) ⟨rfl, rfl⟩
  have hc : c ∈ (p.setLease l .over).borrowed :=
    h.lent (l := l) (by rw [hlease]; exact decide_eq_true rfl)
  rw [PgPool.release, if_pos hc]
  simp only
  split
  · rename_i hclosed
    exact hfree.discard hclosed hhead'
  · exact hfree.putBack hhead'

/-- One of the borrowers of a shared connection goes. -/
theorem Accounted.releaseShared (h : Accounted cfg p none) (hlease : p.leases l = .held c true)
    (hhead : (∃ n, count p.shared c = some n ∧ 1 < n) ∨ HeadPending p) :
    Accounted cfg (PgPool.releaseShared (p.setLease l .over) c) none := by
  have hqueued : (p.leases l).queued = false := by
    rw [hlease]
    rfl
  have hclaims : ∀ k, (p.leases l).claims k = decide (k = .share c) := by
    intro k
    rw [hlease]
    rfl
  obtain ⟨hl, hdue⟩ := h.claimed ((hclaims (.share c)).trans (decide_eq_true rfl))
  rw [Pool.due] at hdue
  cases hcount : count p.shared c with
  | none =>
    rw [hcount] at hdue
    exact absurd hdue (lt_irrefl 0)
  | some n =>
    have hentry := count_mem hcount
    have hkey : c ∈ p.keys := mem_map.mpr ⟨_, hentry, rfl⟩
    obtain ⟨hpos, hdepth⟩ := h.counts _ hentry
    have hdrop : ∀ {shared}, (count shared c).getD 0 + 1 = n →
        (∀ d, d ≠ c → count shared d = count p.shared d) →
        ∀ k, one ((p.leases l).claims k) + Pool.due { p with shared } k = 0 + p.due k := by
      intro shared hone hother k
      have hbooks := due_share (p := { p with shared }) (by rw [hcount, getD_some, ← hone])
        (fun d hd => (hother d hd).symm) k
      rw [hclaims, Nat.zero_add, Nat.add_comm]
      exact hbooks.symm
    have hshared : count (p.setLease l .over).shared c = some n := hcount
    rw [PgPool.releaseShared, hshared]
    simp only
    split
    · refine h.change hl .over rfl rfl ?_ (fun k => ?_) (fun e he => ?_) h.room (h.active_ne hqueued)
      · exact (h.places.recount hkey (n - 1)).congr rfl
      · exact hdrop (by rw [count_assign, if_pos rfl, getD_some]; omega)
          (fun d hd => (count_assign ..).trans (if_neg hd)) k
      · rcases assign_mem he with he | rfl
        · exact h.counts e he
        · exact ⟨by show 1 ≤ n - 1; omega, by show n - 1 ≤ _; omega⟩
    · rename_i hlast
      have hone : n = 1 := by omega
      have hhead := hhead.resolve_left (by
        rintro ⟨m, hm, hmore⟩
        rw [hcount] at hm
        exact hlast (some.inj hm ▸ hmore))
      have hfree : Accounted cfg { p.setLease l .over with
          shared := remove p.shared c } (some c) := by
        refine h.change hl .over rfl rfl ((h.places.unshare hkey).congr rfl) (hdrop ?_ ?_)
          (fun e he => h.counts e (mem_filter.mp he).1) h.room (h.active_ne hqueued)
        · rw [count_remove, if_pos rfl, hone]
          rfl
        · intro d hd
          rw [count_remove, if_neg hd]
      have hhead' : HeadPending { p.setLease l .over with
          shared := remove p.shared c } :=
        hhead.frame (h.not_active hqueued) (fun i hi => update_of_ne hi _ _) ⟨rfl, rfl⟩
      split
      · rename_i hclosed
        -- it is borrowed for the moment of its release
        obtain ⟨-, hlent, -⟩ := hfree.places.between c rfl
        rw [release_lend, if_pos hclosed]
        · exact hfree.discard hclosed hhead'
        · exact hlent
      · exact hfree.putBack hhead'

/-! ## Taking -/

/-- A caller that has no claims and is not queued. -/
def Spare (p : Pool) (l : Nat) : Prop :=
  l < p.nextLease ∧ (∀ k, (p.leases l).claims k = false) ∧ (p.leases l).queued = false

/-- It gets a share of a connection. -/
theorem Accounted.share (h : Accounted cfg p b) (hspare : Spare p l) {n : Nat}
    (hplaces : Places { p with shared := assign p.shared c n } none)
    (hn : (count p.shared c).getD 0 + 1 = n) (hdepth : n ≤ cfg.depth) :
    Accounted cfg ({ p with shared := assign p.shared c n }.setLease l (.held c true)) none := by
  obtain ⟨hl, hclaims, hqueued⟩ := hspare
  refine h.change hl (.held c true) rfl rfl (hplaces.congr rfl) (fun k => ?_) (fun e he => ?_)
    h.room (h.active_ne hqueued)
  · have hbooks := due_assign hn k
    rw [hclaims, Nat.add_comm (one ((Lease.held c true).claims k))]
    exact (Nat.zero_add _).trans hbooks
  · rcases assign_mem he with he | rfl
    · exact h.counts e he
    · exact ⟨hn ▸ Nat.le_add_left 1 _, hdepth⟩

/-- It takes the connection in between. -/
theorem Accounted.grant (h : Accounted cfg p (some c)) (hdepth : 1 ≤ cfg.depth) (hspare : Spare p l)
    (shared : Bool) : Accounted cfg (PgPool.grant (p.lend c) l c shared) none := by
  obtain ⟨-, hlent, hkey⟩ := h.places.between c rfl
  cases shared with
  | false =>
    obtain ⟨hl, hclaims, hqueued⟩ := hspare
    refine h.change hl (.held c false) rfl rfl (h.places.lend.congr rfl) (fun k => ?_) h.counts
      h.room (h.active_ne hqueued)
    have hbooks := due_lend hlent k
    rw [hclaims]
    show 0 + (p.lend c).due k = one (decide (k = .lent c)) + p.due k
    omega
  | true =>
    have herase : (insert c p.borrowed).erase c = p.borrowed := Finset.erase_insert hlent
    show Accounted cfg { p.setLease l (.held c true) with
      borrowed := (insert c p.borrowed).erase c
      shared := assign p.shared c 1 } none
    rw [herase]
    exact h.share hspare (h.places.share 1) (by rw [count_none hkey]; rfl) hdepth

/-- One round of `acquire`. -/
theorem Accounted.round (h : Accounted cfg p none) (hdepth : 1 ≤ cfg.depth) (hspare : Spare p l)
    (shared late : Bool) : Accounted cfg (acquireRound cfg p l shared late) none := by
  rw [acquireRound]
  split
  · rename_i c hlast
    have hpop : Accounted cfg { p with available := p.available.dropLast } (some c) :=
      h.replace (h.places.pop hlast) (fun _ => id) rfl
    exact hpop.grant hdepth hspare shared
  obtain ⟨hl, hclaims, hqueued⟩ := hspare
  split
  · refine h.change hl (.opening shared) rfl rfl (h.places.congr rfl) (fun k => ?_) h.counts ?_
      (h.active_ne hqueued)
    · rw [hclaims]
      cases k with
      | lent | share => rfl
      | opening =>
        show 0 + (p.placeholders + 1) = 1 + p.placeholders
        omega
    · show p.connections.card + (p.placeholders + 1) ≤ cfg.maxSize
      omega
  split
  · refine h.change hl .over rfl rfl (h.places.congr rfl)
      (fun k => ?_) h.counts h.room (h.active_ne hqueued)
    rw [hclaims]
    rfl
  · refine h.change hl (.waiting shared .pending false) rfl rfl
      (h.places.congr rfl) (fun k => ?_) h.counts h.room
      (fun w hw => ?_)
    · rw [hclaims]
      rfl
    · rcases Finset.mem_insert.mp hw with rfl | hw
      · exact .inl ⟨rfl, rfl⟩
      · exact h.active_ne hqueued w hw

theorem leastLoaded_some {shared : List (Nat × Nat)} {bound : Nat}
    {best : Option (Nat × Nat)} {e : Nat × Nat} (h : leastLoaded bound best shared = some e) :
    best = some e ∨ (e ∈ shared ∧ e.2 < bound) := by
  fun_induction leastLoaded bound best shared with
  | case1 => exact .inl h
  | case2 _ _ _ _ hlt =>
    cases h
    exact .inr ⟨mem_cons_self, hlt⟩
  | case3 _ _ _ _ _ hlt _ ih =>
    rcases ih h with hbest | ⟨hmem, hless⟩
    · cases hbest
      exact .inr ⟨mem_cons_self, hlt⟩
    · exact .inr ⟨mem_cons_of_mem _ hmem, hless.trans hlt⟩
  | case4 _ _ _ _ _ _ ih =>
    exact (ih h).imp_right fun ⟨hmem, hless⟩ => ⟨mem_cons_of_mem _ hmem, hless⟩

/-- The shared fast path. -/
theorem Accounted.tryShared (h : Accounted cfg p none) (hspare : Spare p l)
    (htake : tryAcquireShared cfg p = some (c, p')) :
    Accounted cfg (p'.setLease l (.held c true)) none := by
  rw [tryAcquireShared] at htake
  split at htake
  · cases htake
  split at htake
  · rename_i d hlast
    obtain ⟨rfl, rfl⟩ := Prod.mk.inj (some.inj htake)
    have hpop : Accounted cfg { p with available := p.available.dropLast } (some d) :=
      h.replace (h.places.pop hlast) (fun _ => id) rfl
    obtain ⟨-, -, hkey⟩ := hpop.places.between d rfl
    exact hpop.share hspare (hpop.places.share 1) (by rw [count_none hkey]; rfl) (by omega)
  · split at htake
    · cases htake
    rename_i d n hbest
    obtain ⟨rfl, rfl⟩ := Prod.mk.inj (some.inj htake)
    obtain ⟨hentry, hless⟩ := (leastLoaded_some hbest).resolve_left nofun
    have hcount := count_of_mem h.places.shared hentry
    have hkey : d ∈ p.keys := mem_map.mpr ⟨_, hentry, rfl⟩
    exact h.share hspare (h.places.recount hkey (n + 1)) (by rw [hcount, getD_some]) (by omega)

/-! ## Events -/

section

variable (h : Accounted cfg p none)
include h

theorem Accounted.extend : Accounted cfg { p with nextLease := p.nextLease + 1 } none := by
  have hnew := h.unborn p.nextLease le_rfl
  refine { h with
    places := h.places.congr rfl, books := fun k => ?_
    unborn := fun l hl => h.unborn l (Nat.le_of_succ_le hl) }
  rw [tally_succ, h.books k, hnew]
  rfl

theorem Accounted.acquire (hdepth : 1 ≤ cfg.depth)
    (shared late : Bool) : Accounted cfg (acquire cfg p shared late) none := by
  have hspare : Spare { p with nextLease := p.nextLease + 1 } p.nextLease := by
    rw [Spare, h.unborn p.nextLease le_rfl]
    exact ⟨Nat.lt_succ_self _, fun _ => rfl, rfl⟩
  rw [PgPool.acquire]
  split
  · split
    · rename_i htake
      exact h.extend.tryShared hspare htake
    · exact h.extend.round hdepth hspare true late
  · exact h.extend.round hdepth hspare false late

/-- A caller gives up its placeholder. -/
theorem Accounted.unplace (hlease : p.leases l = .opening shared) :
    l < p.nextLease ∧ 0 < p.placeholders ∧ Accounted cfg { p.setLease l .over with
          placeholders := p.placeholders - 1 } none := by
  have hclaims : (p.leases l).claims .opening = true := by
    rw [hlease]
    rfl
  obtain ⟨hl, hdue⟩ := h.claimed hclaims
  have hdue : 0 < p.placeholders := hdue
  refine ⟨hl, hdue, h.change hl .over rfl rfl (h.places.congr rfl) (fun k => ?_) h.counts ?_
    (h.active_ne (by rw [hlease]; rfl))⟩
  · rw [hlease]
    cases k with
    | lent | share => rfl
    | opening =>
      show 1 + (p.placeholders - 1) = 0 + p.placeholders
      omega
  · have hroom := h.room
    show p.connections.card + (p.placeholders - 1) ≤ cfg.maxSize
    omega

/-- A connection that was opened joins, in no place yet. -/
theorem Accounted.admit (hroom : p.connections.card + p.placeholders < cfg.maxSize) :
    Accounted cfg { p with
      connections := insert p.nextConn p.connections
      nextConn := p.nextConn + 1 } (some p.nextConn) := by
  have hnew : p.nextConn ∉ p.connections := fun hmem => absurd (h.known _ hmem) (lt_irrefl _)
  refine { h with
    places := (h.places.enrol hnew).congr rfl, room := ?_, known := fun c hc => ?_
    present := fun c hc hopen => ?_ }
  · show (insert p.nextConn p.connections).card + p.placeholders ≤ cfg.maxSize
    rw [Finset.card_insert_of_notMem hnew]
    omega
  · rcases Finset.mem_insert.mp hc with rfl | hc
    · exact Nat.lt_succ_self _
    · exact Nat.lt_succ_of_lt (h.known c hc)
  · rcases Nat.lt_succ_iff_lt_or_eq.mp hc with hc | rfl
    · exact Finset.mem_insert_of_mem (h.present c hc hopen)
    · exact Finset.mem_insert_self ..

end

theorem grant_over (q : Pool) (l c : Nat) (shared : Bool) :
    grant (q.setLease l .over) l c shared = grant q l c shared := by
  cases shared <;> simp [grant, Pool.setLease]

/-- A lease that is over takes the connection in between. -/
theorem Accounted.regrant (h : Accounted cfg (p.setLease l .over) (some c)) (hdepth : 1 ≤ cfg.depth)
    (hl : l < p.nextLease) (shared : Bool) :
    Accounted cfg (PgPool.grant (p.lend c) l c shared) none := by
  have hspare : Spare (p.setLease l .over) l := by
    rw [Spare, show (p.setLease l .over).leases l = .over from update_self ..]
    exact ⟨hl, fun _ => rfl, rfl⟩
  rw [← grant_over]
  exact h.grant hdepth hspare shared

section

variable (h : Accounted cfg p none)
include h

theorem Accounted.opened (hdepth : 1 ≤ cfg.depth) (hlease : p.leases l = .opening shared) :
    Accounted cfg (PgPool.grant (p.enrolled.lend p.nextConn) l p.nextConn shared) none := by
  obtain ⟨hl, hpos, hunplaced⟩ := h.unplace hlease
  have hadm := hunplaced.admit (by
    have hroom := h.room
    show p.connections.card + (p.placeholders - 1) < cfg.maxSize
    omega)
  exact Accounted.regrant (p := p.enrolled) hadm hdepth hl shared

/-- The task of a caller that was handed a connection takes it over. -/
theorem Accounted.takeOver (hdepth : 1 ≤ cfg.depth)
    (hlease : p.leases l = .waiting shared (.handed c) cancelling) :
    Accounted cfg (PgPool.grant p l c shared) none := by
  have hclaims : ∀ k, (p.leases l).claims k = decide (k = .lent c) := by
    rw [hlease]
    exact fun _ => rfl
  have hqueued : (p.leases l).queued = false := by
    rw [hlease]
    rfl
  have hfree := h.free hclaims hqueued
  have hclaim := (hclaims (.lent c)).trans (decide_eq_true rfl)
  have hgrant := Accounted.regrant (p := p.unlend c) hfree hdepth (h.claimed hclaim).1 shared
  rwa [lend_unlend (h.lent hclaim)] at hgrant

/-- A queued caller's future fails. -/
theorem Accounted.spoil (hlease : p.leases l = .waiting shared .pending cancelling) :
    Accounted cfg (p.setLease l (.waiting shared .failed cancelling)) none := by
  refine h.change (h.born hlease nofun) (.waiting shared .failed cancelling) rfl rfl (h.places.congr rfl)
    (fun k => ?_) h.counts h.room (fun w hw => ?_)
  · rw [hlease]
    rfl
  · by_cases hwl : w = l
    · exact .inl ⟨hwl, rfl⟩
    · exact .inr ⟨hwl, hw⟩

/-- A caller with no claims leaves. -/
theorem Accounted.leave (hclaims : ∀ k, (p.leases l).claims k = false) (hl : l < p.nextLease) :
    Accounted cfg ((unqueue p l).setLease l .over) none := by
  refine h.change hl .over rfl rfl (h.places.congr rfl)
    (fun k => ?_) h.counts h.room (fun w hw => .inr (Finset.mem_erase.mp hw))
  rw [hclaims]
  rfl

/-- A connection fails where it is. -/
theorem Accounted.failed (c : Nat) :
    Accounted cfg { p with closed := update p.closed c true } none := by
  refine { h with places := h.places.congr rfl, present := fun d hd hopen => ?_ }
  have hopen : update p.closed c true d = false := hopen
  have hne : d ≠ c := by
    rintro rfl
    rw [update_self] at hopen
    cases hopen
  rw [update_of_ne hne] at hopen
  exact h.present d hd hopen

end

/-- `pool_try_release_exact` does what the ordinary release does, where it does anything. -/
theorem tryReleaseExact_eq (h : tryReleaseExact cfg p c = some p') :
    PgPool.releaseShared p c = p' := by
  rw [tryReleaseExact] at h
  rw [PgPool.releaseShared]
  split at h
  · cases h
  split at h
  · cases h
  split at h
  · cases h
  split at h
  · rename_i hmany
    rw [if_pos hmany]
    exact some.inj h
  rename_i hlast
  rw [if_neg hlast]
  split at h
  · cases h
  rename_i hquiet
  rw [not_or, not_not] at hquiet
  obtain ⟨hwaiters, hopen⟩ := hquiet
  rw [if_neg hopen, PgPool.putBack, handOff]
  simp only [hwaiters, nextActive]
  rw [← some.inj h, hwaiters]

end Changes

/-! ## Runs -/

/-- The queue's next caller, if there is one, has not expired and was not cancelled. -/
def headPending : Bool :=
  match nextActive p.active p.waiters with
  | none => true
  | some (w, _) =>
    match p.leases w with
    | .waiting _ .pending _ => true
    | _ => false

theorem headPending_iff : headPending p = true ↔ HeadPending p := by
  rw [headPending, HeadPending]
  cases nextActive p.active p.waiters with
  | none => exact ⟨fun _ => nofun, fun _ => rfl⟩
  | some e =>
    constructor
    · intro h e he
      cases he
      simp only at h
      split at h
      · rename_i hlease
        exact ⟨_, _, hlease⟩
      · cases h
    · intro h
      obtain ⟨_, _, hlease⟩ := h _ rfl
      simp only [hlease]

/-- **CALM**: a holder that is the last to release finds the next caller still waiting, and
    no caller is cancelled between the hand-off and its turn. -/
def Calm : Event → Prop
  | .release l =>
    match p.leases l with
    | .held c true =>
      1 < (count p.shared c).getD 0 ∨ headPending p = true
    | .held _ false => headPending p = true
    | _ => True
  | .cancel l =>
    match p.leases l with
    | .waiting _ (.handed _) _ => False
    | _ => True
  | _ => True

instance (e : Event) : Decidable (Calm p e) :=
  match e with
  | .release l =>
    match h : p.leases l with
    | .held c true =>
      decidable_of_iff (1 < (count p.shared c).getD 0 ∨ headPending p = true) (by rw [Calm, h])
    | .held _ false =>
      decidable_of_iff (headPending p = true) (by rw [Calm, h])
    | .unborn | .opening _ | .waiting .. | .over =>
      isTrue (by rw [Calm, h]; trivial)
  | .cancel l =>
    match h : p.leases l with
    | .waiting _ (.handed _) _ => isFalse (by rw [Calm, h]; exact id)
    | .waiting _ .pending _ | .waiting _ .failed _ | .waiting _ .woken _
    | .unborn | .opening _ | .held .. | .over =>
      isTrue (by rw [Calm, h]; trivial)
  | .acquire .. | .opened _ | .openFailed _ | .expire _ | .resume ..
  | .fail _ => isTrue trivial

section Runs

variable {cfg : Config} {p p' : Pool}

/-- A caller is cancelled that has no connection handed to it. -/
theorem Accounted.cancel (h : Accounted cfg p none) {l : Nat} {shared cancelling : Bool}
    {future : Waiter} (hlease : p.leases l = .waiting shared future cancelling)
    (hpend : future ≠ .pending) (hcalm : Calm p (.cancel l)) :
    Accounted cfg (p.setLease l (.waiting shared future true)) none := by
  refine h.change (h.born hlease nofun) _ rfl ?_ (h.places.congr rfl) (fun k => ?_) h.counts h.room
    fun w hw => ?_
  · rw [Calm, hlease] at hcalm
    cases future with
    | pending => exact (hpend rfl).elim
    | handed c => exact hcalm.elim
    | _ => rfl
  · have hnew : (Lease.waiting shared future true).claims k = (p.leases l).claims k := by
      rw [hlease]
      cases future <;> rfl
    rw [hnew]
    rfl
  · by_cases hwl : w = l
    · refine .inl ⟨hwl, ?_⟩
      have hqueued := (Lease.queued_iff _).mpr (h.queue w hw)
      rw [hwl, hlease] at hqueued
      cases future <;> first | rfl | exact hqueued
    · exact .inr ⟨hwl, hw⟩

/-- Every event keeps the accounts. -/
theorem Accounted.step (hdepth : 1 ≤ cfg.depth) (h : Accounted cfg p none) {e : Event} :
    Calm p e → ∀ q ∈ step cfg p e, Accounted cfg q none := by
  fun_cases PgPool.step cfg p e with
  | case1 shared late => rintro - q ⟨⟩; exact h.acquire hdepth shared late
  | case2 l shared hlease => rintro - q ⟨⟩; exact h.opened hdepth hlease
  | case4 l shared hlease => rintro - q ⟨⟩; exact (h.unplace hlease).2.2.wake
  | case6 l shared cancelling hlease | case9 l shared cancelling hlease =>
    rintro - q ⟨⟩
    exact h.spoil hlease
  | case7 => rintro - q ⟨⟩; exact h
  | case10 l shared future cancelling hpend hlease =>
    rintro hcalm q ⟨⟩
    exact h.cancel hlease hpend hcalm
  | case13 l late shared c _ hlease => rintro - q ⟨⟩; exact h.takeOver hdepth hlease
  | case14 l late shared _ hlease =>
    rintro - q ⟨⟩
    refine h.round hdepth ⟨h.born hlease nofun, ?_⟩ shared late
    rw [hlease]
    exact ⟨fun _ => rfl, rfl⟩
  | case15 l late shared future cancelling hhanded hwoken _ hlease =>
    rintro - q ⟨⟩
    refine h.leave (fun k => ?_) (h.born hlease nofun)
    have hrash := h.calm l
    rw [hlease] at hrash ⊢
    cases future with
    | handed c =>
      cases cancelling with
      | false => exact absurd rfl (hhanded c rfl)
      | true => cases hrash
    | _ => rfl
  | case17 l c hlease =>
    rintro hcalm q ⟨⟩
    rw [Calm, hlease] at hcalm
    refine h.releaseShared hlease (hcalm.imp (fun hmany => ?_) (headPending_iff p).mp)
    cases hcount : count p.shared c with
    | none =>
      rw [hcount] at hmany
      exact absurd hmany (Nat.not_lt_zero 1)
    | some n =>
      rw [hcount] at hmany
      exact ⟨n, rfl, hmany⟩
  | case18 l c hlease =>
    rintro hcalm q ⟨⟩
    rw [Calm, hlease] at hcalm
    exact h.release hlease ((headPending_iff p).mp hcalm)
  | case20 c => rintro - q ⟨⟩; exact h.failed c
  | _ => rintro - q ⟨⟩

/-- A live caller has the connection to itself: it holds it, or will when its task runs. -/
def Lease.keeps (c : Nat) : Lease → Bool
  | .waiting _ (.handed d) cancelling => decide (d = c) && !cancelling
  | .held d false => decide (d = c)
  | _ => false

theorem Accounted.keeps_eq (h : Accounted cfg p none) (c l : Nat) :
    (p.leases l).keeps c = (p.leases l).claims (.lent c) := by
  have hrash := h.calm l
  match p.leases l, hrash with
  | .unborn, _ | .opening _, _ | .over, _ | .held _ true, _
  | .waiting _ .pending _, _ | .waiting _ .failed _, _
  | .waiting _ .woken _, _ => rfl
  | .held d false, _ =>
    exact decide_eq_decide.mpr ⟨fun h => h ▸ rfl, fun h =>
      (Claim.lent.inj h).symm⟩
  | .waiting _ (.handed d) false, _ =>
    show (decide (d = c) && true) = decide (Claim.lent c = .lent d)
    rw [Bool.and_true]
    exact decide_eq_decide.mpr ⟨fun h => h ▸ rfl, fun h =>
      (Claim.lent.inj h).symm⟩

theorem claims_share (x : Lease) : x.claims (.share c) = decide (x = .held c true) := by
  match x with
  | .unborn | .opening _ | .over
  | .waiting _ .pending _ | .waiting _ .failed _
  | .waiting _ .woken _ | .waiting _ (.handed _) _ => rfl
  | .held d false =>
    have hne : Lease.held d false ≠ .held c true := fun h => nomatch (Lease.held.inj h).2
    rw [decide_eq_false hne]
    rfl
  | .held d true =>
    refine decide_eq_decide.mpr ⟨fun h => ?_, fun h => ?_⟩
    · rw [Claim.share.inj h]
    · rw [(Lease.held.inj h).1]

/-- Idle, borrowed or shared, and not two of these. -/
def OnePlace (p : Pool) (c : Nat) : Prop := (c ∈ p.available ∧ c ∉ p.borrowed ∧ c ∉ p.keys)
    ∨ (c ∉ p.available ∧ c ∈ p.borrowed ∧ c ∉ p.keys)
    ∨ (c ∉ p.available ∧ c ∉ p.borrowed ∧ c ∈ p.keys)

theorem Places.one_place (h : Places p none) {c : Nat} (hc : c ∈ p.connections) : OnePlace p c := by
  rcases (h.placed c).mp hc with hidle | hlent | hkey | hbetw
  · exact .inl ⟨hidle, h.idleOnly c hidle⟩
  · exact .inr (.inl ⟨fun hidle => (h.idleOnly c hidle).1 hlent, hlent, h.lentOnly c hlent⟩)
  · exact .inr (.inr ⟨fun hidle => (h.idleOnly c hidle).2 hkey,
      fun hlent => h.lentOnly c hlent hkey, hkey⟩)
  · cases hbetw

/-- A borrowed connection has one live caller. -/
theorem Accounted.one_keeper (h : Accounted cfg p none) {c : Nat}
    (hc : c ∈ p.borrowed) : ∃! l, (p.leases l).keeps c = true := by
  have hbooks := h.books (.lent c)
  rw [Pool.due, if_pos hc] at hbooks
  obtain ⟨l, -, hkeeps, honly⟩ := tally_unique hbooks
  refine ⟨l, (h.keeps_eq c l).trans hkeeps, fun i hi => ?_⟩
  have hclaim := (h.keeps_eq c i).symm.trans hi
  exact honly i (h.claimed hclaim).1 hclaim

/-- **LEASES ARE ACCOUNTED FOR**: in every calm run, an open connection is in one place, a share
    count is the number of holders, the pool keeps to its size, a borrowed connection has one live
    caller, whoever has a connection has it on the books, and no release has raised. -/
theorem leases_accounted (cfg : Config) (minSize : Nat) {events : List Event}
    (hmin : minSize ≤ cfg.maxSize) (hdepth : 1 ≤ cfg.depth)
    (hrun : exec (guarded Calm (PgPool.step cfg)) (.started minSize) events = some p) :
    (∀ c < p.nextConn, p.closed c = false → OnePlace p c) ∧ p.available.Nodup ∧ p.keys.Nodup
      ∧ (∀ e ∈ p.shared, 1 ≤ e.2 ∧ e.2 ≤ cfg.depth ∧ tally p.nextLease p.leases
            (fun x => decide (x = .held e.1 true)) = e.2)
      ∧ p.connections.card + p.placeholders ≤ cfg.maxSize
      ∧ (∀ c ∈ p.borrowed, ∃! l, (p.leases l).keeps c = true)
      ∧ (∀ l c, (p.leases l = .held c false → c ∈ p.borrowed)
        ∧ (p.leases l = .held c true → c ∈ p.keys))
      ∧ p.raised = false := by
  have hkeep : ∀ q e q', Accounted cfg q none → Calm q e →
      PgPool.step cfg q e = some q' → Accounted cfg q' none :=
    fun q e q' hq hcalm hstep => hq.step hdepth hcalm q' hstep
  have h := exec_guarded_invariant hkeep (accounted_started cfg hmin) hrun
  refine ⟨fun c hc hopen => h.places.one_place (h.present c hc hopen),
    h.places.idle, h.places.shared, fun e he => ?_, h.room,
    fun c => h.one_keeper, fun l c => ⟨fun hlease => ?_, fun hlease => ?_⟩,
    h.fine⟩
  · obtain ⟨hpos, hle⟩ := h.counts e he
    have hbooks := h.books (.share e.1)
    rw [Pool.due, count_of_mem h.places.shared he, getD_some] at hbooks
    have hshare : Lease.claims (.share e.1)
        = fun x => decide (x = .held e.1 true) := funext (claims_share)
    rw [hshare] at hbooks
    exact ⟨hpos, hle, hbooks⟩
  · refine h.lent (l := l) ?_
    rw [hlease]
    exact decide_eq_true rfl
  · have hclaim : (p.leases l).claims (.share c) = true := by
      rw [hlease]
      exact decide_eq_true rfl
    have hdue := (h.claimed hclaim).2
    by_contra hkey
    rw [Pool.due, count_none hkey] at hdue
    exact absurd hdue (lt_irrefl 0)

end Runs

/-- One connection, and room for two callers on it. -/
def single : Config where
  maxSize := 1
  maxQueue := 4
  depth := 2

/-- Two callers share the connection and a third queues for it; it is handed over when the
    second of them is done. -/
def sharing : List Event := [.acquire true false, .acquire true false, .acquire false false,
    .release 0, .release 1, .resume 2 false]

theorem sharing_accounted : ∃ p, exec (guarded Calm (step single)) (.started 1) sharing = some p
      ∧ p.leases 2 = .held 0 false ∧ p.raised = false
      ∧ ∀ c < p.nextConn, p.closed c = false → OnePlace p c := by
  refine run_ends (fun p => p.leases 2) (.held 0 false) (by decide) fun p hrun hp => ?_
  have h := leases_accounted single 1 (by decide) (by decide) hrun
  exact ⟨hp, h.2.2.2.2.2.2.2, h.1⟩

/-- **A LEASE IS LOST**: when the only queued caller has expired, the release raises and the
    connection stays borrowed; and so it does when the caller is cancelled after the hand-off. No
    live caller has it in either case. -/
theorem lease_leaked : (∃ p, exec (step single) (.started 1)
        [.acquire false false, .acquire false false, .expire 1, .release 0] = some p
      ∧ p.raised = true ∧ 0 ∈ p.borrowed
      ∧ tally p.nextLease p.leases (Lease.keeps 0) = 0)
    ∧ ∃ p, exec (step single) (.started 1)
        [.acquire false false, .acquire false false, .release 0, .cancel 1,
          .resume 1 false] = some p
      ∧ p.leases 0 = .over ∧ p.leases 1 = .over ∧ 0 ∈ p.borrowed
      ∧ tally p.nextLease p.leases (Lease.keeps 0) = 0 := by
  constructor
  · refine run_ends (fun p => (p.raised, decide (0 ∈ p.borrowed),
      tally p.nextLease p.leases (Lease.keeps 0))) (true, true, 0) (by decide) fun p _ hp => ?_
    rw [Prod.mk.injEq, Prod.mk.injEq] at hp
    exact ⟨hp.1, of_decide_eq_true hp.2.1, hp.2.2⟩
  · refine run_ends (fun p => (p.leases 0, p.leases 1, decide (0 ∈ p.borrowed),
      tally p.nextLease p.leases (Lease.keeps 0))) (.over, .over, true, 0) (by decide)
      fun p _ hp => ?_
    rw [Prod.mk.injEq, Prod.mk.injEq, Prod.mk.injEq] at hp
    exact ⟨hp.1, hp.2.1, of_decide_eq_true hp.2.2.1, hp.2.2.2⟩

end PgPool
