import Wreath.CapabilityMapProofs
import Wreath.StepSystemProofs

/-! # Signed requests — `signatures.py`

`verifyHeaders` refuses what is cheap to refuse, looks the nonce up, checks the signature
and only then claims the nonce. A request that does not verify adds nothing to the ledger
(`unverified_adds_nothing`). The `created` window reaches `max_age` to either side, while a
nonce is remembered from its first use: a lifetime of `max_age` ends in the middle of the
window of a signature first used at its start (`verified_twice`). Where the lifetime covers
the rest of the window, a signature verifies once (`verified_once`). The four readings of
the clock, one for the window and one for each use of the ledger, are part of a request. -/

namespace Signature

open Capability List Lockstep CapabilityMap

/-! ## The nonce ledger -/

structure NonceLedger where
  table : CapabilityMap String Bool
  refusals : Nat
  replays : Nat

def NonceLedger.new (maxEntries : Nat) (ttl now : ℚ) : NonceLedger :=
  ⟨.new maxEntries (some ttl) now .refuse true, 0, 0⟩

namespace NonceLedger

def seen (ledger : NonceLedger) (nonce : String) (now : ℚ) : Bool × NonceLedger :=
  match ledger.table.peek nonce now with
  | (none, table) => (false, { ledger with table := table })
  | (some _, table) =>
    (true, { ledger with table := table, replays := ledger.replays + 1 })

/-- `peeked` and `claimed` are the two readings of the table's clock. -/
def claim (ledger : NonceLedger) (nonce : String) (peeked claimed : ℚ) : Bool × NonceLedger :=
  match ledger.table.peek nonce peeked with
  | (some _, table) =>
    (false, { ledger with table := table, replays := ledger.replays + 1 })
  | (none, table) =>
    match table.claim nonce true none claimed with
    | (.ok true, table) => (true, { ledger with table := table })
    | (_, table) =>
      (false, { ledger with table := table, refusals := ledger.refusals + 1 })

end NonceLedger

/-! ## The verifier -/

/-- A parameter of the signature; nothing reads inside the last kind. -/
inductive Param where
  | int (n : Int)
  | str (s : String)
  | other
  deriving Repr, DecidableEq

/-- What `signature_plan_facts` gives; no bytes is a value of another type. -/
structure Plan where
  params : List (String × Param)
  raw : Option (List UInt8)
  covered : List String
  deriving Repr, DecidableEq

structure Directory where
  url : String
  origin : String
  keys : List (String × List UInt8)
  deriving Repr, DecidableEq

/-- The readings of the clock, in the order they are taken: for the window, for the look-up,
    and the two of the claim. -/
structure Clock where
  now : ℚ
  seen : ℚ
  peeked : ℚ
  claimed : ℚ
  deriving Repr, DecidableEq

/-- A request as the verifier reads it, with what the helpers outside this file make of its
    headers: the plan, the digest it must match and the signature base. `single` is false
    when a field occurs twice. -/
structure Request where
  single : Bool
  rawInput : Bool
  rawSignature : Bool
  agent : Option String
  plan : Except String Plan
  carriesBody : Bool
  digest : Except String (String × List UInt8)
  base : Except String (List UInt8)
  directories : List Directory
  clock : Clock

structure SignatureFacts where
  verified : Bool
  agent : Option String
  keyId : Option String
  reason : Option String
  covered : List String
  deriving Repr, DecidableEq

structure Config where
  required : List String
  maxAge : ℚ
  verify : List UInt8 → List UInt8 → List UInt8 → Bool
  repr : Param → String

structure Signatures where
  nonces : Option NonceLedger
  verified : Nat
  unverified : Nat

variable (cfg : Config) (req : Request) (plan : Plan)

def Plan.get (name : String) : Option Param := plan.params.lookup name

/-- `_key`: a named agent is looked for in its own directory only. -/
def findKey (directories : List Directory) (agent : Option String)
    (keyId : String) : Option (List UInt8) :=
  match agent with
  | some agent =>
    match directories.find? fun d => d.url == agent || d.origin == agent with
    | some directory => directory.keys.lookup keyId
    | none => none
  | none => directories.findSome? fun d => d.keys.lookup keyId

def hexDigits : List Char := "0123456789abcdef".toList

def hex (bytes : List UInt8) : String := String.ofList (bytes.flatMap fun b =>
    [hexDigits.getD (b.toNat / 16) '0', hexDigits.getD (b.toNat % 16) '0'])

def ledgerKey (key : List UInt8) (nonce : String) : String := hex key ++ "\x00" ++ nonce

def require (condition : Bool) (message : String) : Except String Unit :=
  if condition then .ok () else .error message

def readRaw : Except String (List UInt8) :=
  match plan.raw with
  | some raw => .ok raw
  | none => .error "signature value must be a byte sequence"

def digestComponent : String := "content-digest"

def checkCovered : Except String Unit :=
  match cfg.required.find? fun name => !plan.covered.contains name with
  | some missing => .error ("signature does not cover " ++ missing)
  | none =>
    if req.carriesBody && !plan.covered.contains digestComponent then
      .error ("signature does not cover " ++ digestComponent)
    else .ok ()

def readDigest : Except String (Option (String × List UInt8)) :=
  if plan.covered.contains digestComponent then req.digest.map some
  else .ok none

def readCreated : Except String Int :=
  match plan.get "created" with
  | some (.int created) => .ok created
  | _ => .error "signature has no created parameter"

/-- The window, as the subtraction of doubles gives it. -/
def InWindow (now : ℚ) (created : Int) : Prop :=
  |Binary64.sub now (Binary64.nearest created)| ≤ cfg.maxAge

instance (now : ℚ) (created : Int) : Decidable (InWindow cfg now created) :=
  inferInstanceAs (Decidable (_ ≤ _))

def checkExpires (now : ℚ) : Except String Unit :=
  match plan.get "expires" with
  | none => .ok ()
  | some (.int expires) =>
    if (expires : ℚ) < now then .error "signature has expired" else .ok ()
  | some _ => .error "signature expires parameter must be an integer"

def checkAlgorithm : Except String Unit :=
  match plan.get "alg" with
  | none => .ok ()
  | some alg =>
    if alg = .str "ed25519" then .ok ()
    else .error ("unsupported signature algorithm " ++ cfg.repr alg)

def readKeyId : Except String String :=
  match plan.get "keyid" with
  | some (.str keyId) => .ok keyId
  | _ => .error "signature has no keyid"

def readKey (keyId : String) : Except String (List UInt8) :=
  match findKey req.directories req.agent keyId with
  | some key => .ok key
  | none => .error "unknown signing key"

def readNonce : Except String String :=
  match plan.get "nonce" with
  | some (.str nonce) => .ok nonce
  | _ => .error "signature has no nonce"

/-- What the cheap checks leave for the rest of the verification. -/
structure Candidate where
  plan : Plan
  raw : List UInt8
  created : Int
  keyId : String
  key : List UInt8
  deriving Repr, DecidableEq

/-- The checks of `_verify_headers` before the ledger is asked. -/
def candidate : Except String Candidate := do
  let plan ← req.plan
  let raw ← readRaw plan
  checkCovered cfg req plan
  let _ ← readDigest req plan
  let created ← readCreated plan
  require (InWindow cfg req.clock.now created) "signature created outside the accepted window"
  checkExpires plan req.clock.now
  checkAlgorithm cfg plan
  let keyId ← readKeyId plan
  let key ← readKey req keyId
  return ⟨plan, raw, created, keyId, key⟩

/-- The signature itself, over the base. -/
def checkSignature (c : Candidate) : Except String Unit := do
  let base ← req.base
  require (cfg.verify c.key base c.raw) "signature does not verify"

def usedNonce : String := "signature nonce was already used"

/-- The look-up, the signature and the claim, in this order. -/
def verifyNonce (c : Candidate) (ledger : NonceLedger) : Except String Unit × NonceLedger :=
  match readNonce c.plan with
  | .error e => (.error e, ledger)
  | .ok nonce =>
    match ledger.seen (ledgerKey c.key nonce) req.clock.seen with
    | (true, ledger) => (.error usedNonce, ledger)
    | (false, ledger) =>
      match checkSignature cfg req c with
      | .error e => (.error e, ledger)
      | .ok () =>
        match ledger.claim (ledgerKey c.key nonce) req.clock.peeked
          req.clock.claimed with
        | (true, ledger) => (.ok (), ledger)
        | (false, ledger) => (.error usedNonce, ledger)

def verifyHeaders (nonces : Option NonceLedger) :
    Except String SignatureFacts × Option NonceLedger :=
  match candidate cfg req with
  | .error e => (.error e, nonces)
  | .ok c =>
    let facts : SignatureFacts := ⟨true, req.agent, some c.keyId, none, c.plan.covered⟩
    match nonces with
    | none => ((checkSignature cfg req c).map fun _ => facts, none)
    | some ledger =>
      ((verifyNonce cfg req c ledger).1.map fun _ => facts, some (verifyNonce cfg req c ledger).2)

def refused (agent : Option String) (reason : String) : SignatureFacts :=
  ⟨false, agent, none, some reason, []⟩

def verify (s : Signatures) (req : Request) : SignatureFacts × Signatures :=
  if !req.single then
    (refused none "signature request field occurs more than once",
      { s with unverified := s.unverified + 1 })
  else if !req.rawInput then (refused none "absent", s)
  else if !req.rawSignature then
    (refused none "no-signature-header", { s with unverified := s.unverified + 1 })
  else
    match verifyHeaders cfg req s.nonces with
    | (.error reason, nonces) =>
      (refused req.agent reason, { s with nonces := nonces, unverified := s.unverified + 1 })
    | (.ok facts, nonces) =>
      (facts, { s with nonces := nonces, verified := s.verified + 1 })

/-! ## What a request does to the ledger -/

namespace NonceLedger

variable {ledger ledger' : NonceLedger} {nonce : String} {now peeked claimed : ℚ}

theorem seen_table (ledger : NonceLedger) (nonce : String) (now : ℚ) :
    (ledger.seen nonce now).2.table = ledger.table.observe now := by
  rw [seen, peek]
  split
  · rename_i h; exact (Prod.mk.inj h).2.symm
  · rename_i h; exact (Prod.mk.inj h).2.symm

/-- A claim is a sweep, and then nothing or a claim of the table. -/
theorem claim_cases (ledger : NonceLedger) (nonce : String) (peeked claimed : ℚ) :
    ((ledger.claim nonce peeked claimed).1 = false ∧
      (ledger.claim nonce peeked claimed).2.table = ledger.table.observe peeked) ∨
    (∃ result table, (ledger.table.observe peeked).claim nonce true none claimed = (result, table) ∧
      ((ledger.claim nonce peeked claimed).1 = true ↔ result = .ok true) ∧
      (ledger.claim nonce peeked claimed).2.table = table) := by
  rw [claim, peek]
  split
  · rename_i h
    exact .inl ⟨rfl, (Prod.mk.inj h).2.symm⟩
  · rename_i h
    refine .inr ?_
    rw [(Prod.mk.inj h).2]
    split
    · rename_i hclaim
      exact ⟨_, _, hclaim, by simp, rfl⟩
    · rename_i result table hne hclaim
      refine ⟨result, table, hclaim, ?_, rfl⟩
      exact iff_of_false (by simp) hne

end NonceLedger

variable {cfg : Config} {req : Request} {c : Candidate} {s : Signatures}
  {ledger : NonceLedger} {k : String} {d : Deadline}

/-- What a request says of itself: the key it names, the nonce and the time it was created at. -/
def carried (req : Request) : Option (List UInt8 × String × Int) :=
  match req.plan with
  | .error _ => none
  | .ok plan =>
    match readCreated plan, readKeyId plan, readNonce plan with
    | .ok created, .ok keyId, .ok nonce =>
      (findKey req.directories req.agent keyId).map fun key => (key, nonce, created)
    | _, _, _ => none

/-- The ledger key of what a request carries. -/
def carriedKey (req : Request) : Option String := (carried req).map fun x => ledgerKey x.1 x.2.1

theorem require_ok {condition : Bool} {message : String} {u : Unit}
    (h : require condition message = .ok u) : condition = true := by
  rw [require] at h
  split at h
  · assumption
  · cases h

theorem readKey_ok {keyId : String} {key : List UInt8} (h : readKey req keyId = .ok key) :
    findKey req.directories req.agent keyId = some key := by
  rw [readKey] at h
  split at h
  · rename_i hfound
    rw [hfound, Except.ok.inj h]
  · cases h

/-- A candidate is inside the window, and is what the request carries. -/
theorem candidate_ok (h : candidate cfg req = .ok c) : InWindow cfg req.clock.now c.created ∧
      ∀ nonce, readNonce c.plan = .ok nonce → carried req = some (c.key, nonce, c.created) := by
  obtain ⟨plan, hplan, h⟩ := bind_ok.mp h
  obtain ⟨raw, -, h⟩ := bind_ok.mp h
  obtain ⟨-, -, h⟩ := bind_ok.mp h
  obtain ⟨-, -, h⟩ := bind_ok.mp h
  obtain ⟨created, hcreated, h⟩ := bind_ok.mp h
  obtain ⟨u, hwindow, h⟩ := bind_ok.mp h
  obtain ⟨-, -, h⟩ := bind_ok.mp h
  obtain ⟨-, -, h⟩ := bind_ok.mp h
  obtain ⟨keyId, hkeyId, h⟩ := bind_ok.mp h
  obtain ⟨key, hkey, h⟩ := bind_ok.mp h
  cases h
  refine ⟨of_decide_eq_true (require_ok hwindow), fun nonce hnonce => ?_⟩
  rw [carried, hplan]
  dsimp only at hnonce ⊢
  rw [hcreated, hkeyId, hnonce]
  dsimp only
  rw [readKey_ok hkey]
  rfl

/-- The ledger after a candidate: untouched, swept, or swept and claimed. -/
inductive Touched (req : Request) (key : String) (before : NonceLedger) :
    Bool → NonceLedger → Prop where
  | untouched : Touched req key before false before
  | swept {after : NonceLedger}
      (h : after.table = before.table.observe req.clock.seen) :
      Touched req key before false after
  | twice {after : NonceLedger}
      (h : after.table = (before.table.observe req.clock.seen).observe req.clock.peeked) :
      Touched req key before false after
  | claimed {after : NonceLedger} {result : Except String Bool} {b : Bool}
      (h : ((before.table.observe req.clock.seen).observe
        req.clock.peeked).claim key true none req.clock.claimed = (result, after.table))
      (hb : b = true ↔ result = .ok true) :
      Touched req key before b after

theorem verifyNonce_touched (cfg : Config) (req : Request) (ledger : NonceLedger) {nonce : String}
    (hnonce : readNonce c.plan = .ok nonce) :
    Touched req (ledgerKey c.key nonce) ledger (verifyNonce cfg req c ledger).1.toBool
      (verifyNonce cfg req c ledger).2 := by
  rw [verifyNonce, hnonce]
  dsimp only
  have hseen := ledger.seen_table (ledgerKey c.key nonce) req.clock.seen
  split
  · rename_i h
    rw [h] at hseen
    exact .swept hseen
  rename_i ledger' h
  rw [h] at hseen
  split
  · exact .swept hseen
  rcases ledger'.claim_cases (ledgerKey c.key nonce) req.clock.peeked
      req.clock.claimed with ⟨hfalse, htable⟩ | ⟨result, table, hclaim, hiff, htable⟩
  · split
    · rename_i h₁; rw [h₁] at hfalse; cases hfalse
    · rename_i h₁
      rw [h₁, hseen] at htable
      exact .twice htable
  · rw [hseen] at hclaim
    split
    · rename_i h₁
      rw [h₁] at hiff htable
      refine .claimed (htable ▸ hclaim) ?_
      exact iff_of_true rfl (hiff.mp rfl)
    · rename_i h₁
      rw [h₁] at hiff htable
      refine .claimed (htable ▸ hclaim) ?_
      exact iff_of_false (by simp [Except.toBool]) (fun hr => nomatch hiff.mpr hr)

/-- A request that stops before the ledger. -/
theorem Touched.stopped {s' : Signatures} {facts : SignatureFacts}
    (hs : s'.nonces = some ledger) (hfacts : facts.verified = false) :
    ∃ after key, s'.nonces = some after ∧ Touched req key ledger facts.verified after ∧
      (facts.verified = true → carriedKey req = some key ∧
        ∃ x, carried req = some x ∧ InWindow cfg req.clock.now x.2.2) := by
  refine ⟨ledger, "", hs, hfacts ▸ .untouched, fun h => ?_⟩
  cases hfacts.symm.trans h

/-- **ONE REQUEST**: it is not verified and the ledger stays, or it is a candidate and the
    ledger says whether it is verified. -/
theorem verify_touched (cfg : Config) (req : Request) (hs : s.nonces = some ledger) :
    ∃ after key, (verify cfg s req).2.nonces = some after ∧
      Touched req key ledger (verify cfg s req).1.verified after ∧
      ((verify cfg s req).1.verified = true → carriedKey req = some key ∧
        ∃ x, carried req = some x ∧ InWindow cfg req.clock.now x.2.2) := by
  rw [verify]
  split
  · exact Touched.stopped hs rfl
  split
  · exact Touched.stopped hs rfl
  split
  · exact Touched.stopped hs rfl
  rw [verifyHeaders, hs]
  cases hcand : candidate cfg req with
  | error e => exact Touched.stopped rfl rfl
  | ok c =>
    obtain ⟨hwindow, hcarry⟩ := candidate_ok hcand
    dsimp only
    cases hnonce : readNonce c.plan with
    | error e =>
      rw [verifyNonce, hnonce]
      exact Touched.stopped rfl rfl
    | ok nonce =>
      have htouch := verifyNonce_touched cfg req ledger hnonce
      have hx := hcarry nonce hnonce
      have hkey : carriedKey req = some (ledgerKey c.key nonce) := by
        rw [carriedKey, hx]
        rfl
      refine ⟨(verifyNonce cfg req c ledger).2, ledgerKey c.key nonce, ?_⟩
      cases hresult : (verifyNonce cfg req c ledger).1 with
      | error e =>
        rw [hresult] at htouch
        exact ⟨rfl, htouch, nofun⟩
      | ok u =>
        rw [hresult] at htouch
        exact ⟨rfl, htouch, fun _ => ⟨hkey, _, hx, hwindow⟩⟩

/-! ## A touched ledger -/

variable {before after : NonceLedger} {key : String} {b : Bool}

/-- What is not verified adds no key and no entry. -/
theorem Touched.within (h : Touched req key before false after)
    (hrefusing : before.table.Refusing) : after.table.Within before.table := by
  have hseen := observe_within before.table req.clock.seen
  cases h with
  | untouched => exact .refl _
  | swept h => rw [h]; exact hseen
  | twice h =>
    rw [h]
    exact hseen.trans (observe_within _ _)
  | claimed h hb =>
    have hobs := observe_refusing
      (observe_refusing hrefusing req.clock.seen)
      req.clock.peeked
    refine (hseen.trans (observe_within _ req.clock.peeked)).trans (claim_within hobs h ?_)
    exact fun hr => nomatch hb.mpr hr

theorem Touched.alike (h : Touched req key before b after)
    (hrefusing : before.table.Refusing) : after.table.Alike before.table := by
  have hseen := observe_alike before.table req.clock.seen
  have hpeeked := (observe_alike (before.table.observe req.clock.seen) req.clock.peeked).trans hseen
  cases h with
  | untouched => exact ⟨rfl, rfl, rfl⟩
  | swept h => rw [h]; exact hseen
  | twice h => rw [h]; exact hpeeked
  | claimed h hb =>
    have hclaim := claim_alike (hpeeked.refusing hrefusing) key true none req.clock.claimed
    rw [h] at hclaim
    exact hclaim.trans hpeeked

/-- The readings of one request do not go back. -/
structure Clock.Ordered (clock : Clock) : Prop where
  now : clock.now ≤ clock.seen
  seen : clock.seen ≤ clock.peeked
  peeked : clock.peeked ≤ clock.claimed

/-- A key spent at the start is spent at the look and at the claim. -/
theorem Clock.Ordered.spent (hclock : req.clock.Ordered)
    (hspent : before.table.Spent k d) (hlt : ↑req.clock.claimed < d) :
    (before.table.observe req.clock.seen).Spent k d
      ∧ ((before.table.observe req.clock.seen).observe req.clock.peeked).Spent k d := by
  have hlt₂ : ↑req.clock.peeked < d := lt_of_le_of_lt (WithTop.coe_le_coe.mpr hclock.peeked) hlt
  have hlt₁ : ↑req.clock.seen < d := lt_of_le_of_lt (WithTop.coe_le_coe.mpr hclock.seen) hlt₂
  have hseen := observe_spent hspent hlt₁
  exact ⟨hseen, observe_spent hseen hlt₂⟩

theorem Touched.keeps (h : Touched req key before b after) (hclock : req.clock.Ordered)
    (hspent : before.table.Spent k d) (hlt : ↑req.clock.claimed < d) : after.table.Spent k d := by
  obtain ⟨hseen, hpeeked⟩ := hclock.spent hspent hlt
  cases h with
  | untouched => exact hspent
  | swept h => rw [h]; exact hseen
  | twice h => rw [h]; exact hpeeked
  | claimed h hb =>
    have hclaim := claim_keeps hpeeked hlt key true none
    rw [h] at hclaim
    exact hclaim

/-! ## Runs of requests -/

/-- One request of a run, with the verifier before and after it. -/
structure Outcome where
  request : Request
  facts : SignatureFacts
  before : Signatures
  after : Signatures

def verifyAll (cfg : Config) : Signatures → List Request → List Outcome
  | _, [] => []
  | s, req :: reqs =>
    ⟨req, (verify cfg s req).1, s, (verify cfg s req).2⟩ :: verifyAll cfg (verify cfg s req).2 reqs

/-- The key a request was verified under. -/
def verifiedKey (req : Request) (facts : SignatureFacts) : Option String :=
  if facts.verified then carriedKey req else none

/-- The ledger in place, with its lifetime. -/
def Ready (ttl : ℚ) (s : Signatures) : Prop :=
  ∃ ledger, s.nonces = some ledger ∧ ledger.table.Refusing ∧ ledger.table.ttl = some ttl

def SpentIn (s : Signatures) (k : String) (d : Deadline) : Prop :=
  ∃ ledger, s.nonces = some ledger ∧ ledger.table.Spent k d

theorem verifiedKey_some {facts : SignatureFacts} (h : verifiedKey req facts = some k) :
    facts.verified = true ∧ carriedKey req = some k := by
  rw [verifiedKey] at h
  split at h
  · exact ⟨‹_›, h⟩
  · cases h

/-- What is verified claimed its key. -/
theorem verified_claims (hs : s.nonces = some before)
    (haccepted : verifiedKey req (verify cfg s req).1 = some k) :
    ∃ after, (verify cfg s req).2.nonces = some after
      ∧ ((before.table.observe req.clock.seen).observe
        req.clock.peeked).claim k true none req.clock.claimed = (.ok true, after.table) := by
  obtain ⟨hverified, hk⟩ := verifiedKey_some haccepted
  obtain ⟨after, key, hafter, htouched, hcarried⟩ := verify_touched cfg req hs
  obtain ⟨hkey, -⟩ := hcarried hverified
  cases hk.symm.trans hkey
  rw [hverified] at htouched
  refine ⟨after, hafter, ?_⟩
  cases htouched with
  | claimed h hb => rwa [hb.mp rfl] at h

/-- The verifier is a ledger of nonces. -/
def nonceLedger (cfg : Config) (ttl : ℚ) : SpentOnce.Ledger Signatures Request String Deadline where
  step s req := (verifiedKey req (verify cfg s req).1, (verify cfg s req).2)
  time req := ↑req.clock.claimed
  deadline req := Binary64.add req.clock.claimed ttl
  Valid req := req.clock.Ordered
  Inv := Ready ttl
  Spent := SpentIn
  inv := by
    rintro s req - ⟨before, hs, hrefusing, httl⟩
    obtain ⟨after, key, hafter, htouched, -⟩ := verify_touched cfg req hs
    have halike := htouched.alike hrefusing
    exact ⟨after, hafter, halike.refusing hrefusing, halike.ttl.trans httl⟩
  keep := by
    rintro s req k d hclock ⟨before, hs, hspent⟩ hlt
    obtain ⟨after, key, hafter, htouched, -⟩ := verify_touched cfg req hs
    exact ⟨after, hafter, htouched.keeps hclock hspent hlt⟩
  refuse := by
    rintro s req k d hclock ⟨before, hs, hspent⟩ hlt haccepted
    obtain ⟨after, -, hclaim⟩ := verified_claims hs haccepted
    rw [claim_spent (hclock.spent hspent hlt).2 hlt] at hclaim
    cases hclaim
  record := by
    rintro s req k hclock ⟨before, hs, hrefusing, httl⟩ haccepted
    obtain ⟨after, hafter, hclaim⟩ := verified_claims hs haccepted
    have hpeeked := (observe_alike
      (before.table.observe req.clock.seen) req.clock.peeked).trans
        (observe_alike before.table req.clock.seen)
    exact ⟨after, hafter, claim_ok (hpeeked.refusing hrefusing)
      (by rw [hpeeked.ttl, httl]; rfl) hclaim⟩

theorem nonceLedger_run (cfg : Config) (ttl : ℚ) (reqs : List Request) (s : Signatures) :
    (nonceLedger cfg ttl).run s reqs = (verifyAll cfg s reqs).map
        fun o => (o.request, verifiedKey o.request o.facts) := by
  induction reqs generalizing s with
  | nil => rfl
  | cons req reqs ih =>
    rw [SpentOnce.run_cons, verifyAll, map_cons, ← ih]
    rfl

/-- Each outcome of a run is one step from a ready verifier. -/
theorem verifyAll_step (cfg : Config) {ttl : ℚ} (reqs : List Request)
    (hready : Ready ttl s) (hclock : ∀ req ∈ reqs, req.clock.Ordered) :
    ∀ o ∈ verifyAll cfg s reqs, o.request ∈ reqs ∧ Ready ttl o.before ∧
      o.facts = (verify cfg o.before o.request).1 ∧
      o.after = (verify cfg o.before o.request).2 := by
  induction reqs generalizing s with
  | nil =>
    intro o ho
    cases ho
  | cons req reqs ih =>
    intro o ho
    rcases mem_cons.mp ho with rfl | hmem
    · exact ⟨mem_cons_self, hready, rfl, rfl⟩
    · have hnext : Ready ttl (verify cfg s req).2 :=
        (nonceLedger cfg ttl).inv (hclock req mem_cons_self) hready
      obtain ⟨hin, hrest⟩ := ih hnext (fun r hr => hclock r (mem_cons_of_mem _ hr)) o hmem
      exact ⟨mem_cons_of_mem _ hin, hrest⟩

/-- No key and no entry is in the ledger that was not there before. -/
def AddsNothing (before after : Signatures) : Prop :=
  ∃ l l', before.nonces = some l ∧ after.nonces = some l' ∧ l'.table.Within l.table

/-- **WHAT IS NOT VERIFIED LEAVES NO TRACE** in the ledger. -/
theorem unverified_adds_nothing {ttl : ℚ} (hready : Ready ttl s)
    (h : (verify cfg s req).1.verified = false) : AddsNothing s (verify cfg s req).2 := by
  obtain ⟨before, hs, hrefusing, -⟩ := hready
  obtain ⟨after, key, hafter, htouch, -⟩ := verify_touched cfg req hs
  rw [h] at htouch
  exact ⟨before, after, hs, hafter, htouch.within hrefusing⟩

/-- Both were verified, for one key, nonce and `created`. -/
def SameSignature (a b : Outcome) : Prop := a.facts.verified = true ∧ b.facts.verified = true ∧
    ∃ x, carried a.request = some x ∧ carried b.request = some x

instance (a b : Outcome) : Decidable (SameSignature a b) := inferInstanceAs (Decidable (_ ∧ _ ∧ _))

/-- The nonce claimed now is remembered to the end of the window, and the window is still
    open when it is claimed. -/
def Remembered (cfg : Config) (ttl : ℚ) (req : Request) : Prop :=
  ∀ x, carried req = some x → InWindow cfg req.clock.now x.2.2 →
    req.clock.claimed ≤ x.2.2 + cfg.maxAge ∧ ((x.2.2 + cfg.maxAge : ℚ) : Deadline) <
        Binary64.add req.clock.claimed ttl

/-- A verifier with a nonce ledger, before its first request. -/
def Signatures.new (maxEntries : Nat) (ttl start : ℚ) : Signatures :=
  ⟨some (.new maxEntries ttl start), 0, 0⟩

/-- **VERIFIED ONCE**: where every nonce is remembered to the end of its window no signature
    verifies twice, and what is not verified adds nothing to the ledger. -/
theorem verified_once (cfg : Config) (maxEntries : Nat) (ttl start : ℚ)
    (reqs : List Request) (hclock : ∀ req ∈ reqs, req.clock.Ordered)
    (hsorted : reqs.Pairwise fun a b => a.clock.claimed ≤ b.clock.now)
    (hremembered : ∀ req ∈ reqs, Remembered cfg ttl req) :
    (verifyAll cfg (.new maxEntries ttl start) reqs).Pairwise (fun a b => ¬ SameSignature a b) ∧
      ∀ o ∈ verifyAll cfg (.new maxEntries ttl start) reqs,
        o.facts.verified = false → AddsNothing o.before o.after := by
  have hready : Ready ttl (.new maxEntries ttl start) := ⟨_, rfl, ⟨rfl, rfl⟩, rfl⟩
  have hstep := verifyAll_step cfg reqs hready hclock
  refine ⟨?_, fun o ho hfalse => ?_⟩
  · have htimes : reqs.Pairwise fun a b =>
        ((a.clock.claimed : ℚ) : Deadline) ≤ (b.clock.claimed : ℚ) := by
      refine hsorted.imp_of_mem fun {a b} _ hb hle => ?_
      have ho := hclock b hb
      exact WithTop.coe_le_coe.mpr (((hle.trans ho.now).trans ho.seen).trans ho.peeked)
    have hapart := SpentOnce.accepted_apart (L := nonceLedger cfg ttl) reqs _ hready hclock htimes
    rw [nonceLedger_run, pairwise_map] at hapart
    refine hapart.imp_of_mem ?_
    rintro a b ha hb hlate ⟨hva, hvb, x, hxa, hxb⟩
    have hkey : ∀ o : Outcome, o.facts.verified = true → carried o.request = some x →
        verifiedKey o.request o.facts = some (ledgerKey x.1 x.2.1) := by
      intro o hv hx
      rw [verifiedKey, if_pos hv, carriedKey, hx]
      rfl
    refine hlate _ (hkey a hva hxa) (hkey b hvb hxb) ?_
    -- the later claim is inside the window the earlier one covers
    have hin : ∀ o ∈ verifyAll cfg (.new maxEntries ttl start) reqs,
        o.facts.verified = true → carried o.request = some x →
        o.request ∈ reqs ∧ InWindow cfg o.request.clock.now x.2.2 := by
      intro o ho hv hx
      obtain ⟨hmem, ⟨l, hl, -⟩, hfacts, -⟩ := hstep o ho
      obtain ⟨after, key, -, -, hcarried⟩ := verify_touched cfg o.request hl
      obtain ⟨-, y, hy, hwindow⟩ := hcarried (hfacts ▸ hv)
      cases hy.symm.trans hx
      exact ⟨hmem, hwindow⟩
    obtain ⟨hma, hwa⟩ := hin a ha hva hxa
    obtain ⟨hmb, hwb⟩ := hin b hb hvb hxb
    exact lt_of_le_of_lt (WithTop.coe_le_coe.mpr (hremembered b.request hmb x hxb hwb).1)
      (hremembered a.request hma x hxa hwa).2
  · obtain ⟨-, hbefore, hfacts, hafter⟩ := hstep o ho
    rw [hafter]
    exact unverified_adds_nothing hbefore (hfacts ▸ hfalse)

/-! ## A lifetime of one window -/

/-- A request signed with a known key, every reading of the clock the same. -/
def signedAt (created : Int) (now : ℚ) : Request where
  single := true
  rawInput := true
  rawSignature := true
  agent := none
  plan := .ok ⟨[("created", .int created), ("keyid", .str "bot"), ("nonce", .str "n1")],
      some [1], ["@method", "@authority", "@path", "@query"]⟩
  carriesBody := false
  digest := .error "covered header 'content-digest' is not present"
  base := .ok [2]
  directories := [⟨"https://bot.example/keys", "https://bot.example", [("bot", [7])]⟩]
  clock := ⟨now, now, now, now⟩

/-- The verifier's own defaults, with a curve that accepts. -/
def minuteConfig : Config where
  required := ["@method", "@authority", "@path", "@query"]
  maxAge := 60
  verify _ _ _ := true
  repr _ := "'alg'"

theorem remembered_signedAt {created : Int} {now ttl : ℚ} (hopen : now ≤ created + 60)
    (hlong : ((created + 60 : ℚ) : Deadline) < Binary64.add now ttl) :
    Remembered minuteConfig ttl (signedAt created now) := by
  intro x hx _
  cases hx
  exact ⟨hopen, hlong⟩

/-- A lifetime that outlasts the window from any first use. -/
theorem verified_once_outlasted : (verifyAll minuteConfig (.new 16 300 0)
        [signedAt 1060 1000, signedAt 1060 1120]).Pairwise
        (fun a b => ¬ SameSignature a b) ∧
      ∀ o ∈ verifyAll minuteConfig (.new 16 300 0) [signedAt 1060 1000, signedAt 1060 1120],
        o.facts.verified = false → AddsNothing o.before o.after := by
  refine verified_once minuteConfig 16 300 0 _ ?_ ?_ ?_
  · intro req hreq
    rcases mem_pair.mp hreq with rfl | rfl
    · exact ⟨le_refl _, le_refl _, le_refl _⟩
    · exact ⟨le_refl _, le_refl _, le_refl _⟩
  · decide +kernel
  · intro req hreq
    rcases mem_pair.mp hreq with rfl | rfl
    · exact remembered_signedAt (by decide +kernel) (by decide +kernel)
    · exact remembered_signedAt (by decide +kernel) (by decide +kernel)

/-- **VERIFIED TWICE**: the lifetime is `max_age`, the signature is first used at the start
    of its window, and half way through it again. -/
theorem verified_twice : minuteConfig.maxAge ≤ 60 ∧ ¬ (verifyAll minuteConfig (.new 16 60 0)
      [signedAt 1060 1000, signedAt 1060 1060]).Pairwise fun a b => ¬ SameSignature a b := by
  refine ⟨le_refl _, ?_⟩
  decide +kernel

end Signature
