import Wreath.CapabilityMapProofs
import Wreath.StepSystemProofs

/-! # DPoP proofs — `dpop.py`

`verify` checks one proof against the request that carries it and spends its replay
identifier in a refusing capability map. The identifier is spent for `max_age + clock_skew`
from its first use, and a proof dated as far ahead as the skew allows is still fresh at the
end of that time (`replayed_at_the_edge`); for every other proof the identifier outlives the
freshness (`accepted_once`). The compact form, the signature, the thumbprint, the target URI
and the hash of the access token are parameters. -/

namespace Dpop

open Capability Except List Lockstep CapabilityMap

/-- A parsed JSON value; nothing reads inside the last kind. -/
inductive Json where
  | null
  | bool (b : Bool)
  | int (n : Int)
  | str (s : String)
  | object (fields : List (String × Json))
  | other

abbrev Fields := List (String × Json)

def Fields.get (fields : Fields) (name : String) : Option Json := fields.lookup name

/-- A refusal, or an exception `verify` does not turn into one. -/
inductive Failure where
  | refusal (reason message : String)
  | typeError
  | valueError
  | overflowError
  deriving Repr, DecidableEq

structure DPoPProof where
  jti : String
  jkt : String
  jwk : Fields
  issuedAt : Int

/-- `isNone` of the compact form: a `TypeError`, `ValueError` or `KeyError`; of the key and
    of the signature: an error the key or the signature raises; of the hash: an access token
    that is not ASCII. -/
structure Env where
  parseCompact : String → Option (Fields × Fields × List UInt8 × List UInt8)
  thumbprint : Fields → Option String
  verifySignature : String → Fields → List UInt8 → List UInt8 → Option Bool
  targetUri : String → Bool → Except Failure String
  accessTokenHash : String → Option String
  repr : String → String

structure Config where
  algorithms : List String
  maxAge : Int
  clockSkew : Int
  maxEntries : Nat

/-- What the constructor accepts. -/
structure Config.Valid (cfg : Config) : Prop where
  maxAge : 0 < cfg.maxAge
  clockSkew : 0 ≤ cfg.clockSkew

structure Call where
  proof : String
  method : String
  uri : String
  accessToken : Option String
  expectedJkt : Option String
  nonce : Option String
  now : Int

/-! ## The checks -/

def require (condition : Bool) (reason message : String) : Except Failure Unit :=
  if condition then .ok () else .error (.refusal reason message)

def isAscii (s : String) : Bool := s.toList.all fun c => c.toNat < 128

/-- `hmac.compare_digest` of two strings: not defined off ASCII. -/
def compareDigest (a b : String) : Except Failure Bool :=
  if isAscii a && isAscii b then .ok (a == b) else .error .typeError

def privateJwkMembers : List String := ["d", "p", "q", "dp", "dq", "qi", "oth", "k"]

/-- The private members a key carries, sorted. -/
def privateMembers (jwk : Fields) : List String :=
  (privateJwkMembers.filter fun name => (jwk.get name).isSome).mergeSort

variable (cfg : Config) (env : Env)

def parseProof (proof : String) : Except Failure (Fields × Fields × List UInt8 × List UInt8) :=
  match env.parseCompact proof with
  | some parsed => .ok parsed
  | none => .error (.refusal "malformed-proof" "DPoP header must contain one compact JWT")

def readAlgorithm (header : Fields) : Except Failure String :=
  let refused := Failure.refusal "unsupported-algorithm"
    "DPoP proof alg must name a configured asymmetric JWS algorithm"
  match header.get "alg" with
  | some (.str algorithm) =>
    if cfg.algorithms.contains algorithm then .ok algorithm
    else .error refused
  | _ => .error refused

def readJwk (header : Fields) : Except Failure Fields :=
  match header.get "jwk" with
  | some (.object jwk) => .ok jwk
  | _ => .error (.refusal "missing-key" "DPoP proof header needs a public jwk object")

def checkSignature (algorithm : String) (jwk : Fields)
    (signingInput signature : List UInt8) : Except Failure String :=
  match env.thumbprint jwk,
    env.verifySignature algorithm jwk signingInput signature with
  | some jkt, some valid =>
    if valid then .ok jkt
    else .error (.refusal "invalid-signature" "DPoP proof signature does not match its jwk")
  | _, _ => .error (.refusal "invalid-key" "DPoP proof contains an invalid public jwk")

variable (claims : Fields)

def readString (name message : String) : Except Failure String :=
  match claims.get name with
  | some (.str s) =>
    if s = "" then .error (.refusal "missing-claim" message) else .ok s
  | _ => .error (.refusal "missing-claim" message)

def readIssuedAt : Except Failure Int :=
  match claims.get "iat" with
  | some (.int n) => .ok n
  | _ => .error (.refusal "missing-claim" "DPoP proof iat must be an integer timestamp")

/-- The freshness window, both ends included. -/
def Fresh (issuedAt moment : Int) : Prop :=
  moment - cfg.maxAge ≤ issuedAt ∧ issuedAt ≤ moment + cfg.clockSkew

instance (issuedAt moment : Int) : Decidable (Fresh cfg issuedAt moment) :=
  inferInstanceAs (Decidable (_ ∧ _))

def checkNonce (nonce : Option String) : Except Failure Unit :=
  let refused := Failure.refusal "nonce-mismatch" "DPoP proof nonce does not match the server nonce"
  match nonce, claims.get "nonce" with
  | none, _ => .ok ()
  | some nonce, some (.str proofNonce) => do
      let same ← compareDigest proofNonce nonce
      if same then .ok () else .error refused
  | some _, _ => .error refused

def keyMismatch : Failure :=
  .refusal "key-mismatch" "DPoP proof public key does not match the key bound to the access token"

/-- The key binding a JWT access token carries. -/
def checkBinding (accessToken jkt : String) : Except Failure Unit :=
  let refused := Failure.refusal "missing-key-binding"
    "a JWT DPoP access token must contain a non-empty cnf.jkt binding"
  match env.parseCompact accessToken with
  | none => .ok ()
  | some (_, accessClaims, _, _) =>
    match accessClaims.get "cnf" with
    | some (.object confirmation) =>
      match Fields.get confirmation "jkt" with
      | some (.str boundJkt) => do
          require (boundJkt ≠ "") "missing-key-binding"
            "a JWT DPoP access token must contain a non-empty cnf.jkt binding"
          let same ← compareDigest jkt boundJkt
          if same then .ok () else .error keyMismatch
      | _ => .error refused
    | _ => .error refused

/-- The hash that goes into the replay key. -/
def checkAccessToken (jkt : String) (accessToken : Option String) : Except Failure String :=
  let refused := Failure.refusal "access-token-mismatch"
    "DPoP proof access token hash does not match the presented token"
  match accessToken with
  | none => .ok ""
  | some token =>
    match env.accessTokenHash token with
    | none => .error (.refusal "invalid-access-token" "a DPoP access token must contain only ASCII")
    | some expectedAth =>
      match claims.get "ath" with
      | some (.str ath) => do
          let same ← compareDigest ath expectedAth
          if same then
            checkBinding env token jkt
            return expectedAth
          else .error refused
      | _ => .error refused

def checkExpectedJkt (jkt : String) (expectedJkt : Option String) : Except Failure Unit :=
  match expectedJkt with
  | none => .ok ()
  | some expected => do
      let same ← compareDigest jkt expected
      if same then .ok () else .error keyMismatch

abbrev ReplayKey := String × String × String

/-- Every check of `verify` before the replay identifier is spent. -/
def check (call : Call) : Except Failure (DPoPProof × ReplayKey) := do
  let (header, claims, signingInput, signature) ← parseProof env call.proof
  require (header.get "typ" matches some (.str "dpop+jwt")) "wrong-type"
    "DPoP proof typ must be 'dpop+jwt'"
  let algorithm ← readAlgorithm cfg header
  let jwk ← readJwk header
  require (privateMembers jwk).isEmpty "private-key"
    ("DPoP proof jwk must not contain private key material: " ++
      ", ".intercalate (privateMembers jwk))
  let jkt ← checkSignature env algorithm jwk signingInput signature
  let jti ← readString claims "jti" "DPoP proof jti must be a non-empty string"
  let htm ← readString claims "htm" "DPoP proof htm must be a non-empty string"
  let htu ← readString claims "htu" "DPoP proof htu must be a non-empty string"
  let issuedAt ← readIssuedAt claims
  let sameMethod ← compareDigest htm call.method
  require sameMethod "method-mismatch"
    (s!"DPoP proof HTTP method {env.repr htm} does not match request method " ++
      env.repr call.method)
  let target ← env.targetUri htu true
  let presented ← env.targetUri call.uri false
  let sameUri ← compareDigest target presented
  require sameUri "uri-mismatch" "DPoP proof target URI does not match this request"
  require (Fresh cfg issuedAt call.now) "stale-proof"
    "DPoP proof creation time is outside the accepted freshness window"
  checkNonce claims call.nonce
  let accessTokenHash ← checkAccessToken env claims jkt call.accessToken
  checkExpectedJkt jkt call.expectedJkt
  return (⟨jti, jkt, jwk, issuedAt⟩, (jkt, accessTokenHash, jti))

/-! ## The replay ledger -/

abbrev Replay := CapabilityMap ReplayKey Bool

/-- `float(max_age + clock_skew)`; nothing is the overflow error. -/
def lifetime : Option ℚ := Binary64.ofInt (cfg.maxAge + cfg.clockSkew)

/-- The ledger of the constructor under `local_replay`. -/
def localReplay (now : ℚ) : Option Replay := (lifetime cfg).map fun ttl =>
    new cfg.maxEntries (some ttl) now .refuse true

/-- The replay identifier is spent, or the call is refused. -/
def spend (replay : Replay) (proof : DPoPProof) (key : ReplayKey)
    (ttl now : ℚ) : Except Failure DPoPProof × Replay :=
  match replay.claim key true (some ttl) now with
  | (.ok true, replay') => (.ok proof, replay')
  | (.ok false, replay') =>
    match replay'.peek key now with
    | (some _, replay'') => (.error (.refusal "replayed-proof"
        "this DPoP proof has already been used"), replay'')
    | (none, replay'') => (.error (.refusal "replay-capacity"
        "DPoP replay protection is at capacity and cannot safely accept this proof"),
        replay'')
  | (.error _, replay') => (.error .valueError, replay')

def verify (replay : Replay) (call : Call) : Except Failure DPoPProof × Replay :=
  match check cfg env call with
  | .error failure => (.error failure, replay)
  | .ok (proof, key) =>
    match lifetime cfg, Binary64.ofInt call.now with
    | some ttl, some now => spend replay proof key ttl now
    | _, _ => (.error .overflowError, replay)

/-- The calls one after another, each with its outcome. -/
def verifyAll : Replay → List Call → List (Call × Except Failure DPoPProof)
  | _, [] => []
  | replay, call :: calls =>
    (call, (verify cfg env replay call).1) :: verifyAll (verify cfg env replay call).2 calls

/-! ## What the checks give -/

variable {cfg env}

/-- The hash of the presented access token. -/
def accessKey (env : Env) (accessToken : Option String) : String :=
  match accessToken with
  | none => ""
  | some token => (env.accessTokenHash token).getD ""

def replayKey (env : Env) (call : Call) (proof : DPoPProof) : ReplayKey :=
  (proof.jkt, accessKey env call.accessToken, proof.jti)

theorem require_ok {condition : Bool} {reason message : String} {u : Unit}
    (h : require condition reason message = .ok u) : condition = true := by
  rw [require] at h
  split at h
  · assumption
  · cases h

theorem checkAccessToken_ok {claims : Fields} {jkt : String} {accessToken : Option String}
    {hash : String} (h : checkAccessToken env claims jkt accessToken = .ok hash) :
    hash = accessKey env accessToken := by
  cases accessToken with
  | none => exact (ok.inj h).symm
  | some token =>
    rw [checkAccessToken] at h
    cases hhash : env.accessTokenHash token with
    | none => rw [hhash] at h; cases h
    | some expectedAth =>
      rw [hhash] at h
      dsimp only at h
      rw [accessKey, hhash]
      split at h
      · obtain ⟨same, -, h⟩ := bind_ok.mp h
        split at h
        · obtain ⟨-, -, h⟩ := bind_ok.mp h
          exact (ok.inj h).symm
        · cases h
      · cases h

/-- The time the presented proof says it was issued at. -/
def Dated (env : Env) (call : Call) (issuedAt : Int) : Prop :=
  ∃ header claims signingInput signature, env.parseCompact call.proof =
        some (header, claims, signingInput, signature) ∧
      claims.get "iat" = some (.int issuedAt)

theorem parseProof_ok {text : String} {parsed : Fields × Fields × List UInt8 × List UInt8}
    (h : parseProof env text = .ok parsed) : env.parseCompact text = some parsed := by
  rw [parseProof] at h
  split at h
  · rename_i hparsed
    rw [hparsed, ok.inj h]
  · cases h

theorem readIssuedAt_ok {claims : Fields} {issuedAt : Int}
    (h : readIssuedAt claims = .ok issuedAt) : claims.get "iat" = some (.int issuedAt) := by
  rw [readIssuedAt] at h
  split at h
  · rename_i hiat
    rw [hiat, ok.inj h]
  · cases h

variable {call : Call}

/-- An accepted proof is fresh at the date it carries, and its replay key names it. -/
theorem check_ok {proof : DPoPProof} {key : ReplayKey} (h : check cfg env call = .ok (proof, key)) :
    Dated env call proof.issuedAt ∧ Fresh cfg proof.issuedAt call.now ∧
      key = replayKey env call proof := by
  obtain ⟨⟨header, claims, signingInput, signature⟩, hparsed, h⟩ := bind_ok.mp h
  obtain ⟨-, -, h⟩ := bind_ok.mp h
  obtain ⟨algorithm, -, h⟩ := bind_ok.mp h
  obtain ⟨jwk, -, h⟩ := bind_ok.mp h
  obtain ⟨-, -, h⟩ := bind_ok.mp h
  obtain ⟨jkt, -, h⟩ := bind_ok.mp h
  obtain ⟨jti, -, h⟩ := bind_ok.mp h
  obtain ⟨htm, -, h⟩ := bind_ok.mp h
  obtain ⟨htu, -, h⟩ := bind_ok.mp h
  obtain ⟨issuedAt, hiat, h⟩ := bind_ok.mp h
  obtain ⟨sameMethod, -, h⟩ := bind_ok.mp h
  obtain ⟨-, -, h⟩ := bind_ok.mp h
  obtain ⟨target, -, h⟩ := bind_ok.mp h
  obtain ⟨presented, -, h⟩ := bind_ok.mp h
  obtain ⟨sameUri, -, h⟩ := bind_ok.mp h
  obtain ⟨-, -, h⟩ := bind_ok.mp h
  obtain ⟨u, hfresh, h⟩ := bind_ok.mp h
  obtain ⟨-, -, h⟩ := bind_ok.mp h
  obtain ⟨hash, hhash, h⟩ := bind_ok.mp h
  obtain ⟨-, -, h⟩ := bind_ok.mp h
  cases h
  refine ⟨⟨header, claims, signingInput, signature, parseProof_ok hparsed,
    readIssuedAt_ok hiat⟩, of_decide_eq_true (require_ok hfresh), ?_⟩
  rw [replayKey, checkAccessToken_ok hhash]

/-! ## One call against the ledger -/

variable {replay replay' : Replay} {proof proof₁ : DPoPProof} {key k : ReplayKey}
  {ttl now : ℚ} {d : Deadline} {result : Except Failure DPoPProof}

/-- After a call the ledger is as the claim left it, or swept once more. -/
theorem spend_ledger : (spend replay proof key ttl now).2 =
        (replay.claim key true (some ttl) now).2 ∨
      (spend replay proof key ttl now).2 =
        (replay.claim key true (some ttl) now).2.observe now := by
  rw [spend]
  split
  · rename_i hclaim
    rw [hclaim]
    exact .inl rfl
  · rename_i replay' hclaim
    rw [hclaim]
    refine .inr ?_
    cases hpeek : replay'.peek key now with
    | mk value replay'' =>
      have hst : replay'' = replay'.observe now := (congrArg Prod.snd hpeek).symm
      cases value with
      | none | some => exact hst
  · rename_i hclaim
    rw [hclaim]
    exact .inl rfl

theorem spend_proof (h : (spend replay proof key ttl now).1 = .ok proof₁) : proof₁ = proof := by
  rw [spend] at h
  split at h
  · exact (ok.inj h).symm
  · split at h
    · cases h
    · cases h
  · cases h

theorem spend_keeps (h : replay.Spent k d) (hnow : ↑now < d) :
    (spend replay proof key ttl now).2.Spent k d := by
  have hclaim : (replay.claim key true (some ttl) now).2.Spent k d :=
    claim_keeps h hnow key true (some ttl)
  rcases spend_ledger with hledger | hledger
  · rw [hledger]; exact hclaim
  · rw [hledger]; exact observe_spent hclaim hnow

theorem spend_refusing (h : replay.Refusing) : (spend replay proof key ttl now).2.Refusing := by
  have hclaim : (replay.claim key true (some ttl) now).2.Refusing :=
    (claim_alike h key true (some ttl) now).refusing h
  rcases spend_ledger with hledger | hledger
  · rw [hledger]; exact hclaim
  · rw [hledger]; exact observe_refusing hclaim now

/-- The call's moment and the lifetime are within what a double counts exactly. -/
def Exact (cfg : Config) (call : Call) : Prop := |call.now| + cfg.maxAge + cfg.clockSkew ≤ 2 ^ 53

theorem Exact.lifetime (hcfg : cfg.Valid) (h : Exact cfg call) :
    lifetime cfg = some ((cfg.maxAge + cfg.clockSkew : ℤ) : ℚ) := by
  refine Binary64.ofInt_exact ?_
  have hpos := hcfg.maxAge
  have hskew := hcfg.clockSkew
  have habs := abs_nonneg call.now
  rw [abs_of_nonneg (by omega)]
  rw [Exact] at h
  omega

theorem Exact.moment (hcfg : cfg.Valid) (h : Exact cfg call) :
    Binary64.ofInt call.now = some (call.now : ℚ) := by
  have hpos := hcfg.maxAge
  have hskew := hcfg.clockSkew
  refine Binary64.ofInt_exact ?_
  rw [Exact] at h
  omega

/-- The moment a spent identifier leaves the ledger. -/
def expiry (cfg : Config) (call : Call) : Int := call.now + (cfg.maxAge + cfg.clockSkew)

theorem Exact.add (hcfg : cfg.Valid) (h : Exact cfg call) :
    Binary64.add (call.now : ℚ) ((cfg.maxAge + cfg.clockSkew : ℤ) : ℚ) =
      ((expiry cfg call : ℚ) : Deadline) := by
  have hpos := hcfg.maxAge
  have hskew := hcfg.clockSkew
  refine Binary64.add_exact ?_
  rw [Exact] at h
  have hsum := abs_add_le call.now (cfg.maxAge + cfg.clockSkew)
  have hlife : |cfg.maxAge + cfg.clockSkew| = cfg.maxAge + cfg.clockSkew := abs_of_nonneg (by omega)
  omega

/-- A call either leaves the ledger alone or claims at its own moment. -/
theorem verify_cases (env : Env) (hcfg : cfg.Valid) (h : Exact cfg call) :
    (∃ failure, verify cfg env replay call = (.error failure, replay)) ∨
    (∃ proof, Dated env call proof.issuedAt ∧ Fresh cfg proof.issuedAt call.now ∧
      verify cfg env replay call = spend replay proof (replayKey env call proof)
          ((cfg.maxAge + cfg.clockSkew : ℤ) : ℚ) (call.now : ℚ)) := by
  rw [verify, h.lifetime hcfg, h.moment hcfg]
  cases hcheck : check cfg env call with
  | error failure => exact .inl ⟨failure, rfl⟩
  | ok checked =>
    obtain ⟨proof, key⟩ := checked
    obtain ⟨hdated, hfresh, rfl⟩ := check_ok hcheck
    exact .inr ⟨proof, hdated, hfresh, rfl⟩

/-- The key a call was accepted under. -/
def acceptedKey (env : Env) (call : Call) : Except Failure DPoPProof → Option ReplayKey
  | .ok proof => some (replayKey env call proof)
  | .error _ => none

/-- An accepted call claimed its key. -/
theorem verify_accepted (hcfg : cfg.Valid) (hexact : Exact cfg call)
    (h : acceptedKey env call (verify cfg env replay call).1 = some key) :
    replay.claim key true (some ((cfg.maxAge + cfg.clockSkew : ℤ) : ℚ)) (call.now : ℚ) =
      (.ok true, (verify cfg env replay call).2) := by
  rcases verify_cases env hcfg hexact with ⟨failure, hv⟩ | ⟨proof, -, -, hv⟩
  · rw [hv] at h
    cases h
  rw [hv] at h ⊢
  rw [spend] at h ⊢
  split at h
  · rename_i replay' hclaim
    cases h
    rw [hclaim]
  · split at h
    · cases h
    · cases h
  · cases h

/-- **THE VERIFIER IS A LEDGER** of replay keys, each spent for the sum of the two ages from
    the moment of its acceptance. -/
def ledger (env : Env) (hcfg : cfg.Valid) : SpentOnce.Ledger Replay Call ReplayKey Deadline where
  step replay call :=
    (acceptedKey env call (verify cfg env replay call).1, (verify cfg env replay call).2)
  time call := ((call.now : ℚ) : Deadline)
  deadline call := ((expiry cfg call : ℚ) : Deadline)
  Valid call := Exact cfg call
  Inv := Refusing
  Spent := Spent
  inv := by
    intro replay call hexact hinv
    rcases verify_cases env hcfg hexact with ⟨failure, hv⟩ | ⟨proof, -, -, hv⟩
    · rw [hv]; exact hinv
    · rw [hv]; exact spend_refusing hinv
  keep := by
    intro replay call key d hexact hspent hnow
    rcases verify_cases env hcfg hexact with ⟨failure, hv⟩ | ⟨proof, -, -, hv⟩
    · rw [hv]; exact hspent
    · rw [hv]; exact spend_keeps hspent hnow
  refuse := by
    intro replay call key d hexact hspent hnow haccepted
    have hclaim := verify_accepted hcfg hexact haccepted
    rw [claim_spent hspent hnow] at hclaim
    cases hclaim
  record := by
    intro replay call key hexact hinv haccepted
    have hclaim := verify_accepted hcfg hexact haccepted
    rw [← hexact.add hcfg]
    exact claim_ok hinv rfl hclaim

theorem ledger_run (hcfg : cfg.Valid) (calls : List Call) :
    (ledger env hcfg).run replay calls = (verifyAll cfg env replay calls).map
        fun a => (a.1, acceptedKey env a.1 a.2) := by
  induction calls generalizing replay with
  | nil => rfl
  | cons call calls ih =>
    rw [SpentOnce.run_cons, verifyAll, map_cons, ← ih]
    rfl

/-! ## Runs of calls -/

/-- Both calls were accepted, for one proof: the same key, access token, identifier and date. -/
def SameProof (a b : Call × Except Failure DPoPProof) : Prop :=
  ∃ p q, a.2 = .ok p ∧ b.2 = .ok q ∧ p.jkt = q.jkt ∧
    a.1.accessToken = b.1.accessToken ∧ p.jti = q.jti ∧
    p.issuedAt = q.issuedAt

instance (a b : Call × Except Failure DPoPProof) : Decidable (SameProof a b) :=
  match ha : a.2, hb : b.2 with
  | .ok p, .ok q =>
    decidable_of_iff (p.jkt = q.jkt ∧ a.1.accessToken = b.1.accessToken ∧
        p.jti = q.jti ∧ p.issuedAt = q.issuedAt)
      ⟨fun h => ⟨p, q, ha, hb, h⟩, fun ⟨p', q', hp, hq, h⟩ => by
        obtain rfl := ok.inj (ha.symm.trans hp)
        obtain rfl := ok.inj (hb.symm.trans hq)
        exact h⟩
  | .error _, _ => isFalse fun ⟨_, _, hp, _⟩ => nomatch ha.symm.trans hp
  | .ok _, .error _ => isFalse fun ⟨_, _, _, hq, _⟩ => nomatch hb.symm.trans hq

/-- The two were accepted under one key. -/
theorem SameProof.together {a b : Call × Except Failure DPoPProof} (h : SameProof a b) (env : Env) :
    ∃ k, acceptedKey env a.1 a.2 = some k ∧ acceptedKey env b.1 b.2 = some k := by
  obtain ⟨p, q, ha, hb, hjkt, htoken, hjti, -⟩ := h
  refine ⟨replayKey env a.1 p, by rw [ha]; rfl, ?_⟩
  rw [hb, acceptedKey, replayKey, replayKey, hjkt, htoken, hjti]

/-- An accepted call is in the run with the window it was fresh in. -/
theorem verifyAll_fresh (hcfg : cfg.Valid) (calls : List Call)
    (hexact : ∀ call ∈ calls, Exact cfg call) :
    ∀ a ∈ verifyAll cfg env replay calls, a.1 ∈ calls ∧ ∀ p, a.2 = .ok p →
        Dated env a.1 p.issuedAt ∧ Fresh cfg p.issuedAt a.1.now := by
  induction calls generalizing replay with
  | nil =>
    intro a ha
    cases ha
  | cons call calls ih =>
    intro a ha
    rcases mem_cons.mp ha with rfl | hmem
    · refine ⟨mem_cons_self, fun p hp => ?_⟩
      rcases verify_cases env hcfg (hexact call mem_cons_self) with
        ⟨failure, hv⟩ | ⟨proof, hdated, hfresh, hv⟩
      · rw [hv] at hp
        cases hp
      · rw [hv] at hp
        obtain rfl := spend_proof hp
        exact ⟨hdated, hfresh⟩
    · obtain ⟨hin, hp⟩ := ih (fun c hc => hexact c (mem_cons_of_mem _ hc)) a hmem
      exact ⟨mem_cons_of_mem _ hin, hp⟩

/-- **A PROOF IS ACCEPTED ONCE** by a verifier with a ledger of its own, in every run in
    which no proof is dated exactly the skew ahead of the moment it is presented at. -/
theorem accepted_once (hcfg : cfg.Valid) {start : ℚ} (hreplay : localReplay cfg start = some replay)
    (calls : List Call) (hsorted : calls.Pairwise fun a b => a.now ≤ b.now)
    (hexact : ∀ call ∈ calls, |call.now| + cfg.maxAge + cfg.clockSkew ≤ 2 ^ 53)
    (hedge : ∀ call ∈ calls, ¬ Dated env call (call.now + cfg.clockSkew)) :
    (verifyAll cfg env replay calls).Pairwise fun a b => ¬ SameProof a b := by
  have hrefusing : replay.Refusing := by
    obtain ⟨ttl, -, rfl⟩ := Option.map_eq_some_iff.mp hreplay
    exact ⟨rfl, rfl⟩
  have htimes : calls.Pairwise fun a b =>
      ((a.now : ℚ) : Deadline) ≤ ((b.now : ℚ) : Deadline) :=
    hsorted.imp fun h => by exact_mod_cast h
  have hapart := SpentOnce.accepted_apart (L := ledger env hcfg) calls replay
    hrefusing hexact htimes
  rw [ledger_run, pairwise_map] at hapart
  refine hapart.imp_of_mem ?_
  intro a b ha hb hlate hsame
  obtain ⟨k, hka, hkb⟩ := hsame.together env
  obtain ⟨p, q, hp, hq, -, -, -, hiat⟩ := hsame
  -- the second call is inside the window of the first one's date
  obtain ⟨hin, hwin⟩ := verifyAll_fresh hcfg calls hexact a ha
  obtain ⟨hdated, -, hahead⟩ := hwin p hp
  obtain ⟨hbehind, -⟩ := ((verifyAll_fresh hcfg calls hexact b hb).2 q hq).2
  have hne : p.issuedAt ≠ a.1.now + cfg.clockSkew := fun h => hedge a.1 hin (h ▸ hdated)
  refine hlate k hka hkb ?_
  have hlt : b.1.now < expiry cfg a.1 := by
    rw [expiry]
    omega
  show ((b.1.now : ℚ) : Deadline) < ((expiry cfg a.1 : ℚ) : Deadline)
  exact_mod_cast hlt

/-! ## The two ends of the window -/

/-- A verifier that takes every proof for a signed one of `issuedAt`. -/
def datedEnv (issuedAt : Int) : Env where
  parseCompact _ := some ([("typ", .str "dpop+jwt"), ("alg", .str "ES256"), ("jwk", .object [])],
      [("jti", .str "once"), ("htm", .str "GET"),
        ("htu", .str "https://api.example/"), ("iat", .int issuedAt)], [], [])
  thumbprint _ := some "thumbprint"
  verifySignature _ _ _ _ := some true
  targetUri uri _ := .ok uri
  accessTokenHash _ := some "hash"
  repr s := s

/-- The ages a verifier has when none are given. -/
def defaultConfig : Config := ⟨["ES256", "EdDSA"], 300, 30, 10000⟩

def callAt (now : Int) : Call := ⟨"proof", "GET", "https://api.example/", none, none, none, now⟩

def defaultReplay : Replay := .new 10000 (some 330) 0 .refuse true

theorem localReplay_default : localReplay defaultConfig 0 = some defaultReplay := by
  have hlife : lifetime defaultConfig = some 330 := by decide +kernel
  rw [localReplay, hlife]
  rfl

theorem dated_datedEnv {issuedAt n : Int}
    (h : Dated (datedEnv issuedAt) call n) : n = issuedAt := by
  obtain ⟨header, claims, signingInput, signature, hparsed, hiat⟩ := h
  have hclaims := congrArg (fun parsed => parsed.2.1) (Option.some.inj hparsed)
  dsimp only at hclaims
  rw [← hclaims] at hiat
  exact (Json.int.inj (Option.some.inj hiat)).symm

/-- The proof is dated 29 seconds ahead of its first use; at the last moment it is fresh the
    identifier is still there. -/
theorem accepted_once_ahead : (verifyAll defaultConfig (datedEnv 1029) defaultReplay
      [callAt 1000, callAt 1329]).Pairwise fun a b => ¬ SameProof a b := by
  refine accepted_once ⟨by decide, by decide⟩ localReplay_default _ (by decide) (by decide) ?_
  have hedge : ∀ call ∈ [callAt 1000, callAt 1329],
      call.now + defaultConfig.clockSkew ≠ 1029 := by decide
  intro call hcall hdated
  exact hedge call hcall (dated_datedEnv hdated)

/-- **REPLAYED AT THE EDGE**: dated exactly the skew ahead, the proof is accepted again at
    the last moment it is fresh. -/
theorem replayed_at_the_edge : localReplay defaultConfig 0 = some defaultReplay ∧
      [callAt 1000, callAt 1330].Pairwise (fun a b => a.now ≤ b.now) ∧
      ¬ (verifyAll defaultConfig (datedEnv 1030) defaultReplay
        [callAt 1000, callAt 1330]).Pairwise fun a b => ¬ SameProof a b :=
  ⟨localReplay_default, by decide, by decide +kernel⟩

end Dpop
