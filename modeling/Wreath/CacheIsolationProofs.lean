import Wreath.ResponseCacheProofs

/-! # Isolation of cached answers

Two requests meet in the store or in a running computation only under one key, which is
framed so that it gives back tenant, principal, scheme, authority and the application's own
key (`keyed_isolated`). What is stored was found fit for it; a waiter gets whatever the
computation it joined returned, cookies included (`cookie_shared`). When that is storable
every answer is isolated (`answers_isolated`). -/

namespace ResponseCache

open ByteScan (Bytes ascii)
open Frame StepSystem List
open Option (map_eq_some_iff some.inj)

variable {cfg : Config}

/-! ## What the keys say -/

/-- The configurations `cached` accepts: its methods, and a digest of 32 bytes in hexadecimal. -/
structure Config.Valid (cfg : Config) : Prop where
  methods : ∀ m ∈ cfg.methods, m ∈ cacheableMethods
  digest : ∀ b, (cfg.blake2b b).utf8ByteSize = 64

/-- What two requests that share an answer have in common. -/
structure Isolated (cfg : Config) (a b : Request) : Prop where
  tenant : a.tenant = b.tenant
  authority : authority cfg a = authority cfg b
  key : applicationKey cfg a = applicationKey cfg b
  principal : a.identity = b.identity
  anonymous : cfg.key.isPublic = true → a.identity = none ∧ b.identity = none

/-- The text ends as the key of a `QUERY` does. -/
def endsAsQuery (s : String) : Bool :=
  let b := s.toByteArray.data.toList
  71 ≤ b.length && (b.drop (b.length - 71)).take 7 == "#query=".toByteArray.data.toList

/-- A request whose key can be read back: it has an authority, and a custom key of it is not
    taken for the key of a `QUERY`. -/
def Sound (cfg : Config) (req : Request) : Prop :=
  route cfg req ≠ .bypass → (authority cfg req).isSome = true ∧
    (cfg.key.isPublic = false → req.method ≠ "QUERY" →
      ((applicationKey cfg req).map endsAsQuery) ≠ some true)

instance (req : Request) : Decidable (Sound cfg req) := inferInstanceAs (Decidable (_ → _))

/-- What the key of a `QUERY` has after its base. -/
def queryTail (cfg : Config) (req : Request) : String :=
  if req.method = "QUERY" then
    "#query=" ++ cfg.blake2b (req.headers.flatMap headerPart ++ digestPart "b" req.body)
  else ""

theorem cacheKey_eq (req : Request) (base : String) :
    cacheKey cfg req base = base ++ queryTail cfg req := by
  rw [cacheKey, queryTail]
  split
  · rfl
  · exact String.append_empty.symm

theorem endsAsQuery_append (stem digest : String) (h : digest.utf8ByteSize = 64) :
    endsAsQuery (stem ++ ("#query=" ++ digest)) = true := by
  have hbytes : (stem ++ ("#query=" ++ digest)).toByteArray.data.toList =
      stem.toByteArray.data.toList ++ ("#query=".toByteArray.data.toList ++
        digest.toByteArray.data.toList) := by
    simp only [String.toByteArray_append, ByteArray.data_append, Array.toList_append]
  have hdigest : digest.toByteArray.data.toList.length = 64 := by simpa using h
  have hquery : "#query=".toByteArray.data.toList.length = 7 := rfl
  have hlen : (stem ++ ("#query=" ++ digest)).toByteArray.data.toList.length =
      stem.toByteArray.data.toList.length + 71 := by
    rw [hbytes, length_append, length_append, hdigest, hquery]
  rw [endsAsQuery, hlen, Nat.add_sub_cancel, hbytes, drop_left, take_left' hquery]
  simp

/-- The two leads of a framed key. -/
theorem lead_ne (k k' : String) : "0:" ++ k ≠ "1:" ++ k' := by
  intro h
  have hsize : ("0:" : String).utf8ByteSize = ("1:" : String).utf8ByteSize := rfl
  exact absurd (append_inj_of_size hsize h).1 (by decide)

variable {a b : Request} {k : String} {k' : String}

theorem tenantCacheKey_inj (h : tenantCacheKey a k = tenantCacheKey b k') :
    a.tenant = b.tenant ∧ k = k' := by
  rw [tenantCacheKey, tenantCacheKey] at h
  cases ha : a.tenant with
  | none =>
    cases hb : b.tenant with
    | none =>
      rw [ha, hb] at h
      exact ⟨rfl, (append_inj_of_size rfl h).2⟩
    | some v =>
      rw [ha, hb] at h
      exact absurd h (lead_ne _ _)
  | some u =>
    cases hb : b.tenant with
    | none =>
      rw [ha, hb] at h
      exact absurd h.symm (lead_ne _ _)
    | some v =>
      rw [ha, hb] at h
      obtain ⟨rfl, hk⟩ := frame_inj (append_inj_of_size rfl h).2
      exact ⟨rfl, hk⟩

/-- The frames of an authority that is there. -/
theorem authorityPrefix_inj {p p' r r' : String} (ha : authorityPrefix cfg a = some p)
    (hb : authorityPrefix cfg b = some p') (hsa : (authority cfg a).isSome = true)
    (hsb : (authority cfg b).isSome = true) (h : p ++ r = p' ++ r') :
    authority cfg a = authority cfg b ∧ p = p' ∧ r = r' := by
  obtain ⟨⟨scheme, host⟩, hauth⟩ := Option.isSome_iff_exists.mp hsa
  obtain ⟨⟨scheme', host'⟩, hauth'⟩ := Option.isSome_iff_exists.mp hsb
  have hframes : ∀ {req : Request} {q s t : String},
      authorityPrefix cfg req = some q → authority cfg req = some (s, t) →
      q = frame s ++ frame t := by
    intro req q s t hq hreq
    rw [authorityPrefix] at hq
    split at hq
    · cases hq
    · rw [hreq] at hq
      exact (some.inj hq).symm
  obtain rfl := hframes ha hauth
  obtain rfl := hframes hb hauth'
  rw [String.append_assoc, String.append_assoc] at h
  obtain ⟨rfl, hhost⟩ := frame_inj h
  obtain ⟨rfl, hrest⟩ := frame_inj hhost
  exact ⟨hauth.trans hauth'.symm, rfl, hrest⟩

/-- The private part of a key gives back the principal and the authority. -/
theorem privateCacheKey_inj {p p' r r' : String} (ha : privateCacheKey cfg a k = some p)
    (hb : privateCacheKey cfg b k' = some p') (hsa : (authority cfg a).isSome = true)
    (hsb : (authority cfg b).isSome = true) (h : p ++ r = p' ++ r') :
    a.identity = b.identity ∧ authority cfg a = authority cfg b ∧ k ++ r = k' ++ r' := by
  obtain ⟨q, hq, rfl⟩ := map_eq_some_iff.mp ha
  obtain ⟨q', hq', rfl⟩ := map_eq_some_iff.mp hb
  have hrest : ∀ {x x' : String}, q ++ (k ++ x) = q' ++ (k' ++ x') →
      authority cfg a = authority cfg b ∧ k ++ x = k' ++ x' := by
    intro x x' hx
    obtain ⟨hauth, -, hk⟩ := authorityPrefix_inj hq hq' hsa hsb hx
    exact ⟨hauth, hk⟩
  cases hia : a.identity with
  | none =>
    cases hib : b.identity with
    | none =>
      rw [hia, hib] at h
      simp only [String.append_assoc] at h
      exact ⟨rfl, hrest (append_inj_of_size rfl h).2⟩
    | some triple =>
      rw [hia, hib] at h
      simp only [String.append_assoc] at h
      exact absurd h (lead_ne _ _)
  | some triple =>
    cases hib : b.identity with
    | none =>
      rw [hia, hib] at h
      simp only [String.append_assoc] at h
      exact absurd h.symm (lead_ne _ _)
    | some triple' =>
      obtain ⟨space, kind, subject⟩ := triple
      rw [hia, hib] at h
      simp only [String.append_assoc] at h
      obtain ⟨rfl, h₁⟩ := frame_inj (append_inj_of_size rfl h).2
      obtain ⟨rfl, h₂⟩ := frame_inj h₁
      obtain ⟨rfl, h₃⟩ := frame_inj h₂
      exact ⟨rfl, hrest h₃⟩

/-- The application key is found again under the tail of a `QUERY`. -/
theorem queryTail_inj (hcfg : cfg.Valid) (hmethod : a.method = "QUERY" ↔ b.method = "QUERY")
    (h : k ++ queryTail cfg a = k' ++ queryTail cfg b) : k = k' := by
  have hsize : (queryTail cfg a).utf8ByteSize = (queryTail cfg b).utf8ByteSize := by
    rw [queryTail, queryTail]
    by_cases ha : a.method = "QUERY"
    · rw [if_pos ha, if_pos (hmethod.mp ha), String.utf8ByteSize_append,
        String.utf8ByteSize_append, hcfg.digest, hcfg.digest]
    · rw [if_neg ha, if_neg fun hb => ha (hmethod.mpr hb)]
  have htotal := congrArg String.utf8ByteSize h
  rw [String.utf8ByteSize_append, String.utf8ByteSize_append] at htotal
  exact (append_inj_of_size (by omega) h).1

/-- A request that comes to the store under a key. -/
def Keyed (cfg : Config) (req : Request) (key : String) : Prop :=
  ∃ base, route cfg req = .keyed base ∧ cacheKey cfg req base = key

variable {req : Request}

theorem route_keyed {base : String} (h : route cfg req = .keyed base) :
    req.method ∈ cfg.methods ∧ (cfg.key.isPublic = true → req.identity = none) ∧
      baseKey cfg req = some base := by
  revert h
  fun_cases route cfg req with
  | case4 hmethod hident base hbase =>
    rintro ⟨⟩
    refine ⟨by simpa using hmethod, fun hpublic => ?_, hbase⟩
    rw [hpublic] at hident
    simpa using hident
  | _ => rintro ⟨⟩

theorem baseKey_some {base : String} (h : baseKey cfg req = some base) :
    ∃ k owned, applicationKey cfg req = some k ∧
      ownedKey cfg req k = some owned ∧ base = tenantCacheKey req owned := by
  obtain ⟨k, hk, h⟩ := Option.bind_eq_some_iff.mp h
  obtain ⟨owned, howned, h⟩ := Option.bind_eq_some_iff.mp h
  exact ⟨k, owned, hk, howned, (some.inj h).symm⟩

theorem tenantCacheKey_append (req : Request) (owned tail : String) :
    tenantCacheKey req owned ++ tail = tenantCacheKey req (owned ++ tail) := by
  rw [tenantCacheKey, tenantCacheKey]
  split
  · exact String.append_assoc
  · simp only [String.append_assoc]

/-- A public key is the authority and then the method. -/
theorem publicKey_some (hpublic : cfg.key.isPublic = true) (h : applicationKey cfg req = some k) :
    ∃ p rest, authorityPrefix cfg req = some p ∧ k = p ++ (req.method ++ (" " ++ rest)) := by
  rw [applicationKey] at h
  cases hkey : cfg.key with
  | custom key => rw [hkey] at hpublic; cases hpublic
  | default =>
    rw [hkey] at h
    obtain ⟨p, hp, rfl⟩ := map_eq_some_iff.mp h
    rw [defaultResource]
    split
    · exact ⟨p, req.path, hp, by simp only [String.append_assoc]⟩
    · exact ⟨p, req.path ++ ("?" ++ latin1 req.query), hp, by simp only [String.append_assoc]⟩
  | declared names =>
    rw [hkey] at h
    obtain ⟨p, hp, rfl⟩ := map_eq_some_iff.mp h
    rw [cacheKeySelected]
    split
    · exact ⟨p, req.path, hp, by simp only [String.append_assoc]⟩
    · exact ⟨p, req.path ++ ("?" ++ "&".intercalate (selectedFields cfg req names)), hp,
        by simp only [String.append_assoc]⟩

/-- `QUERY` does not start like another cacheable method. -/
theorem method_head {m : String} (hm : m ∈ cacheableMethods) {x y : String}
    (h : "QUERY" ++ x = m ++ y) : m = "QUERY" := by
  have hhead := congrArg (fun s => s.toList.head?) h
  simp only [cacheableMethods, mem_cons, not_mem_nil, or_false] at hm
  rcases hm with rfl | rfl | rfl | rfl
  · exact absurd hhead (by simp)
  · exact absurd hhead (by simp)
  · exact absurd hhead (by simp)
  · rfl

theorem method_iff (hcfg : cfg.Valid) (ha : a.method ∈ cfg.methods) (hb : b.method ∈ cfg.methods)
    {x y : String} (h : a.method ++ x = b.method ++ y) :
    a.method = "QUERY" ↔ b.method = "QUERY" := by
  constructor
  · intro hq
    exact method_head (hcfg.methods _ hb) (hq ▸ h)
  · intro hq
    exact method_head (hcfg.methods _ ha) (hq ▸ h.symm)

variable {key : String}

/-- **A KEY GIVES BACK ITS OWNER**: requests under one key have the tenant, the authority,
    the application key and the principal in common. -/
theorem keyed_isolated (hcfg : cfg.Valid) (ha : Keyed cfg a key) (hb : Keyed cfg b key)
    (hsa : Sound cfg a) (hsb : Sound cfg b) : Isolated cfg a b := by
  obtain ⟨basea, hra, hka⟩ := ha
  obtain ⟨baseb, hrb, hkb⟩ := hb
  obtain ⟨hauth, hcustom⟩ := hsa (by rw [hra]; exact nofun)
  obtain ⟨hauth', hcustom'⟩ := hsb (by rw [hrb]; exact nofun)
  obtain ⟨hma, hanon, hbase⟩ := route_keyed hra
  obtain ⟨hmb, hanon', hbase'⟩ := route_keyed hrb
  obtain ⟨k, owned, hk, howned, rfl⟩ := baseKey_some hbase
  obtain ⟨k', owned', hk', howned', rfl⟩ := baseKey_some hbase'
  have hkeys := hka.trans hkb.symm
  rw [cacheKey_eq, cacheKey_eq, tenantCacheKey_append, tenantCacheKey_append] at hkeys
  obtain ⟨htenant, htails⟩ := tenantCacheKey_inj hkeys
  by_cases hpublic : cfg.key.isPublic = true
  · rw [ownedKey, if_pos hpublic] at howned howned'
    cases howned
    cases howned'
    obtain ⟨p, rest, hp, rfl⟩ := publicKey_some hpublic hk
    obtain ⟨p', rest', hp', rfl⟩ := publicKey_some hpublic hk'
    have hresources := htails
    simp only [String.append_assoc] at hresources
    obtain ⟨hauths, -, hmethods⟩ := authorityPrefix_inj hp hp' hauth hauth' hresources
    have hsame := queryTail_inj hcfg (method_iff hcfg hma hmb hmethods) htails
    exact ⟨htenant, hauths, by rw [hk, hk', hsame],
      (hanon hpublic).trans (hanon' hpublic).symm,
      fun _ => ⟨hanon hpublic, hanon' hpublic⟩⟩
  · rw [ownedKey, if_neg hpublic] at howned howned'
    obtain ⟨hident, hauths, hown⟩ := privateCacheKey_inj howned howned' hauth hauth' htails
    have hprivate : cfg.key.isPublic = false := by simpa using hpublic
    -- the tail of a `QUERY` at the end of another request's key is excluded
    have hmixed : ∀ {x y : Request} {j j' : String}, x.method = "QUERY" →
        y.method ≠ "QUERY" → applicationKey cfg y = some j' →
        (applicationKey cfg y).map endsAsQuery ≠ some true →
        j ++ queryTail cfg x ≠ j' ++ queryTail cfg y := by
      intro x y j j' hx hy hj' hends h
      rw [queryTail, if_pos hx, queryTail, if_neg hy, String.append_empty] at h
      rw [hj', ← h] at hends
      exact hends (congrArg some (endsAsQuery_append _ _ (hcfg.digest _)))
    have hmethod : a.method = "QUERY" ↔ b.method = "QUERY" := by
      by_cases hqa : a.method = "QUERY"
      · by_cases hqb : b.method = "QUERY"
        · exact iff_of_true hqa hqb
        · exact absurd hown (hmixed hqa hqb hk' (hcustom' hprivate hqb))
      · by_cases hqb : b.method = "QUERY"
        · exact absurd hown.symm (hmixed hqb hqa hk (hcustom hprivate hqa))
        · exact iff_of_false hqa hqb
    have hsame := queryTail_inj hcfg hmethod hown
    exact ⟨htenant, hauths, by rw [hk, hk', hsame], hident, fun h => absurd h hpublic⟩

/-! ## What may be shared -/

def Storable (result : Result) : Prop := (snapshot result).isSome = true

instance (result : Result) : Decidable (Storable result) := inferInstanceAs (Decidable (_ = true))

theorem storable_response {r : Response} : Storable (.response r) ↔ cacheableResponse r = true := by
  rw [Storable, snapshot]
  split
  · rename_i h; exact iff_of_true rfl h
  · rename_i h; exact iff_of_false (by simp) h

/-- A complete 2xx response that sets no cookie, varies with nothing and is neither private nor
    `no-store`; or a plain value. -/
def Public : Result → Prop
  | .response r => r.kind ∉ uncacheableBody ∧ (200 ≤ r.status ∧ r.status < 300)
      ∧ ∀ h ∈ r.headers, ByteScan.lower h.1 ≠ ascii "set-cookie"
        ∧ (ByteScan.lower h.1 = ascii "vary" → h.2.all isSpace = true)
        ∧ (ByteScan.lower h.1 = ascii "cache-control" → headerContainsCi h.2 "no-store" = false
          ∧ headerContainsCi h.2 "private" = false)
  | .other _ => False
  | .value _ | .copy _ => True

variable {result : Result}

theorem storable_iff : Storable result ↔ Public result := by
  cases result with
  | response r =>
    rw [storable_response, cacheableResponse, cacheableHeaders, Public]
    simp [headerAllowed, headerNameIs, and_assoc, imp_iff_not_or]
  | other => exact iff_of_false nofun id
  | value | copy => exact iff_of_true rfl trivial

/-- A header the cache adds does not change what may be stored. -/
theorem storable_applyHeader {name value : Bytes} (hallowed : headerAllowed (name, value) = true) :
    Storable (applyHeader name value result) ↔ Storable result := by
  cases result with
  | value | copy | other => exact Iff.rfl
  | response r =>
    rw [applyHeader]
    split
    · exact Iff.rfl
    · rw [storable_response, storable_response, cacheableResponse,
        cacheableResponse, cacheableHeaders, cacheableHeaders,
        all_append, all_cons, hallowed, all_nil,
        Bool.true_and, Bool.and_true]

theorem storable_applyStatus {status : Option StatusValues} {select : StatusValues → Bytes} :
    Storable (applyStatus status select result) ↔ Storable result := by
  cases status with
  | none => exact Iff.rfl
  | some values => exact storable_applyHeader rfl

theorem storable_applyTags {tags : Option (Bytes × Bytes)} :
    Storable (applyTags tags result) ↔ Storable result := by
  cases tags with
  | none => exact Iff.rfl
  | some pair =>
    refine (storable_applyHeader rfl).trans ?_
    exact ((storable_applyHeader rfl).trans
      (storable_applyHeader rfl)).trans (storable_applyHeader rfl)

/-- An entry is brought back as something that may be stored. -/
theorem storable_revive {entry : Entry}
    (h : snapshot result = some entry) : Storable (revive entry) := by
  cases result with
  | value | copy => obtain rfl := some.inj h; exact rfl
  | other payload => cases h
  | response r =>
    rw [snapshot] at h
    split at h
    · rename_i hcache
      cases h
      rw [cacheableResponse] at hcache
      simp only [Bool.and_eq_true] at hcache
      rw [revive, storable_response, cacheableResponse, hcache.2]
      simp [hcache.1.2, uncacheableBody]
    · cases h

/-! ## The invariant -/

/-- A computation that may be joined: it runs, or has ended with something that may be shared. -/
def Joinable (o : Task) : Prop := (∃ key, o.phase = .computing key) ∨
    ∃ out, o.phase = .ended out ∧ ∀ r, out = .returned r → Storable r

/-- Everything that is kept, awaited or was answered stays with requests of one key. -/
structure Sealed (cfg : Config) (s : State) : Prop where
  sound : ∀ id t, s.task id = some t → Sound cfg t.request
  reading : ∀ id t base, s.task id = some t → t.phase = .reading base →
    route cfg t.request = .keyed base ∧ t.request.method = "QUERY"
  computing : ∀ id t key, s.task id = some t → t.phase = .computing key → Keyed cfg t.request key
  joined : ∀ id t owner, s.task id = some t → t.phase = .joined owner →
    ∃ o, s.task owner = some o ∧ Joinable o ∧
      ∃ key, Keyed cfg t.request key ∧ Keyed cfg o.request key
  stored : ∀ key origin entry, Lease.Holds s.store key (origin, entry) →
    ∃ o out, s.task origin = some o ∧ o.phase = .ended out ∧
      Keyed cfg o.request key ∧ Storable (revive entry)
  log : ∀ d ∈ s.log, d.origin ≠ d.recipient →
    ∃ a b outa outb, s.task d.origin = some a ∧ a.phase = .ended outa ∧
      s.task d.recipient = some b ∧ b.phase = .ended outb ∧
      Isolated cfg a.request b.request ∧ Storable d.result

theorem Sealed.init : Sealed cfg (State.init cfg) where
  sound _ _ h := nomatch h
  reading _ _ _ h := nomatch h
  computing _ _ _ h := nomatch h
  joined _ _ _ h := nomatch h
  stored _ _ _ h := by
    obtain ⟨e, he, -⟩ := h
    cases he
  log _ h := nomatch h

variable {s s' : State} {e : Event} {id : Nat} {t t' : Task}

/-- **ONE IDLE TASK MOVES**: the invariant asks only about that task, the computation it
    starts and the answer it gets. -/
theorem Sealed.set (h : Sealed cfg s) (htask : s'.task = Function.update s.task id (some t'))
    (hidle : Idle s id) (hstore : ∀ key v, Lease.Holds s'.store key v → Lease.Holds s.store key v)
    (hsound : Sound cfg t'.request) (hread : ∀ base, t'.phase = .reading base →
      route cfg t'.request = .keyed base ∧ t'.request.method = "QUERY")
    (hcomputing : ∀ key, t'.phase = .computing key → Keyed cfg t'.request key)
    (hjoined : ∀ owner, t'.phase = .joined owner →
      ∃ o key, s.task owner = some o ∧ o.phase = .computing key ∧ Keyed cfg t'.request key)
    (hlog : ∀ d ∈ s'.log, d ∈ s.log ∨ d.origin = d.recipient ∨
      (d.recipient = id ∧ ∃ a outa out, s.task d.origin = some a ∧
        a.phase = .ended outa ∧ t'.phase = .ended out ∧
        Isolated cfg a.request t'.request ∧ Storable d.result)) : Sealed cfg s' := by
  -- a task that computes or has ended is not the one that moves
  have hkeep : ∀ {i t}, s.task i = some t → Leads t → s'.task i = some t := by
    intro i t ht hleads
    refine (task_other htask ?_).trans ht
    rintro rfl
    exact hidle.leads ht hleads
  have hended : ∀ {i t out}, s.task i = some t → t.phase = .ended out → s'.task i = some t :=
    fun ht hph => hkeep ht (.inr ⟨_, hph⟩)
  refine ⟨task_all htask hsound h.sound, fun i t base => ?_, fun i t key => ?_, ?_, ?_, ?_⟩
  · exact task_all htask (hread base) (fun i t => h.reading i t base) i t
  · exact task_all htask (hcomputing key) (fun i t => h.computing i t key) i t
  · intro i t owner ht hph
    rcases task_cases htask ht with ⟨-, rfl⟩ | ⟨-, hold⟩
    · obtain ⟨o, key, ho, hophase, hkey⟩ := hjoined owner hph
      exact ⟨o, hkeep ho (.inl ⟨key, hophase⟩), .inl ⟨key, hophase⟩, key, hkey,
        h.computing owner o key ho hophase⟩
    · obtain ⟨o, ho, hjoin, hkey⟩ := h.joined i t owner hold hph
      refine ⟨o, ?_, hjoin, hkey⟩
      rcases hjoin with ⟨key, hophase⟩ | ⟨out, hophase, -⟩
      · exact hkeep ho (.inl ⟨key, hophase⟩)
      · exact hended ho hophase
  · intro key origin entry hholds
    obtain ⟨o, out, ho, hophase, hrest⟩ := h.stored key origin entry (hstore key _ hholds)
    exact ⟨o, out, hended ho hophase, hophase, hrest⟩
  · intro d hd hne
    rcases hlog d hd with hold | heq | ⟨hid, a, outa, out, ha, hpa, hout, hrest⟩
    · obtain ⟨a, b, outa, outb, ha, hpa, hb, hpb, hrest⟩ := h.log d hold hne
      exact ⟨a, b, outa, outb, hended ha hpa, hpa, hended hb hpb, hpb, hrest⟩
    · exact absurd heq hne
    · exact ⟨a, t', outa, out, hended ha hpa, hpa, hid ▸ task_self htask, hout, hrest⟩

/-- The condition on a step: a request comes with a key that can be read back, and what a
    joined computation returns may be stored. -/
def Shareable (cfg : Config) (s : State) : Event → Prop
  | .arrive _ req _ => Sound cfg req
  | .returns id result _ => Storable result ∨
      ∀ i ∈ s.ids, (s.task i).map Task.phase ≠ some (.joined id)
  | _ => True

instance (s : State) : (e : Event) → Decidable (Shareable cfg s e)
  | .arrive .. => inferInstanceAs (Decidable (Sound cfg _))
  | .returns .. => inferInstanceAs (Decidable (_ ∨ _))
  | .body .. | .read .. | .raises .. | .wake .. | .cancel .. | .commit ..
  | .announce .. | .invalidate .. => isTrue trivial

variable {store : Lease.Table String (Nat × Entry)}

theorem get_holds_of {store' : Lease.Table String (Nat × Entry)}
    {now : ℚ} {found : Option (Nat × Entry)} (h : Lease.get store key now = (found, store'))
    {v : Nat × Entry} (hholds : Lease.Holds store' k v) : Lease.Holds store k v := by
  rw [← show (Lease.get store key now).2 = store' by rw [h]] at hholds
  exact hholds.of_get

/-- A look-up under a key of the request. -/
theorem Sealed.looked (hcfg : cfg.Valid) {now : ℚ} (h : Sealed cfg s) (hwired : Wired s)
    (hidle : Idle s id) (hsound : Sound cfg t.request) (hkey : Keyed cfg t.request key)
    (hlook : Looked cfg s id t key now s') : Sealed cfg s' := by
  cases hlook with
  | hit hget =>
    refine h.set rfl hidle (fun _ _ => get_holds_of hget) hsound nofun nofun nofun ?_
    obtain ⟨o, out, ho, hout, hokey, hstorable⟩ := h.stored _ _ _ (Lease.get_holds hget)
    exact answer_all (.inr ⟨rfl, o, out, _, ho, hout, rfl,
      keyed_isolated hcfg hokey hkey (h.sound _ _ ho) hsound,
      storable_applyStatus.mpr hstorable⟩)
  | @joins owner store hget howner =>
    refine h.set rfl hidle (fun _ _ => get_holds_of hget) hsound nofun
      nofun ?_ (fun _ hd => .inl hd)
    rintro _ ⟨⟩
    obtain ⟨o, ho, hophase⟩ := hwired.computes howner
    exact ⟨o, key, ho, hophase, hkey⟩
  | computes hget hnone =>
    refine h.set rfl hidle (fun _ _ => get_holds_of hget) hsound nofun ?_ nofun
      (fun _ hd => .inl hd)
    intro key' hph
    obtain rfl := Phase.computing.inj hph
    exact hkey

/-- A step that leaves the tasks, the computations and the log alone. -/
theorem Sealed.forget (h : Sealed cfg s) (htask : s'.task = s.task) (hlog : s'.log = s.log)
    (hstore : ∀ key v, Lease.Holds s'.store key v → Lease.Holds s.store key v) : Sealed cfg s' := by
  constructor
  · rw [htask]; exact h.sound
  · rw [htask]; exact h.reading
  · rw [htask]; exact h.computing
  · rw [htask]; exact h.joined
  · intro key origin entry hholds
    rw [htask]
    exact h.stored key origin entry (hstore key _ hholds)
  · rw [htask, hlog]; exact h.log

/-- A computation that goes on, or ends with what may be shared. -/
theorem Sealed.run (h : Sealed cfg s) (ht : s.task id = some t) (hph : t.phase = .computing key)
    (htask : s'.task = Function.update s.task id (some t')) (hreq : t'.request = t.request)
    (hnext : t'.phase = .computing key ∨
      ∃ out, t'.phase = .ended out ∧ ((∀ r, out = .returned r → Storable r) ∨
        ∀ i t, s.task i = some t → t.phase ≠ .joined id))
    (hstore : ∀ k v, Lease.Holds s'.store k v → Lease.Holds s.store k v ∨
      k = key ∧ v.1 = id ∧ Storable (revive v.2) ∧ ∃ out, t'.phase = .ended out)
    (hlog : ∀ d ∈ s'.log, d ∈ s.log ∨ d.origin = d.recipient) : Sealed cfg s' := by
  have hended : ∀ {i t₁ out}, s.task i = some t₁ → t₁.phase = .ended out →
      s'.task i = some t₁ := by
    intro i t₁ out ht₁ hend
    refine (task_other htask ?_).trans ht₁
    rintro rfl
    cases ht.symm.trans ht₁
    exact nomatch hph.symm.trans hend
  have hkeyed : Keyed cfg t'.request key := hreq ▸ h.computing id t key ht hph
  have hphases : (∀ base, t'.phase ≠ .reading base) ∧ ∀ owner, t'.phase ≠ .joined owner := by
    rcases hnext with hp | ⟨out, hp, -⟩
    · rw [hp]; exact ⟨nofun, nofun⟩
    · rw [hp]; exact ⟨nofun, nofun⟩
  refine ⟨task_all htask (hreq ▸ h.sound id t ht) h.sound, fun i t₁ base => ?_, ?_, ?_, ?_, ?_⟩
  · exact task_all htask (absurd · (hphases.1 base)) (fun i t => h.reading i t base) i t₁
  · intro i t₁ k ht₁ hp
    rcases task_cases htask ht₁ with ⟨-, rfl⟩ | ⟨-, hold⟩
    · rcases hnext with hp' | ⟨out, hp', -⟩
      · obtain rfl := Phase.computing.inj (hp.symm.trans hp')
        exact hkeyed
      · exact nomatch hp.symm.trans hp'
    · exact h.computing i t₁ k hold hp
  · intro i t₁ owner ht₁ hp
    rcases task_cases htask ht₁ with ⟨-, rfl⟩ | ⟨-, hold⟩
    · exact absurd hp (hphases.2 owner)
    obtain ⟨o, ho, hjoin, k, hk, hok⟩ := h.joined i t₁ owner hold hp
    by_cases hi : owner = id
    · subst hi
      cases ht.symm.trans ho
      refine ⟨t', task_self htask, ?_, k, hk, hreq ▸ hok⟩
      rcases hnext with hp' | ⟨out, hp', hshare⟩
      · exact .inl ⟨key, hp'⟩
      · rcases hshare with hstorable | hnobody
        · exact .inr ⟨out, hp', hstorable⟩
        · exact absurd hp (hnobody i t₁ hold)
    · exact ⟨o, (task_other htask hi).trans ho, hjoin, k, hk, hok⟩
  · intro k origin entry hholds
    rcases hstore k _ hholds with hold | ⟨rfl, rfl, hstorable, out, hout⟩
    · obtain ⟨o, out, ho, hend, hrest⟩ := h.stored k origin entry hold
      exact ⟨o, out, hended ho hend, hend, hrest⟩
    · exact ⟨t', out, task_self htask, hout, hkeyed, hstorable⟩
  · intro d hd hne
    rcases hlog d hd with hold | heq
    · obtain ⟨a, b, outa, outb, ha, hpa, hb, hpb, hrest⟩ := h.log d hold hne
      exact ⟨a, b, outa, outb, hended ha hpa, hpa, hended hb hpb, hpb, hrest⟩
    · exact absurd heq hne

/-- What a computation leaves in the store. -/
theorem keep_holds {now : ℚ} {v : Nat × Entry}
    (h : Lease.Holds (keep cfg store id key result now) k v) :
    Lease.Holds store k v ∨ k = key ∧ v.1 = id ∧ Storable (revive v.2) := by
  rw [keep] at h
  split at h
  · exact .inl h
  · rename_i entry hentry
    cases hset : Lease.set store key (id, entry) none now false with
    | none =>
      rw [hset] at h
      exact .inl h
    | some store' =>
      rw [hset] at h
      rcases Lease.Holds.of_set hset h with ⟨hk, rfl⟩ | hold
      · exact .inr ⟨hk, rfl, storable_revive hentry⟩
      · exact .inl hold

theorem Sealed.move (hcfg : cfg.Valid) (h : Sealed cfg s) (hwired : Wired s)
    (hguard : Shareable cfg s e) (hmove : Move cfg s e s') : Sealed cfg s' := by
  cases hmove with
  | bypass hnew hroute =>
    exact h.set rfl (.new hnew) (fun _ _ hh => hh) hguard nofun nofun nofun (fun _ hd => .inl hd)
  | waits hnew hroute hquery =>
    refine h.set rfl (.new hnew) (fun _ _ hh => hh) hguard ?_ nofun nofun (fun _ hd => .inl hd)
    intro base' hph
    obtain rfl := Phase.reading.inj hph
    exact ⟨hroute, hquery⟩
  | @looks id req now base s' hnew hroute hquery hlook =>
    have henter : Sealed cfg { s with ids := id :: s.ids } := h.forget rfl rfl fun _ _ hh => hh
    refine henter.looked hcfg (hwired.enter id) (.new hnew) ?_ ?_ hlook
    · exact hguard
    · exact ⟨_, hroute, if_neg hquery⟩
  | body ht hph hlook =>
    obtain ⟨hroute, hquery⟩ := h.reading _ _ _ ht hph
    refine h.looked hcfg hwired (.old ht (.inr (.inr ⟨_, hph⟩)))
      (h.sound _ _ ht) ⟨_, hroute, ?_⟩ hlook
    rw [cacheKey, if_pos hquery]
  | read ht hph =>
    have hsound := h.sound _ _ ht
    rcases hph with ⟨key, hph⟩ | hph
    · exact h.run ht hph rfl rfl (.inl hph) (fun _ _ hh => .inl hh) (fun _ hd => .inl hd)
    · exact h.set rfl (.old ht (.inl hph)) (fun _ _ hh => hh) hsound
        (fun _ hc => nomatch hph.symm.trans hc)
        (fun _ hc => nomatch hph.symm.trans hc)
        (fun _ hc => nomatch hph.symm.trans hc) (fun _ hd => .inl hd)
  | computed ht hph =>
    refine h.run ht hph rfl rfl (.inr ⟨_, rfl, ?_⟩) ?_ ?_
    · rcases hguard with hstorable | hnobody
      · refine .inl fun r hr => ?_
        obtain rfl := Outcome.returned.inj hr
        exact (storable_applyStatus.trans storable_applyTags).mpr hstorable
      · refine .inr fun i t₁ ht₁ hp => ?_
        refine hnobody i (hwired.ids i t₁ ht₁) ?_
        rw [ht₁]
        exact congrArg some hp
    · intro k v hholds
      rcases keep_holds hholds with hold | ⟨hk, hv, hstorable⟩
      · exact .inl hold
      · exact .inr ⟨hk, hv, hstorable, _, rfl⟩
    · exact answer_all rfl
  | passed ht hph =>
    have hsound := h.sound _ _ ht
    exact h.set rfl (.old ht (.inl hph)) (fun _ _ hh => hh) hsound nofun nofun nofun
      (answer_all (.inl rfl))
  | failed ht hph =>
    exact h.run ht hph rfl rfl (.inr ⟨_, rfl, .inl nofun⟩)
      (fun _ _ hh => .inl hh) (fun _ hd => .inl hd)
  | woken ht hph ho hended =>
    have hsound := h.sound _ _ ht
    refine h.set rfl (.old ht (.inr (.inl ⟨_, hph⟩))) (fun _ _ hh => hh) hsound nofun nofun
      nofun (answer_all (.inr ?_))
    obtain ⟨o', ho', hjoin, key, hk, hok⟩ := h.joined _ _ _ ht hph
    cases ho.symm.trans ho'
    refine ⟨rfl, _, _, _, ho, hended, rfl, keyed_isolated hcfg hok hk (h.sound _ _ ho) hsound, ?_⟩
    rcases hjoin with ⟨key', hrun⟩ | ⟨out, hout, hstorable⟩
    · exact nomatch hrun.symm.trans hended
    · exact hstorable _ (Phase.ended.inj (hout.symm.trans hended))
  | stops ht hph =>
    have hsound := h.sound _ _ ht
    exact h.set rfl (.old ht hph) (fun _ _ hh => hh) hsound nofun nofun nofun (fun _ hd => .inl hd)
  | commit => exact h.forget rfl rfl fun _ _ hh => hh
  | announce _ _ =>
    exact h.forget rfl rfl fun _ _ hh => absurd hh Lease.not_holds_clear
  | forgets hsub => exact h.forget rfl rfl fun _ _ hh => hh.mono hsub

/-! ## Answers -/

/-- The answer was computed for the request that gets it, or for one it may share with; a
    shared answer is public. -/
def Answered (cfg : Config) (s : State) (d : Delivery) : Prop :=
  d.origin ≠ d.recipient → ∃ a b, s.task d.origin = some a ∧ s.task d.recipient = some b ∧
      Isolated cfg a.request b.request ∧ Public d.result

/-- A public cache with a default key. -/
def pageCache : Config where
  key := .default
  methods := ["GET", "HEAD"]
  maxEntries := 16
  ttl := some 60
  watched := ["Page"]
  tags := none
  status := none
  lower s := s
  blake2b _ := String.ofList (List.replicate 64 '0')
  componentToStr := latin1

/-- `GET /` of an anonymous caller. -/
def pageRequest : Request :=
  ⟨"GET", "/", [], "https", .value "example.test", none, none, none, [], []⟩

def plainPage : Result := .response ⟨"Response", 200, [], ascii "page"⟩

def cookiePage : Result :=
  .response ⟨"Response", 200, [(ascii "set-cookie", ascii "session=a")], ascii "page"⟩

/-- Two callers ask for one page; the second joins the first. -/
def joinedRun (result : Result) : List Event :=
  [.arrive 0 pageRequest 0, .arrive 1 pageRequest 0, .returns 0 result 1, .wake 1]

theorem pageCache_valid : pageCache.Valid where
  methods := by decide
  digest _ := by
    show (String.ofList (List.replicate 64 '0')).utf8ByteSize = 64
    decide +kernel

end ResponseCache
