import Wreath.CacheIsolationProofs

/-! # Invalidation by writes

A watched write clears the store when it is announced, after its commit. A computation in
flight across both stores what it read before (`stale_stored`). When none is at the
announcement, no request that begins later is answered from such a reading
(`answers_current`). -/

namespace ResponseCache

open StepSystem Option

variable {cfg : Config} {s s' : State} {e : Event} {id i f n : Nat} {t t' : Task}

/-- The handler of a request has read nothing before the `f`-th write. -/
def Since (s : State) (i f : Nat) : Prop := ∀ t v, s.task i = some t → t.readAt = some v → f ≤ v

/-- A task that is set: a request that comes begins at the floor, any other keeps where it
    began; what it reads now it reads after every commit. -/
def Steps (s : State) (id : Nat) (t' : Task) : Prop :=
  (s.task id = none ∧ t'.floor = s.floor ∧ t'.readAt = none) ∨
    ∃ t, s.task id = some t ∧ t'.floor = t.floor ∧
      ∀ v, t'.readAt = some v → t.readAt = some v ∨ v = s.commits.length

theorem Steps.old (ht : s.task id = some t) (hfloor : t'.floor = t.floor)
    (hread : t'.readAt = t.readAt) : Steps s id t' :=
  .inr ⟨t, ht, hfloor, fun _ hv => .inl (hread ▸ hv)⟩

theorem Steps.read (ht : s.task id = some t) :
    Steps s id { t with readAt := some (t.readAt.getD s.commits.length) } := by
  refine .inr ⟨t, ht, rfl, fun v hv => ?_⟩
  cases hread : t.readAt with
  | none =>
    rw [hread] at hv
    exact .inr (some.inj hv).symm
  | some u =>
    rw [hread] at hv
    exact .inl hv

theorem Since.set (htask : s'.task = Function.update s.task id (some t'))
    (hsteps : Steps s id t') (hf : f ≤ s.commits.length) (h : Since s i f) : Since s' i f := by
  intro t₁ v ht₁ hv
  rcases task_cases htask ht₁ with ⟨rfl, rfl⟩ | ⟨-, hold⟩
  · rcases hsteps with ⟨-, -, hnone⟩ | ⟨t, ht, -, hread⟩
    · exact nomatch hnone.symm.trans hv
    · rcases hread v hv with hbef | rfl
      · exact h t v ht hbef
      · exact hf
  · exact h t₁ v hold hv

/-- What is stored, computed, awaited or was answered has been read since the last write
    that it has to show. -/
structure Fresh (s : State) : Prop where
  floor : s.floor ≤ s.commits.length
  began : ∀ id t, s.task id = some t → t.floor ≤ s.floor
  own : ∀ id t, s.task id = some t → Since s id t.floor
  reading : ∀ id t base, s.task id = some t → t.phase = .reading base → t.readAt = none
  computing : ∀ id t key, s.task id = some t → t.phase = .computing key → Since s id s.floor
  joined : ∀ id t owner, s.task id = some t → t.phase = .joined owner → Since s owner t.floor
  stored : ∀ key origin entry, Lease.Holds s.store key (origin, entry) → Since s origin s.floor
  log : ∀ d ∈ s.log, ∃ t, s.task d.recipient = some t ∧ Since s d.origin t.floor

theorem Fresh.init : Fresh (State.init cfg) where
  floor := Nat.le_refl 0
  began _ _ h := nomatch h
  own _ _ h := nomatch h
  reading _ _ _ h := nomatch h
  computing _ _ _ h := nomatch h
  joined _ _ _ h := nomatch h
  stored _ _ _ h := by
    obtain ⟨e, he, -⟩ := h
    cases he
  log _ h := nomatch h

/-- **ONE TASK MOVES**, no write commits and none is announced. -/
theorem Fresh.set (h : Fresh s) (htask : s'.task = Function.update s.task id (some t'))
    (hsteps : Steps s id t') (hcommits : s'.commits = s.commits) (hfloor : s'.floor = s.floor)
    (hread : ∀ base, t'.phase = .reading base → t'.readAt = none)
    (hcomputing : ∀ key, t'.phase = .computing key → t'.readAt = none ∨ Since s id s.floor)
    (hjoined : ∀ owner, t'.phase = .joined owner → Since s owner t'.floor)
    (hstore : ∀ key v, Lease.Holds s'.store key v → Since s v.1 s.floor)
    (hlog : ∀ d ∈ s'.log, d ∈ s.log ∨ d.recipient = id ∧ Since s d.origin t'.floor) : Fresh s' := by
  have hself := task_self htask
  have hkeep : ∀ {j g}, g ≤ s.commits.length → Since s j g → Since s' j g :=
    fun hg hsince => hsince.set htask hsteps hg
  have hlow : ∀ {j t₁}, s.task j = some t₁ → t₁.floor ≤ s.commits.length :=
    fun ht₁ => (h.began _ _ ht₁).trans h.floor
  have hbegan : t'.floor ≤ s.floor := by
    rcases hsteps with ⟨-, hnew, -⟩ | ⟨t, ht, hold, -⟩
    · exact hnew.le
    · exact hold.le.trans (h.began _ _ ht)
  have hlow' : t'.floor ≤ s.commits.length := hbegan.trans h.floor
  refine ⟨?_, ?_, ?_, fun j t₁ base => ?_, ?_, ?_, ?_, ?_⟩
  · rw [hfloor, hcommits]
    exact h.floor
  · rw [hfloor]
    exact task_all htask hbegan h.began
  · intro j t₁ ht₁
    rcases task_cases htask ht₁ with ⟨rfl, rfl⟩ | ⟨-, hold⟩
    · rcases hsteps with ⟨-, -, hnone⟩ | ⟨t, ht, hsame, -⟩
      · intro t₂ v ht₂ hv
        cases hself.symm.trans ht₂
        exact nomatch hnone.symm.trans hv
      · exact hkeep hlow' (hsame ▸ h.own _ _ ht)
    · exact hkeep (hlow hold) (h.own j t₁ hold)
  · exact task_all htask (hread base) (fun j t => h.reading j t base) j t₁
  · intro j t₁ key ht₁ hph
    rw [hfloor]
    rcases task_cases htask ht₁ with ⟨rfl, rfl⟩ | ⟨-, hold⟩
    · rcases hcomputing key hph with hnone | hsince
      · intro t₂ v ht₂ hv
        cases hself.symm.trans ht₂
        exact nomatch hnone.symm.trans hv
      · exact hkeep h.floor hsince
    · exact hkeep h.floor (h.computing j t₁ key hold hph)
  · intro j t₁ owner ht₁ hph
    rcases task_cases htask ht₁ with ⟨-, rfl⟩ | ⟨-, hold⟩
    · exact hkeep hlow' (hjoined owner hph)
    · exact hkeep (hlow hold) (h.joined j t₁ owner hold hph)
  · intro key origin entry hholds
    rw [hfloor]
    exact hkeep h.floor (hstore key _ hholds)
  · intro d hd
    rcases hlog d hd with hold | ⟨hrecipient, hsince⟩
    · obtain ⟨t₁, ht₁, hsince⟩ := h.log d hold
      have hsince' := hkeep (hlow ht₁) hsince
      by_cases hi : d.recipient = id
      · refine ⟨t', hi ▸ hself, ?_⟩
        rw [hi] at ht₁
        rcases hsteps with ⟨hnone, -, -⟩ | ⟨t, ht, hsame, -⟩
        · exact nomatch hnone.symm.trans ht₁
        · cases ht.symm.trans ht₁
          exact hsame ▸ hsince'
      · exact ⟨t₁, (task_other htask hi).trans ht₁, hsince'⟩
    · exact ⟨t', hrecipient ▸ hself, hkeep hlow' hsince⟩

variable {key : String}

theorem Fresh.stored_of (h : Fresh s) {v : Nat × Entry}
    (hholds : Lease.Holds s.store key v) : Since s v.1 s.floor :=
  h.stored key v.1 v.2 hholds

/-- A look-up for a request that has read nothing. -/
theorem Fresh.looked {now : ℚ} (h : Fresh s) (hwired : Wired s)
    (hsteps : ∀ phase, Steps s id { t with phase := phase }) (hbegan : t.floor ≤ s.floor)
    (hnone : t.readAt = none) (hlook : Looked cfg s id t key now s') : Fresh s' := by
  -- what has been read since the last write shows all this request has to see
  have hlower : ∀ {j}, Since s j s.floor → Since s j t.floor :=
    fun hsince t₁ v ht₁ hv => hbegan.trans (hsince t₁ v ht₁ hv)
  cases hlook with
  | hit hget =>
    exact h.set rfl (hsteps _) rfl rfl nofun nofun nofun
      (fun _ _ hh => h.stored_of (get_holds_of hget hh))
      (answer_all ⟨rfl, hlower (h.stored_of (Lease.get_holds hget))⟩)
  | @joins owner store hget howner =>
    refine h.set rfl (hsteps _) rfl rfl nofun nofun ?_
      (fun _ _ hh => h.stored_of (get_holds_of hget hh))
      (fun _ hd => .inl hd)
    rintro _ ⟨⟩
    obtain ⟨o, ho, hophase⟩ := hwired.computes howner
    exact hlower (h.computing owner o key ho hophase)
  | computes hget hnew =>
    exact h.set rfl (hsteps _) rfl rfl nofun (fun _ _ => .inl hnone) nofun
      (fun _ _ hh => h.stored_of (get_holds_of hget hh))
      (fun _ hd => .inl hd)

/-! ## Announcements -/

def Phase.isComputing : Phase → Bool
  | .computing _ => true
  | _ => false

/-- The condition on a step: when a watched write is announced, no computation that has read
    before its commit is still running. -/
def Settled (cfg : Config) (s : State) : Event → Prop
  | .announce n =>
    (∃ written ∈ s.commits[n]?, written.any cfg.watched.contains = true) →
      ∀ i ∈ s.ids, ∀ t ∈ s.task i, t.phase.isComputing = true → ∀ v ∈ t.readAt, n < v
  | _ => True

instance (s : State) : (e : Event) → Decidable (Settled cfg s e)
  | .announce _ => inferInstanceAs (Decidable (_ → _))
  | .arrive .. | .body .. | .read .. | .returns .. | .raises .. | .wake ..
  | .cancel .. | .commit .. | .invalidate .. => isTrue trivial

theorem Fresh.announce {written : List String} (h : Fresh s) (hwired : Wired s)
    (hguard : Settled cfg s (.announce n)) (hcommit : s.commits[n]? = some written)
    (hwatch : written.any cfg.watched.contains = true) :
    Fresh { s with store := Lease.clear s.store, floor := max s.floor (n + 1) } := by
  have hset := hguard ⟨written, hcommit, hwatch⟩
  obtain ⟨hn, -⟩ := List.getElem?_eq_some_iff.mp hcommit
  refine ⟨max_le h.floor hn, ?_, h.own, h.reading, ?_, h.joined, ?_, h.log⟩
  · intro j t ht
    exact (h.began j t ht).trans (le_max_left ..)
  · intro j t key ht hph t₁ v ht₁ hv
    cases ht.symm.trans ht₁
    refine max_le (h.computing j t key ht hph t v ht hv) ?_
    exact hset j (hwired.ids j t ht) t ht (by rw [hph]; rfl) v hv
  · intro key origin entry hholds
    exact absurd hholds Lease.not_holds_clear

theorem Fresh.move (h : Fresh s) (hwired : Wired s) (hguard : Settled cfg s e)
    (hmove : Move cfg s e s') : Fresh s' := by
  cases hmove with
  | bypass hnew _ =>
    exact h.set rfl (.inl ⟨hnew, rfl, rfl⟩) rfl rfl nofun nofun nofun
      (fun _ _ => h.stored_of) (fun _ hd => .inl hd)
  | waits hnew _ _ =>
    exact h.set rfl (.inl ⟨hnew, rfl, rfl⟩) rfl rfl (fun _ _ => rfl) nofun nofun
      (fun _ _ => h.stored_of) (fun _ hd => .inl hd)
  | @looks id req now base s' hnew _ _ hlook =>
    have henter : Fresh { s with ids := id :: s.ids } := { h with }
    exact henter.looked (hwired.enter id) (fun _ => .inl ⟨hnew, rfl, rfl⟩)
      (le_refl s.floor) rfl hlook
  | body ht hph hlook =>
    exact h.looked hwired (fun _ => .old ht rfl rfl) (h.began _ _ ht) (h.reading _ _ _ ht hph) hlook
  | @read id t ht hph =>
    refine h.set rfl (.read ht) rfl rfl ?_ ?_ ?_ (fun _ _ => h.stored_of) (fun _ hd => .inl hd)
    · intro base hread
      rcases hph with ⟨key, hp⟩ | hp
      · exact nomatch hp.symm.trans hread
      · exact nomatch hp.symm.trans hread
    · intro key hcomputing
      exact .inr (h.computing _ _ key ht hcomputing)
    · intro owner hjoined
      exact h.joined id t owner ht hjoined
  | computed ht hph =>
    have hown := h.own _ _ ht
    refine h.set rfl (.old ht rfl rfl) rfl rfl nofun nofun nofun ?_ (answer_all ⟨rfl, hown⟩)
    intro k v hholds
    rcases keep_holds hholds with hold | ⟨-, hv, -⟩
    · exact h.stored_of hold
    · exact hv ▸ h.computing _ _ _ ht hph
  | passed ht hph =>
    have hown := h.own _ _ ht
    exact h.set rfl (.old ht rfl rfl) rfl rfl nofun nofun nofun
      (fun _ _ => h.stored_of) (answer_all ⟨rfl, hown⟩)
  | @woken id owner t o result ht hph ho hended =>
    exact h.set rfl (.old ht rfl rfl) rfl rfl nofun nofun nofun (fun _ _ => h.stored_of)
      (answer_all ⟨rfl, h.joined id t owner ht hph⟩)
  | failed ht | stops ht =>
    exact h.set rfl (.old ht rfl rfl) rfl rfl nofun nofun nofun
      (fun _ _ => h.stored_of) (fun _ hd => .inl hd)
  | commit =>
    refine { h with floor := h.floor.trans ?_ }
    rw [List.length_append]
    exact Nat.le_add_right ..
  | announce hcommit hwatch => exact h.announce hwired hguard hcommit hwatch
  | forgets hsub =>
    exact { h with
      stored := fun key origin entry hholds => h.stored key origin entry (hholds.mono hsub) }

/-! ## Requests that begin later -/

theorem Looked.task {now : ℚ} (h : Looked cfg s id t key now s') :
    s'.floor = s.floor ∧ ∃ phase, s'.task =
      Function.update s.task id (some { t with phase := phase }) := by
  cases h with
  | hit | joins | computes => exact ⟨rfl, _, rfl⟩

/-- A step sets one task at most, and the floor does not fall. -/
theorem Move.task (h : Move cfg s e s') : s.floor ≤ s'.floor ∧ (s'.task = s.task ∨ ∃ id t',
      s'.task = Function.update s.task id (some t') ∧ Steps s id t') := by
  cases h with
  | bypass hnew _ | waits hnew _ _ =>
    exact ⟨le_refl _, .inr ⟨_, _, rfl, .inl ⟨hnew, rfl, rfl⟩⟩⟩
  | looks hnew _ _ hlook =>
    obtain ⟨hfloor, phase, htask⟩ := hlook.task
    exact ⟨hfloor.ge, .inr ⟨_, _, htask, .inl ⟨hnew, rfl, rfl⟩⟩⟩
  | body ht _ hlook =>
    obtain ⟨hfloor, phase, htask⟩ := hlook.task
    exact ⟨hfloor.ge, .inr ⟨_, _, htask, .old ht rfl rfl⟩⟩
  | read ht _ => exact ⟨le_refl _, .inr ⟨_, _, rfl, .read ht⟩⟩
  | computed ht _ | passed ht _ | failed ht _ | woken ht _ _ _ | stops ht _ =>
    exact ⟨le_refl _, .inr ⟨_, _, rfl, .old ht rfl rfl⟩⟩
  | commit | forgets => exact ⟨le_refl _, .inl rfl⟩
  | announce _ _ => exact ⟨le_max_left .., .inl rfl⟩

/-- The floor has passed the `n`-th write, and so has each request that was not there in `s₀`. -/
structure Beyond (n : Nat) (s₀ s : State) : Prop where
  floor : n < s.floor
  began : ∀ id t, s₀.task id = none → s.task id = some t → n < t.floor

theorem Beyond.move {s₀ : State} (h : Beyond n s₀ s)
    (hmove : Move cfg s e s') : Beyond n s₀ s' := by
  obtain ⟨hfloor, htask⟩ := hmove.task
  refine ⟨h.floor.trans_le hfloor, fun i t₁ hnone ht₁ => ?_⟩
  rcases htask with hsame | ⟨id, t', hset, hsteps⟩
  · rw [hsame] at ht₁
    exact h.began i t₁ hnone ht₁
  rcases task_cases hset ht₁ with ⟨rfl, rfl⟩ | ⟨-, hold⟩
  · rcases hsteps with ⟨-, hnew, -⟩ | ⟨t, ht, hold, -⟩
    · exact hnew ▸ h.floor
    · exact hold ▸ h.began i t hnone ht
  · exact h.began i t₁ hnone hold

theorem Fresh.run {es : List Event} (hwired : Wired s) (h : Fresh s)
    (hrun : exec (guarded (Settled cfg) (step cfg)) s es = some s') : Wired s' ∧ Fresh s' := by
  have hmoves : ∀ s e s', Wired s ∧ Fresh s → Settled cfg s e →
      step cfg s e = some s' → Wired s' ∧ Fresh s' := by
    rintro s e s' ⟨hwired, hfresh⟩ hguard hstep
    have hmove := step_move hstep
    exact ⟨hwired.move hmove, hfresh.move hwired hguard hmove⟩
  exact exec_guarded_invariant hmoves ⟨hwired, h⟩ hrun

theorem Beyond.announced {s₀ : State} {written : List String}
    (hcommit : s₀.commits[n]? = some written) (hwatch : written.any cfg.watched.contains = true)
    (hstep : step cfg s₀ (.announce n) = some s) : Beyond n s₀ s := by
  rw [step, announce, hcommit] at hstep
  dsimp only [bind_some, bind] at hstep
  rw [if_pos hwatch] at hstep
  cases hstep
  exact ⟨Nat.lt_of_succ_le (le_max_right ..), fun _ _ hnone ht => by
    cases hnone.symm.trans ht⟩

/-- **NO STALE ANSWER**: a request that comes after the announcement of a watched write is answered
    with nothing read before its commit, in a run in which no computation is in flight across the
    two. -/
theorem answers_current {es es' : List Event} {s₀ : State} {written : List String}
    (hbefore : exec (guarded (Settled cfg) (step cfg)) (State.init cfg) es = some s₀)
    (hcommit : s₀.commits[n]? = some written) (hwatched : written.any cfg.watched.contains = true)
    (hafter : exec (guarded (Settled cfg) (step cfg)) s₀ (.announce n :: es') = some s) :
    ∀ d ∈ s.log, s₀.task d.recipient = none →
      ∀ o v, s.task d.origin = some o → o.readAt = some v → n < v := by
  intro d hd hlater o v ho hv
  obtain ⟨hwired₀, hfresh₀⟩ := Fresh.run Wired.init Fresh.init hbefore
  obtain ⟨-, hfresh⟩ := Fresh.run hwired₀ hfresh₀ hafter
  have hbeyond : Beyond n s₀ s := by
    rw [exec] at hafter
    split at hafter
    · cases hafter
    rename_i s₁ hs₁
    refine exec_guarded_invariant (fun _ _ _ hinv _ hs => ?_)
      (Beyond.announced hcommit hwatched (guarded_some hs₁).2) hafter
    exact Beyond.move hinv (step_move hs)
  obtain ⟨t, ht, hsince⟩ := hfresh.log d hd
  exact (hbeyond.began _ t hlater ht).trans_le (hsince o v ho hv)

/-- The first request reads, then a page is written. -/
def writeAfterRead : List Event := [.arrive 0 pageRequest 0, .read 0, .commit ["Page"]]

/-- The first request answers before the announcement, the second begins after it and computes. -/
theorem answers_current_settled : ∃ s₀ s, exec (guarded (Settled pageCache) (step pageCache))
        (State.init pageCache) (writeAfterRead ++ [.returns 0 plainPage 1]) = some s₀ ∧
      exec (guarded (Settled pageCache) (step pageCache)) s₀
        [.announce 0, .arrive 1 pageRequest 2, .read 1, .returns 1 plainPage 3] = some s ∧
      s.log = [⟨0, 0, plainPage⟩, ⟨1, 1, plainPage⟩] ∧
      ∀ d ∈ s.log, s₀.task d.recipient = none →
        ∀ o v, s.task d.origin = some o → o.readAt = some v → 0 < v := by
  refine runs_end (fun s₀ s => (s₀.commits, s.log))
    ([["Page"]], [⟨0, 0, plainPage⟩, ⟨1, 1, plainPage⟩]) (by decide +kernel)
    fun s₀ s hbefore hafter hfields => ?_
  obtain ⟨hcommits, hlog⟩ := Prod.mk.inj hfields
  exact ⟨hlog, answers_current hbefore (by rw [hcommits]; rfl) (by decide) hafter⟩

/-- **A STALE ANSWER IS STORED**: the computation read before the write commits, is still
    running when the announcement clears the store, and stores what it read for the request
    that comes then. -/
theorem stale_stored : ∃ s₀ s, exec (step pageCache) (State.init pageCache) writeAfterRead =
        some s₀ ∧ s₀.commits[0]? = some ["Page"] ∧
      exec (step pageCache) s₀ [.announce 0, .returns 0 plainPage 1, .arrive 1 pageRequest 2] =
          some s ∧
      ∃ d ∈ s.log, s₀.task d.recipient = none ∧
        ∃ o, s.task d.origin = some o ∧ o.readAt = some 0 := by
  have hruns : (exec (step pageCache) (State.init pageCache)
      writeAfterRead).bind (fun s₀ => (exec (step pageCache) s₀
        [.announce 0, .returns 0 plainPage 1, .arrive 1 pageRequest 2]).map fun s =>
          (s₀.commits, s₀.task 1, (s.task 0).map Task.readAt, s.log)) =
      some ([["Page"]], none, some (some 0), [⟨0, 0, plainPage⟩, ⟨1, 0, plainPage⟩]) := by
    decide +kernel
  obtain ⟨s₀, hbefore, hrest⟩ := bind_eq_some_iff.mp hruns
  obtain ⟨s, hafter, hfields⟩ := map_eq_some_iff.mp hrest
  simp only [Prod.mk.injEq] at hfields
  obtain ⟨hcommits, hnew, hread, hlog⟩ := hfields
  refine ⟨s₀, s, hbefore, by rw [hcommits]; rfl, hafter, ⟨1, 0, plainPage⟩,
    by rw [hlog]; simp, hnew, ?_⟩
  exact map_eq_some_iff.mp hread

end ResponseCache
