import Mathlib.Data.List.Basic

/-! # Resumable readers — the same result however the input is cut

A reader goes round over what it has: a round consumes some of it, emits events, and
either goes on or waits for more. `Means s x o` says what a reader in state `s` makes
of an input `x` that is whole. When every round agrees with it whatever comes later, so
does every loop of rounds and every sequence of feeds: the input may be cut anywhere. -/

namespace Resumable

open Except

variable {σ ε α err O : Type}

/-- One round over the data at hand. -/
inductive Turn (σ ε err : Type) where
  | go (n : Nat) (es : List ε) (s : σ)
  | pause (n : Nat) (es : List ε) (s : σ)
  | fail (e : err)

/-- Rounds until one waits; `0` counts the rounds that are left. -/
def loop (turn : σ → List α → Turn σ ε err) : Nat → σ → List α → Except err (List ε × σ × List α)
  | 0, s, data => .ok ([], s, data)
  | f + 1, s, data =>
    match turn s data with
    | .go n es s' =>
      match loop turn f s' (data.drop n) with
      | .ok (es', r) => .ok (es ++ es', r)
      | .error e => .error e
    | .pause n es s' => .ok (es, s', data.drop n)
    | .fail e => .error e

/-- Feed after feed, with all that was emitted. -/
def feeds (feed : σ → List α → Except err (List ε × σ)) :
    σ → List (List α) → Except err (List ε × σ)
  | s, [] => .ok ([], s)
  | s, chunk :: chunks =>
    match feed s chunk with
    | .ok (es, s') =>
      match feeds feed s' chunks with
      | .ok (es', r) => .ok (es ++ es', r)
      | .error e => .error e
    | .error e => .error e

section Meaning

variable {turn : σ → List α → Turn σ ε err} {emit : List ε → O → O}
  {Means : σ → List α → O → Prop} {Fails : err → O → Prop}

/-- A round that goes on or waits agrees with `Means`, whatever comes later. -/
def Agrees (turn : σ → List α → Turn σ ε err) (emit : List ε → O → O)
    (Means : σ → List α → O → Prop) : Prop :=
  ∀ s data n es s', turn s data = .go n es s' ∨ turn s data = .pause n es s' →
    ∀ rest o, Means s' (data.drop n ++ rest) o → Means s (data ++ rest) (emit es o)

/-- A round that fails does so rightly, whatever comes later. -/
def FailsRightly (turn : σ → List α → Turn σ ε err)
    (Means : σ → List α → O → Prop) (Fails : err → O → Prop) : Prop :=
  ∀ s data e, turn s data = .fail e → ∀ rest, ∃ o, Fails e o ∧ Means s (data ++ rest) o

/-- The rounds of a loop that ended well. -/
inductive Rounds (turn : σ → List α → Turn σ ε err) :
    Nat → σ → List α → List ε → σ → List α → Prop where
  | out (s : σ) (data : List α) : Rounds turn 0 s data [] s data
  | go {f n : Nat} {s s₁ s' : σ} {data data' : List α} {es es' : List ε}
      (hgo : turn s data = .go n es s₁) (hmore : Rounds turn f s₁ (data.drop n) es' s' data') :
      Rounds turn (f + 1) s data (es ++ es') s' data'
  | pause {f n : Nat} {s s' : σ} {data : List α} {es : List ε}
      (hpause : turn s data = .pause n es s') : Rounds turn (f + 1) s data es s' (data.drop n)

variable {f : Nat} {s s' : σ} {data data' : List α} {es : List ε}

theorem loop_rounds (h : loop turn f s data = .ok (es, s', data')) :
    Rounds turn f s data es s' data' := by
  induction f generalizing s data es with
  | zero =>
    cases h
    exact .out _ _
  | succ f ih =>
    rw [loop] at h
    split at h
    · rename_i hgo
      split at h
      · rename_i hloop
        cases h
        exact .go hgo (ih hloop)
      · cases h
    · rename_i hpause
      cases h
      exact .pause hpause
    · cases h

/-- **LOOP RULE**: what is made of the rest, with what was emitted before it, is made of the
    whole. -/
theorem loop_means (hnil : ∀ o, emit [] o = o)
    (happ : ∀ es es' o, emit (es ++ es') o = emit es (emit es' o))
    (hturn : Agrees turn emit Means) (h : loop turn f s data = .ok (es, s', data')) :
    ∀ rest o, Means s' (data' ++ rest) o → Means s (data ++ rest) (emit es o) := by
  intro rest o ho
  replace h := loop_rounds h
  induction h with
  | out s data =>
    rw [hnil]
    exact ho
  | go hgo _ ih =>
    rw [happ]
    exact hturn _ _ _ _ _ (.inl hgo) rest _ (ih ho)
  | pause hpause => exact hturn _ _ _ _ _ (.inr hpause) rest o ho

theorem loop_fails (hemit : ∀ es e o, Fails e o → Fails e (emit es o))
    (hturn : Agrees turn emit Means) (hfail : FailsRightly turn Means Fails) :
    ∀ {f : Nat} {s : σ} {data : List α} {e : err}, loop turn f s data = .error e →
      ∀ rest, ∃ o, Fails e o ∧ Means s (data ++ rest) o := by
  intro f
  induction f with
  | zero =>
    intro s data e h
    cases h
  | succ f ih =>
    intro s data e h rest
    rw [loop] at h
    split at h
    · rename_i n es₁ s₁ hgo
      split at h
      · cases h
      · rename_i e' hloop
        obtain rfl := Except.error.inj h
        obtain ⟨o, ho, hmeans⟩ := ih hloop rest
        exact ⟨emit es₁ o, hemit _ _ _ ho, hturn _ _ _ _ _ (.inl hgo) rest o hmeans⟩
    · cases h
    · rename_i e' hfails
      obtain rfl := Except.error.inj h
      exact hfail _ _ _ hfails rest

/-- When a round that goes on consumes and keeps `P`, a loop with a round for every symbol
    ends in a round that waits, in a state with `P`. -/
theorem loop_rests {P : σ → Prop}
    (hgo : ∀ s data n es s', turn s data = .go n es s' → 0 < n ∧ n ≤ data.length ∧ P s')
    (hf : data.length < f) (hs : P s) (h : loop turn f s data = .ok (es, s', data')) :
    ∃ s₀ data₀ n es₀, P s₀ ∧ turn s₀ data₀ = .pause n es₀ s' ∧ data' = data₀.drop n := by
  replace h := loop_rounds h
  induction h with
  | out s data => exact absurd hf (Nat.not_lt_zero _)
  | go hone _ ih =>
    obtain ⟨hpos, hle, hs₁⟩ := hgo _ _ _ _ _ hone
    refine ih ?_ hs₁
    rw [List.length_drop]
    omega
  | pause hpause => exact ⟨_, _, _, _, hs, hpause, rfl⟩

/-- A loop of rounds that emit nothing before the last one keeps `P`, and ends with `Q`. -/
theorem loop_ends {P : σ → List α → Prop} {Q : List ε → σ → List α → Prop}
    (hgo : ∀ s data n es s', P s data → turn s data = .go n es s' → es = [] ∧ P s' (data.drop n))
    (hpause : ∀ s data n es s', P s data → turn s data = .pause n es s' → Q es s' (data.drop n))
    (hout : ∀ s data, P s data → Q [] s data) (hp : P s data)
    (h : loop turn f s data = .ok (es, s', data')) : Q es s' data' := by
  replace h := loop_rounds h
  induction h with
  | out s data => exact hout _ _ hp
  | go hone _ ih =>
    obtain ⟨rfl, hp₁⟩ := hgo _ _ _ _ _ hp hone
    exact ih hp₁
  | pause hone => exact hpause _ _ _ _ _ hp hone

variable {feed : σ → List α → Except err (List ε × σ)}

/-- **FEED RULE**: the same for feeds, however the input is cut. -/
theorem feeds_means (hnil : ∀ o, emit [] o = o)
    (happ : ∀ es es' o, emit (es ++ es') o = emit es (emit es' o))
    (hfeed : ∀ s chunk es s', feed s chunk = .ok (es, s') →
      ∀ rest o, Means s' rest o → Means s (chunk ++ rest) (emit es o)) :
    ∀ {chunks : List (List α)} {s s' : σ} {es : List ε}, feeds feed s chunks = .ok (es, s') →
      ∀ rest o, Means s' rest o → Means s (chunks.flatten ++ rest) (emit es o) := by
  intro chunks
  induction chunks with
  | nil =>
    intro s s' es h rest o ho
    cases h
    rw [hnil]
    exact ho
  | cons chunk chunks ih =>
    intro s s' es h rest o ho
    rw [feeds] at h
    split at h
    · rename_i es₁ s₁ hone
      split at h
      · rename_i es₂ r hmore
        cases h
        rw [happ, List.flatten_cons, List.append_assoc]
        exact hfeed _ _ _ _ hone _ _ (ih hmore rest o ho)
      · cases h
    · cases h

theorem feeds_fails (hemit : ∀ es e o, Fails e o → Fails e (emit es o))
    (hfeed : ∀ s chunk es s', feed s chunk = .ok (es, s') →
      ∀ rest o, Means s' rest o → Means s (chunk ++ rest) (emit es o))
    (hfail : ∀ s chunk e, feed s chunk = .error e →
      ∀ rest, ∃ o, Fails e o ∧ Means s (chunk ++ rest) o) :
    ∀ {chunks : List (List α)} {s : σ} {e : err}, feeds feed s chunks = .error e →
      ∀ rest, ∃ o, Fails e o ∧ Means s (chunks.flatten ++ rest) o := by
  intro chunks
  induction chunks with
  | nil =>
    intro s e h
    cases h
  | cons chunk chunks ih =>
    intro s e h rest
    rw [List.flatten_cons, List.append_assoc]
    rw [feeds] at h
    split at h
    · rename_i es₁ s₁ hone
      split at h
      · cases h
      · rename_i e' hmore
        obtain rfl := Except.error.inj h
        obtain ⟨o, ho, hmeans⟩ := ih hmore rest
        exact ⟨emit es₁ o, hemit _ _ _ ho, hfeed _ _ _ _ hone _ _ hmeans⟩
    · rename_i e' hone
      obtain rfl := Except.error.inj h
      exact hfail _ _ _ hone _

/-- What every feed keeps, a sequence of feeds keeps. -/
theorem feeds_invariant {Inv : σ → Prop}
    (hfeed : ∀ s chunk es s', Inv s → feed s chunk = .ok (es, s') → Inv s') :
    ∀ {chunks : List (List α)} {s s' : σ} {es : List ε},
      Inv s → feeds feed s chunks = .ok (es, s') → Inv s' := by
  intro chunks
  induction chunks with
  | nil =>
    intro s s' es hs h
    cases h
    exact hs
  | cons chunk chunks ih =>
    intro s s' es hs h
    rw [feeds] at h
    split at h
    · rename_i es₁ s₁ hone
      split at h
      · rename_i es₂ r hmore
        cases h
        exact ih (hfeed _ _ _ _ hs hone) hmore
      · cases h
    · cases h

end Meaning

end Resumable
