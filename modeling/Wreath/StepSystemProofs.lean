import Mathlib.Data.List.Basic
import Mathlib.Data.List.Forall2
import Mathlib.Data.List.Induction
import Mathlib.Logic.Basic
import Mathlib.Order.Basic

/-! # Runs — step systems, loops and fallible computations

* `StepSystem`: a partial step function run over an event list. `guarded` keeps the steps
  that meet a condition; the induction over runs is done once, in `exec_invariant`.
* `TurnLoop`: turns while each asks for another one. With a measure that falls the fuel
  does not matter (`settle_turn`), and what commutes with the turns commutes with the loop
  (`settle_map`).
* `Drain`: a reader that runs until its input is used up (`drain_step`). Two loops that end
  with the same log have logged the same for every item (`foldlM_logs`).
* `Lockstep`: two computations that both fail or both succeed with related results; one that
  succeeds is taken apart bind by bind (`bind_ok`, `mapM_ok`).
* `SpentOnce`: a ledger that accepts events under a key. Two acceptances of one key are a
  lifetime apart in every run (`accepted_apart`). -/

namespace StepSystem

variable {σ ε : Type}

/-- Run a list of events. -/
def exec (step : σ → ε → Option σ) : σ → List ε → Option σ
  | s, [] => some s
  | s, e :: es =>
    match step s e with
    | none => none
    | some s' => exec step s' es

/-- The system restricted to the steps that meet `guard`. -/
def guarded (guard : σ → ε → Prop) [∀ s e, Decidable (guard s e)]
    (step : σ → ε → Option σ) (s : σ) (e : ε) : Option σ :=
  if guard s e then step s e else none

variable {step : σ → ε → Option σ} {guard : σ → ε → Prop}

theorem guarded_some [∀ s e, Decidable (guard s e)] {s s' : σ}
    {e : ε} (h : guarded guard step s e = some s') : guard s e ∧ step s e = some s' := by
  unfold guarded at h
  split at h
  · rename_i hg
    exact ⟨hg, h⟩
  · cases h

/-- **INVARIANT RULE**: what every step preserves, every run preserves. -/
theorem exec_invariant {Inv : σ → Prop} (hstep : ∀ s e s', Inv s → step s e = some s' → Inv s')
    (es : List ε) {s s' : σ} (hinv : Inv s) (h : exec step s es = some s') : Inv s' := by
  fun_induction exec step s es with
  | case1 =>
    cases h
    exact hinv
  | case2 => cases h
  | case3 s e es s₁ hs₁ ih => exact ih (hstep s e s₁ hinv hs₁) h

/-- A run with one more step. -/
theorem exec_concat (s : σ) (es : List ε) (e : ε) :
    exec step s (es ++ [e]) = (exec step s es).bind (step · e) := by
  induction es generalizing s with
  | nil => cases h : step s e <;> simp [exec, h]
  | cons e' es ih => cases h : step s e' <;> simp [exec, h, ih]

/-- The invariant rule for guarded runs. -/
theorem exec_guarded_invariant [∀ s e, Decidable (guard s e)] {Inv : σ → Prop}
    (hstep : ∀ s e s', Inv s → guard s e → step s e = some s' → Inv s') {es : List ε} {s s' : σ}
    (hinv : Inv s) (h : exec (guarded guard step) s es = some s') : Inv s' := by
  refine exec_invariant (fun t e t' ht hs => ?_) es hinv h
  obtain ⟨hg, hs'⟩ := guarded_some hs
  exact hstep t e t' ht hg hs'

/-- A run that ends in a state of which `f` reads `v`. -/
theorem run_ends {τ : Type} {run : Option σ} {P : σ → Prop} (f : σ → τ) (v : τ)
    (h : run.map f = some v) (hp : ∀ s, run = some s → f s = v → P s) :
    ∃ s, run = some s ∧ P s := by
  obtain ⟨s, hs, hv⟩ := Option.map_eq_some_iff.mp h
  exact ⟨s, hs, hp s hs hv⟩

/-- Two runs, the second from where the first ends. -/
theorem runs_end {ρ τ : Type} {run : Option σ} {next : σ → Option ρ} {P : σ → ρ → Prop}
    (f : σ → ρ → τ) (v : τ) (h : (run.bind fun s => (next s).map (f s)) = some v)
    (hp : ∀ s t, run = some s → next s = some t → f s t = v → P s t) :
    ∃ s t, run = some s ∧ next s = some t ∧ P s t := by
  obtain ⟨s, hs, h⟩ := Option.bind_eq_some_iff.mp h
  obtain ⟨t, ht, hv⟩ := Option.map_eq_some_iff.mp h
  exact ⟨s, t, hs, ht, hp s t hs ht hv⟩

end StepSystem

namespace TurnLoop

variable {σ τ : Type}

/-- Take turns until one does not ask for the next. -/
def settle (turn : σ → σ × Bool) : Nat → σ → σ
  | 0, s => s
  | n + 1, s =>
    if (turn s).2 then settle turn n (turn s).1 else (turn s).1

/-- `P` holds before every turn of the loop. -/
def Along (turn : σ → σ × Bool) (P : σ → Prop) : Nat → σ → Prop
  | 0, _ => True
  | n + 1, s => P s ∧ ((turn s).2 = true → Along turn P n (turn s).1)

instance Along.decidable (turn : σ → σ × Bool) (P : σ → Prop)
    [DecidablePred P] : ∀ n s, Decidable (Along turn P n s)
  | 0, _ => isTrue trivial
  | n + 1, s =>
    have := Along.decidable turn P n (turn s).1
    inferInstanceAs (Decidable (P s ∧ (_ → Along turn P n (turn s).1)))

section Measure

variable {turn : σ → σ × Bool} (μ : σ → Nat) {Inv : σ → Prop}
  (hinv : ∀ s, Inv s → Inv (turn s).1)
  (hμ : ∀ s, Inv s → (turn s).2 = true → μ (turn s).1 < μ s)

include hinv hμ

/-- Fuel above the measure makes no difference. -/
theorem settle_fuel (n m : Nat) (s : σ) (hs : Inv s) (hn : μ s < n) (hm : μ s < m) :
    settle turn n s = settle turn m s := by
  induction n generalizing m s with
  | zero => exact absurd hn (Nat.not_lt_zero _)
  | succ n ih =>
    obtain ⟨m, rfl⟩ : ∃ k, m = k + 1 := ⟨m - 1, by omega⟩
    rw [settle, settle]
    split
    · rename_i hnext
      have hfall := hμ s hs hnext
      exact ih m _ (hinv s hs) (by omega) (by omega)
    · rfl

/-- The loop takes one turn, then loops on. -/
theorem settle_turn {s : σ} (hs : Inv s) : settle turn (μ s + 1) s
      = if (turn s).2 then settle turn (μ (turn s).1 + 1) (turn s).1
        else (turn s).1 := by
  rw [settle]
  split
  · rename_i hnext
    exact settle_fuel μ hinv hμ _ _ _ (hinv s hs) (hμ s hs hnext) (Nat.lt_succ_self _)
  · rfl

theorem along_fuel {P : σ → Prop} : ∀ (n m : Nat) (s : σ), Inv s →
    μ s < n → μ s < m → Along turn P n s → Along turn P m s := by
  intro n
  induction n with
  | zero => intro m s _ h; exact absurd h (Nat.not_lt_zero _)
  | succ n ih =>
    intro m s hs hn hm h
    obtain ⟨m, rfl⟩ : ∃ k, m = k + 1 := ⟨m - 1, by omega⟩
    refine ⟨h.1, fun hnext => ?_⟩
    have hfall := hμ s hs hnext
    exact ih m _ (hinv s hs) (by omega) (by omega) (h.2 hnext)

theorem along_turn {P : σ → Prop} {s : σ} (hs : Inv s) : Along turn P (μ s + 1) s
      ↔ P s ∧ ((turn s).2 = true → Along turn P (μ (turn s).1 + 1) (turn s).1) := by
  constructor
  · rintro ⟨h, hrest⟩
    exact ⟨h, fun hnext => along_fuel μ hinv hμ _ _ _ (hinv s hs)
      (hμ s hs hnext) (Nat.lt_succ_self _) (hrest hnext)⟩
  · rintro ⟨h, hrest⟩
    exact ⟨h, fun hnext => along_fuel μ hinv hμ _ _ _ (hinv s hs)
      (Nat.lt_succ_self _) (hμ s hs hnext) (hrest hnext)⟩

end Measure

/-- **THE LOOP** ends as its last turn does, when every turn before keeps `P` and lowers the
    measure. -/
theorem settle_rule {turn : σ → σ × Bool} {μ : σ → Nat} {P Q C : σ → Prop}
    (hturn : ∀ s, P s → C s →
      if (turn s).2 then P (turn s).1 ∧ μ (turn s).1 < μ s else Q (turn s).1)
    (n : Nat) (s : σ) (h : P s) (hn : μ s < n) (halong : Along turn C n s) :
    Q (settle turn n s) := by
  induction n generalizing s with
  | zero => exact absurd hn (Nat.not_lt_zero _)
  | succ n ih =>
    have hs := hturn s h halong.1
    rw [settle]
    split at hs
    · rename_i hnext
      rw [if_pos hnext]
      exact ih _ hs.1 (by omega) (halong.2 hnext)
    · rename_i hlast
      rwa [if_neg hlast]

section Map

variable {turn : σ → σ × Bool} {turn' : τ → τ × Bool} {f : σ → τ}
  (Inv : σ → Prop)
  (hinv : ∀ s, Inv s → Inv (turn s).1)
  (hmap : ∀ s, Inv s → turn' (f s) = (f (turn s).1, (turn s).2))

include hinv

theorem settle_inv (n : Nat) (s : σ) (h : Inv s) : Inv (settle turn n s) := by
  fun_induction settle turn n s with
  | case1 => exact h
  | case2 _ _ _ ih => exact ih (hinv _ h)
  | case3 => exact hinv _ h

include hmap

/-- **THE LOOP COMMUTES** with a map its turns commute with. -/
theorem settle_map (n : Nat) (s : σ) (h : Inv s) : f (settle turn n s) = settle turn' n (f s) := by
  induction n generalizing s with
  | zero => exact rfl
  | succ n ih =>
    rw [settle, settle, hmap s h]
    split
    · exact ih _ (hinv s h)
    · rfl

theorem along_map {P : σ → Prop} {P' : τ → Prop} (hP : ∀ s, P s → P' (f s)) (n : Nat) (s : σ)
    (h : Inv s) (halong : Along turn P n s) : Along turn' P' n (f s) := by
  induction n generalizing s with
  | zero => exact trivial
  | succ n ih =>
    refine ⟨hP s halong.1, fun hnext => ?_⟩
    rw [hmap s h] at hnext ⊢
    exact ih _ (hinv s h) (halong.2 hnext)

end Map

end TurnLoop

namespace Drain

open List

variable {S T A E F : Type}

/-- The loop, with a bound on the number of steps. -/
def run (step : S → List A → Except E (S × List A)) : Nat → S → List A → Except E S
  | _, s, [] => .ok s
  | 0, s, _ :: _ => .ok s
  | n + 1, s, a :: rest =>
    match step s (a :: rest) with
    | .error e => .error e
    | .ok (s', rest') => run step n s' rest'

def drain (step : S → List A → Except E (S × List A)) (s : S) (input : List A) : Except E S :=
  run step input.length s input

/-- A step that succeeds uses something up. -/
def Shrinks (step : S → List A → Except E (S × List A)) : Prop :=
  ∀ s input s' rest, step s input = .ok (s', rest) → rest.length < input.length

section
variable {step : S → List A → Except E (S × List A)}

variable {s : S} {input : List A}

/-- The bound does not matter once it covers the input. -/
theorem run_bound (h : Shrinks step) {n m : Nat} (hn : input.length ≤ n) (hm : input.length ≤ m) :
    run step n s input = run step m s input := by
  induction n generalizing m s input with
  | zero =>
    cases input with
    | nil => cases m <;> rfl
    | cons a rest => exact absurd hn (by simp)
  | succ n ih =>
    cases input with
    | nil => cases m <;> rfl
    | cons a rest =>
      cases m with
      | zero => exact absurd hm (by simp)
      | succ m =>
        simp only [run]
        cases hstep : step s (a :: rest) with
        | error e => rfl
        | ok out =>
          have hless := h _ _ _ _ hstep
          exact ih (by omega) (by omega)

/-- **ONE STEP OF THE LOOP.** -/
theorem drain_step (h : Shrinks step) {s' : S} {rest : List A}
    (hstep : step s input = .ok (s', rest)) : drain step s input = drain step s' rest := by
  have hless := h _ _ _ _ hstep
  cases input with
  | nil => exact absurd hless (by simp)
  | cons a input =>
    simp only [drain, length_cons, run, hstep]
    simp only [length_cons] at hless
    exact run_bound h (by omega) (by omega)

theorem drain_error {e : E} (hne : input ≠ [])
    (hstep : step s input = .error e) : drain step s input = .error e := by
  cases input with
  | nil => exact absurd rfl hne
  | cons a input => simp only [drain, length_cons, run, hstep]

/-- A loop that ends well had nothing to do, or made a step and ended well from there. -/
theorem drain_ok (h : Shrinks step) {t : S} (hdrain : drain step s input = .ok t) :
    (input = [] ∧ s = t) ∨
    ∃ s' rest, step s input = .ok (s', rest) ∧ rest.length < input.length ∧
      drain step s' rest = .ok t := by
  cases input with
  | nil => exact .inl ⟨rfl, Except.ok.inj hdrain⟩
  | cons a input =>
    cases hstep : step s (a :: input) with
    | error e =>
      rw [drain_error (cons_ne_nil a input) hstep] at hdrain
      cases hdrain
    | ok out =>
      obtain ⟨s', rest⟩ := out
      rw [drain_step h hstep] at hdrain
      exact .inr ⟨s', rest, rfl, h _ _ _ _ hstep, hdrain⟩

/-- What every step keeps holds at the end. -/
theorem drain_invariant (h : Shrinks step) {P : S → Prop}
    (hkeeps : ∀ {s input s' rest}, P s → step s input = .ok (s', rest) → P s')
    {t : S} (hs : P s) (hdrain : drain step s input = .ok t) : P t := by
  induction hlen : input.length using Nat.strongRecOn generalizing s input with
  | ind n ih =>
    rcases drain_ok h hdrain with ⟨-, rfl⟩ | ⟨s', rest, hstep, hless, hmore⟩
    · exact hs
    · exact ih rest.length (by omega) (hkeeps hs hstep) hmore rfl

end

variable {xs : List A} {s : S} {f : S → A → Except E S} {g : S → A → Except E S}

/-- A loop whose steps succeed where another's do, with the same result. -/
theorem foldlM_of_steps (h : ∀ x ∈ xs, ∀ s s', f s x = .ok s' → g s x = .ok s') {t : S}
    (hf : xs.foldlM f s = .ok t) : xs.foldlM g s = .ok t := by
  induction xs generalizing s with
  | nil => exact hf
  | cons x xs ih =>
    rw [foldlM_cons] at hf ⊢
    cases hx : f s x with
    | error e =>
      rw [hx] at hf
      cases hf
    | ok s' =>
      rw [hx] at hf
      rw [h x mem_cons_self s s' hx]
      exact ih (fun y hy => h y (mem_cons_of_mem x hy)) hf

/-- The last step of a loop. -/
theorem foldlM_concat_ok {x : A} {t : S} (h : (xs ++ [x]).foldlM f s = .ok t) :
    ∃ mid, xs.foldlM f s = .ok mid ∧ f mid x = .ok t := by
  rw [foldlM_append] at h
  cases hxs : xs.foldlM f s with
  | error e =>
    rw [hxs] at h
    cases h
  | ok mid =>
    rw [hxs] at h
    change f mid x >>= Except.ok = .ok t at h
    refine ⟨mid, rfl, ?_⟩
    cases hx : f mid x with
    | error e =>
      rw [hx] at h
      cases h
    | ok t' =>
      rw [hx] at h
      exact h

/-- **THE SAME LOG**: two loops whose steps add equally long parts to a log, and which end
    with the same log, have added the same part for every item. -/
theorem foldlM_logs {L : Type} (log : S → List L) {size : A → Nat}
    (hf : ∀ s x s', f s x = .ok s' → ∃ ks, ks.length = size x ∧ log s' = log s ++ ks)
    (hg : ∀ s x s', g s x = .ok s' → ∃ ks, ks.length = size x ∧ log s' = log s ++ ks) {s' r r' : S}
    (hs : xs.foldlM f s = .ok s') (hr : xs.foldlM g r = .ok r') (hlog : log s' = log r') :
    ∀ x ∈ xs, ∃ s₁ s₂ r₁ r₂ ks, f s₁ x = .ok s₂ ∧ g r₁ x = .ok r₂ ∧
      log s₂ = log s₁ ++ ks ∧ log r₂ = log r₁ ++ ks := by
  induction xs using List.reverseRecOn generalizing s' r' with
  | nil => exact nofun
  | append_singleton xs x ih =>
    obtain ⟨s₁, hs₁, hs₂⟩ := foldlM_concat_ok hs
    obtain ⟨r₁, hr₁, hr₂⟩ := foldlM_concat_ok hr
    obtain ⟨ks, hks, hlogs⟩ := hf s₁ x s' hs₂
    obtain ⟨kr, hkr, hlogr⟩ := hg r₁ x r' hr₂
    rw [hlogs, hlogr] at hlog
    obtain ⟨hbef, rfl⟩ := append_inj' hlog (hks.trans hkr.symm)
    intro y hy
    rcases mem_append.mp hy with hin | hlast
    · exact ih hs₁ hr₁ hbef y hin
    · rw [mem_singleton.mp hlast]
      exact ⟨s₁, s', r₁, r', ks, hs₂, hr₂, hlogs, hlogr⟩

end Drain

namespace Lockstep

variable {ε α β α' β' : Type}

/-- Both fail, or both succeed with related results. -/
inductive Together (R : α → α' → Prop) : Except ε α → Except ε α' → Prop where
  | error (e e' : ε) : Together R (.error e) (.error e')
  | ok {a : α} {a' : α'} (h : R a a') : Together R (.ok a) (.ok a')

variable {R : α → α' → Prop} {S : β → β' → Prop}

theorem Together.pure {a : α} {a' : α'} (h : R a a') :
    Together (ε := ε) R (Pure.pure a) (Pure.pure a') :=
  .ok h

variable {x : Except ε α} {f : α → Except ε β}

theorem Together.bind {x' : Except ε α'} {f' : α' → Except ε β'} (h : Together R x x')
    (hf : ∀ a a', R a a' → Together S (f a) (f' a')) : Together S (x >>= f) (x' >>= f') := by
  cases h with
  | error e e' => exact .error e e'
  | ok h => exact hf _ _ h

/-- A computation with itself. -/
theorem Together.refl (x : Except ε α) : Together (· = ·) x x := by
  cases x with
  | error e => exact .error e e
  | ok a => exact .ok rfl

theorem Together.of_eq {x' : Except ε α} (h : x = x') : Together (· = ·) x x' := h ▸ .refl x

/-- The same branch is taken on both sides. -/
theorem Together.cond {b : Bool} {y : Except ε α} {x' y' : Except ε α'} (hx : Together R x x')
    (hy : Together R y y') : Together R (if b then x else y) (if b then x' else y') := by
  cases b with
  | false => exact hy
  | true => exact hx

/-! ## A computation that succeeds -/

theorem bind_ok {b : β} : (x >>= f) = .ok b ↔ ∃ a, x = .ok a ∧ f a = .ok b := by
  cases x with
  | error e => exact iff_of_false nofun (by rintro ⟨a, h, -⟩; exact nomatch h)
  | ok a =>
    constructor
    · exact fun h => ⟨a, rfl, h⟩
    · rintro ⟨a', h, hf⟩
      cases h
      exact hf

variable {bs : List β} {l : List α}

theorem mapM_ok : l.mapM f = .ok bs ↔ List.Forall₂ (fun a b => f a = .ok b) l bs := by
  constructor
  · intro h
    induction l generalizing bs with
    | nil =>
      cases h
      exact .nil
    | cons a l ih =>
      rw [List.mapM_cons] at h
      obtain ⟨b, hb, h⟩ := bind_ok.mp h
      obtain ⟨rest, hrest, h⟩ := bind_ok.mp h
      cases h
      exact .cons hb (ih hrest)
  · intro h
    induction h with
    | nil => rfl
    | cons hb _ ih => rw [List.mapM_cons, hb, ih]; rfl

/-! ## Lists in step -/

theorem forall₂_right {T : α → β → Prop} {P : β → Prop}
    (h : List.Forall₂ T l bs) (hP : ∀ a b, T a b → P b) : ∀ b ∈ bs, P b := by
  induction h with
  | nil => exact fun b hb => nomatch hb
  | cons hab _ ih => exact List.forall_mem_cons.mpr ⟨hP _ _ hab, ih⟩

theorem forall₂_with {T : α → β → Prop} {P : α → Prop} {Q : β → Prop}
    (h : List.Forall₂ T l bs) (hP : ∀ a ∈ l, P a) (hQ : ∀ b ∈ bs, Q b) :
    List.Forall₂ (fun a b => P a ∧ Q b ∧ T a b) l bs := by
  induction h with
  | nil => exact .nil
  | cons hab _ ih =>
    obtain ⟨ha, hl⟩ := List.forall_mem_cons.mp hP
    obtain ⟨hb, hbs⟩ := List.forall_mem_cons.mp hQ
    exact .cons ⟨ha, hb, hab⟩ (ih hl hbs)

end Lockstep

namespace SpentOnce

open List

variable {σ ε κ τ : Type} [Preorder τ]

structure Ledger (σ ε κ τ : Type) [Preorder τ] where
  /-- The key accepted, if any, and the ledger after. -/
  step : σ → ε → Option κ × σ
  time : ε → τ
  deadline : ε → τ
  Valid : ε → Prop
  Inv : σ → Prop
  Spent : σ → κ → τ → Prop
  inv : ∀ {s e}, Valid e → Inv s → Inv (step s e).2
  keep : ∀ {s e k d}, Valid e → Spent s k d → time e < d → Spent (step s e).2 k d
  refuse : ∀ {s e k d}, Valid e → Spent s k d → time e < d → (step s e).1 ≠ some k
  record : ∀ {s e k}, Valid e → Inv s → (step s e).1 = some k → Spent (step s e).2 k (deadline e)

/-- Every event with the key it was accepted under. -/
def Ledger.run (L : Ledger σ ε κ τ) : σ → List ε → List (ε × Option κ)
  | _, [] => []
  | s, e :: es => (e, (L.step s e).1) :: L.run (L.step s e).2 es

variable {L : Ledger σ ε κ τ}

theorem run_cons (s : σ) (e : ε) (es : List ε) :
    L.run s (e :: es) = (e, (L.step s e).1) :: L.run (L.step s e).2 es := rfl

theorem run_mem (es : List ε) {s : σ} {b : ε × Option κ} (hb : b ∈ L.run s es) : b.1 ∈ es := by
  induction es generalizing s b with
  | nil => cases hb
  | cons e es ih =>
    rcases mem_cons.mp hb with rfl | hmem
    · exact mem_cons_self
    · exact mem_cons_of_mem _ (ih hmem)

/-- A spent key is accepted again only at its deadline or later. -/
theorem spent_apart (es : List ε) {s : σ} {k : κ} {d : τ} (hvalid : ∀ e ∈ es, L.Valid e)
    (hsorted : es.Pairwise (fun a b => L.time a ≤ L.time b)) (hspent : L.Spent s k d) :
    ∀ b ∈ L.run s es, b.2 = some k → ¬ L.time b.1 < d := by
  induction es generalizing s k d with
  | nil =>
    intro b hb
    cases hb
  | cons e es ih =>
    intro b hb hk hlt
    obtain ⟨hfirst, hrest⟩ := pairwise_cons.mp hsorted
    have he : L.Valid e := hvalid e mem_cons_self
    rcases mem_cons.mp hb with rfl | hmem
    · exact L.refuse he hspent hlt hk
    · have hle : L.time e ≤ L.time b.1 := hfirst _ (run_mem es hmem)
      have hspent' := L.keep he hspent (lt_of_le_of_lt hle hlt)
      exact ih (fun e' he' => hvalid e' (mem_cons_of_mem _ he')) hrest hspent' b hmem hk hlt

/-- **A LIFETIME APART**: of two acceptances of one key the later one is not before the
    deadline of the earlier. -/
theorem accepted_apart (es : List ε) (s : σ) (hinv : L.Inv s) (hvalid : ∀ e ∈ es, L.Valid e)
    (hsorted : es.Pairwise (fun a b => L.time a ≤ L.time b)) : (L.run s es).Pairwise fun a b =>
      ∀ k, a.2 = some k → b.2 = some k → ¬ L.time b.1 < L.deadline a.1 := by
  induction es generalizing s with
  | nil => exact List.Pairwise.nil
  | cons e es ih =>
    have he : L.Valid e := hvalid e mem_cons_self
    have htail : ∀ e' ∈ es, L.Valid e' := fun e' he' => hvalid e' (mem_cons_of_mem _ he')
    have hrest := (pairwise_cons.mp hsorted).2
    refine pairwise_cons.mpr ⟨?_, ih _ (L.inv he hinv) htail hrest⟩
    intro b hb k hk hbk
    exact spent_apart es htail hrest (L.record he hinv hk) b hb hbk

end SpentOnce
