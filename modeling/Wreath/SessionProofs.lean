import Mathlib.Algebra.Order.Ring.Rat
import Wreath.TableProofs
import Wreath.StepSystemProofs

/-! # Server-side sessions — `policy/sessions.py` over `session_store.py`

A request loads the row of the id its cookie names, its handler may change the contents or
ask for a rotation, and when the response goes out the row is deleted, replaced if it is
still there, left alone, or deleted and written again under a new id. Every statement is one
step. A rotation writes without looking, so a session revoked while a rotating request holds
it lives on (`revoked_and_rotated`); when every rotation finds the row it retires, and no
revocation goes by a retired id or falls into a rotation, it is final (`revocation_final`). -/

namespace Session

open StepSystem List Option Function SlotMap

variable {D : Type}

abbrev Sid := String

/-- What the contents are asked: `_json_dumps`, whether there are none, and the text
    PostgreSQL finds at `data -> key ->> field`. -/
structure Contents (D : Type) where
  dumps : D → List UInt8
  empty : D
  isEmpty : D → Bool
  text : D → String → String → Option String

/-- `touch` is whether the store can extend a row without rewriting it;
    `PostgresSessionStore` cannot. -/
structure Config (D : Type) extends Contents D where
  maxAge : ℚ
  sessionKey : String
  touch : Bool

/-- `writer` is the request that saved the row. -/
structure Row (D : Type) where
  data : D
  expires : ℚ
  writer : Nat

/-- `rotating` is between the two statements of a rotation; it remembers the contents of the
    row that was deleted. -/
inductive Phase (D : Type) where
  | handling (session : D) (rotate : Bool)
  | rotating (session : D) (retired : Option D)
  | ended

/-- `sid` is `_session_sid`, `loaded` the serialization the response is compared with. -/
structure Request (D : Type) where
  sid : Option Sid
  loaded : List UInt8
  phase : Phase D

structure State (D : Type) where
  rows : Sid → Option (Row D)
  now : ℚ
  request : Nat → Option (Request D)
  ids : List Nat
  used : List Sid
  root : Sid → Sid
  retired : List Sid

def State.init : State D := ⟨fun _ => none, 0, fun _ => none, [], [], id, []⟩

/-- `finish` is the first statement of `_after_stored` and `save` the second one of a
    rotation; each brings the id it would mint. -/
inductive Event (D : Type) where
  | load (r : Nat) (cookie : Option Sid)
  | change (r : Nat) (session : D) (rotate : Bool)
  | finish (r : Nat) (token : Sid)
  | save (r : Nat) (token : Sid)
  | abort (r : Nat)
  | revoke (x : Sid)
  | revokeFor (subject : String) (key : Option String) (ns : String)
  | purge
  | tick (d : ℚ)

/-! ## Statements -/

variable (cfg : Config D) (s : State D)

/-- `read(sid, live=True)`. -/
def readLive (x : Sid) : Option D :=
  (s.rows x).bind fun row => if s.now ≤ row.expires then some row.data else none

def State.setRow (x : Sid) (row : Option (Row D)) : State D :=
  { s with rows := update s.rows x row }

variable (r : Nat)

/-- `save`: insert or replace. -/
def saveRow (x : Sid) (data : D) : State D := s.setRow x (some ⟨data, s.now + cfg.maxAge, r⟩)

/-- `save_if_present`: replace a row that is still live. -/
def saveIfPresent (x : Sid) (data : D) : State D :=
  match s.rows x with
  | none => s
  | some row => if s.now < row.expires then saveRow cfg s r x data else s

/-- `touch`: move the deadline of a live row. -/
def touchRow (x : Sid) : State D :=
  match s.rows x with
  | none => s
  | some row =>
    if s.now < row.expires then
      s.setRow x (some { row with expires := s.now + cfg.maxAge })
    else s

def deleteRow (x : Sid) : State D := s.setRow x none

/-- The predicate of `delete_for`. -/
def ofSubject (subject : String) (key : Option String) (ns : String) (data : D) : Bool :=
  cfg.text data (key.getD cfg.sessionKey) "sub" = some subject &&
    (cfg.text data (key.getD cfg.sessionKey) "iss").getD "" = ns

def deleteFor (subject : String) (key : Option String) (ns : String) : State D :=
  { s with rows := fun x => (s.rows x).filter fun row =>
      !ofSubject cfg subject key ns row.data }

/-! ## Requests -/

def State.put (q : Request D) : State D := { s with request := update s.request r (some q) }

def State.ends (q : Request D) : State D := s.put r { q with phase := .ended }

/-- `_before_stored`: only a session the store still has counts. -/
def before (cookie : Option Sid) : State D :=
  match cookie.bind fun x => (readLive s x).map fun data => (x, data) with
  | some (x, data) =>
    { s with ids := r :: s.ids }.put r ⟨some x, cfg.dumps data, .handling data false⟩
  | none =>
    { s with ids := r :: s.ids }.put r ⟨none, cfg.dumps cfg.empty, .handling cfg.empty false⟩

/-- A new id is given out: that of a new session, or of one that had another. -/
def mint (token : Sid) (root : Sid) : State D :=
  { s with used := token :: s.used, root := update s.root token root }

/-- `_after_stored`, up to its first statement. -/
def after (q : Request D) (session : D) (rotate : Bool) (token : Sid) : Option (State D) :=
  let ended := s.ends r q
  if cfg.isEmpty session then
    match q.sid with
    | none => some ended
    | some x => some (deleteRow ended x)
  else
    match q.sid with
    | none =>
      if token ∈ s.used then none
      else some (saveRow cfg (mint ended token token) r token session)
    | some x =>
      if rotate then
        some ((deleteRow { s with retired := x :: s.retired } x).put r
          { q with phase := .rotating session ((s.rows x).map Row.data) })
      else if cfg.dumps session ≠ q.loaded then
        some (saveIfPresent cfg ended r x session)
      else if cfg.touch then some (touchRow cfg ended x)
      else some ended

def step : Event D → Option (State D)
  | .load r cookie =>
    if (s.request r).isSome then none else some (before cfg s r cookie)
  | .change r session rotate => do
      let q ← s.request r
      match q.phase with
      | .handling _ rotate' =>
        some (s.put r { q with phase := .handling session (rotate' || rotate) })
      | _ => none
  | .finish r token => do
      let q ← s.request r
      match q.phase with
      | .handling session rotate => after cfg s r q session rotate token
      | _ => none
  | .save r token => do
      let q ← s.request r
      match q.phase, q.sid with
      | .rotating session _, some x =>
        if token ∈ s.used then none
        else some (saveRow cfg (mint (s.ends r q) token (s.root x)) r token session)
      | _, _ => none
  | .abort r => do
      let q ← s.request r
      match q.phase with
      | .ended => none
      | _ => some (s.ends r q)
  | .revoke x => some (deleteRow s x)
  | .revokeFor subject key ns => some (deleteFor cfg s subject key ns)
  | .purge =>
    some { s with rows := fun x => (s.rows x).filter fun row =>
      s.now ≤ row.expires }
  | .tick d => if 0 ≤ d then some { s with now := s.now + d } else none

/-! ## What a step can do -/

variable {cfg : Config D} {s s' : State D} {e : Event D} {r r' : Nat} {q : Request D} {x y L : Sid}

def Phase.isRotating : Phase D → Bool
  | .rotating _ _ => true
  | _ => false

/-- **EVERYTHING A STEP CAN DO**: the requests, the ids and the rows it touches. -/
inductive Move (cfg : Config D) (s : State D) : Event D → State D → Prop where
  | loads {r : Nat} {cookie sid : Option Sid} {loaded : List UInt8} {session : D}
      (hnew : s.request r = none)
      (hsid : ∀ x, sid = some x → ∃ row, s.rows x = some row) :
      Move cfg s (.load r cookie) ({ s with ids := r :: s.ids }.put r
        ⟨sid, loaded, .handling session false⟩)
  | turns {e : Event D} {r : Nat} {q : Request D} {p : Phase D}
      (hq : s.request r = some q) (hp : p.isRotating = false) :
      Move cfg s e (s.put r { q with phase := p })
  | clears {r : Nat} {token x : Sid} {q : Request D}
      (hq : s.request r = some q) (hsid : q.sid = some x) :
      Move cfg s (.finish r token) (deleteRow (s.ends r q) x)
  | creates {r : Nat} {token : Sid} {q : Request D} {session : D}
      (hq : s.request r = some q) (hsid : q.sid = none)
      (hfresh : token ∉ s.used) :
      Move cfg s (.finish r token) (saveRow cfg (mint (s.ends r q) token token) r token session)
  | retires {r : Nat} {token x : Sid} {q : Request D} {session : D}
      (hq : s.request r = some q) (hphase : q.phase = .handling session true)
      (hempty : cfg.isEmpty session = false) (hsid : q.sid = some x) :
      Move cfg s (.finish r token) ((deleteRow { s with retired := x :: s.retired } x).put r
          { q with phase := .rotating session ((s.rows x).map Row.data) })
  | replaces {r : Nat} {token x : Sid} {q : Request D} {row row' : Row D}
      (hq : s.request r = some q) (hsid : q.sid = some x)
      (hrow : s.rows x = some row)
      (hwriter : row'.writer = r ∨ row'.writer = row.writer) :
      Move cfg s (.finish r token) ((s.ends r q).setRow x (some row'))
  | saves {r : Nat} {token x : Sid} {q : Request D} {session : D}
      (hq : s.request r = some q) (hphase : q.phase.isRotating = true)
      (hsid : q.sid = some x) (hfresh : token ∉ s.used) :
      Move cfg s (.save r token) (saveRow cfg (mint (s.ends r q) token (s.root x)) r token session)
  | shrinks {e : Event D} {rows : Sid → Option (Row D)} {now : ℚ}
      (hsub : ∀ x row, rows x = some row → s.rows x = some row) :
      Move cfg s e { s with rows := rows, now := now }

theorem readLive_some {data : D} (h : readLive s x = some data) : ∃ row, s.rows x = some row := by
  obtain ⟨row, hrow, -⟩ := bind_eq_some_iff.mp h
  exact ⟨row, hrow⟩

theorem before_move {cookie : Option Sid} (hnew : s.request r = none) :
    Move cfg s (.load r cookie) (before cfg s r cookie) := by
  rw [before]
  split
  · rename_i x data hcookie
    obtain ⟨y, -, hread⟩ := bind_eq_some_iff.mp hcookie
    obtain ⟨data', hlive, hpair⟩ := map_eq_some_iff.mp hread
    cases hpair
    refine .loads hnew fun z hz => ?_
    cases hz
    exact readLive_some hlive
  · exact .loads hnew fun z hz => nomatch hz

variable {token : Sid} {session : D}

theorem saveIfPresent_move (hq : s.request r = some q) (hsid : q.sid = some x) :
    Move cfg s (.finish r token) (saveIfPresent cfg (s.ends r q) r x session) := by
  rw [saveIfPresent]
  split
  · exact .turns hq rfl
  · rename_i row hrow
    split
    · exact .replaces hq hsid hrow (.inl rfl)
    · exact .turns hq rfl

theorem touchRow_move (hq : s.request r = some q) (hsid : q.sid = some x) :
    Move cfg s (.finish r token) (touchRow cfg (s.ends r q) x) := by
  rw [touchRow]
  split
  · exact .turns hq rfl
  · rename_i row hrow
    split
    · exact .replaces hq hsid hrow (.inr rfl)
    · exact .turns hq rfl

theorem after_move {rotate : Bool}
    (hq : s.request r = some q) (hph : q.phase = .handling session rotate)
    (h : after cfg s r q session rotate token = some s') : Move cfg s (.finish r token) s' := by
  rw [after] at h
  split at h
  · split at h
    · cases h
      exact .turns hq rfl
    · rename_i x hsid
      cases h
      exact .clears hq hsid
  rename_i hnil
  split at h
  · rename_i hsid
    split at h
    · cases h
    · rename_i hfresh
      cases h
      exact .creates hq hsid hfresh
  rename_i x hsid
  split at h
  · rename_i hrotate
    cases h
    exact .retires hq (hrotate ▸ hph) (by simpa using hnil) hsid
  split at h
  · cases h
    exact saveIfPresent_move hq hsid
  split at h
  · cases h
    exact touchRow_move hq hsid
  · cases h
    exact .turns hq rfl

theorem step_move (h : step cfg s e = some s') : Move cfg s e s' := by
  cases e with
  | load r cookie =>
    rw [step] at h
    split at h
    · cases h
    · rename_i hnew
      cases h
      exact before_move (not_isSome_iff_eq_none.mp hnew)
  | change r session rotate =>
    obtain ⟨q, hq, h⟩ := bind_eq_some_iff.mp h
    split at h
    · cases h
      exact .turns hq rfl
    · cases h
  | finish r token =>
    obtain ⟨q, hq, h⟩ := bind_eq_some_iff.mp h
    split at h
    · rename_i session rotate hph
      exact after_move hq hph h
    · cases h
  | save r token =>
    obtain ⟨q, hq, h⟩ := bind_eq_some_iff.mp h
    split at h
    · rename_i session retired x hph hsid
      split at h
      · cases h
      · rename_i hfresh
        cases h
        exact .saves hq (by rw [hph]; rfl) hsid hfresh
    · cases h
  | abort r =>
    obtain ⟨q, hq, h⟩ := bind_eq_some_iff.mp h
    split at h
    · cases h
    · cases h
      exact .turns hq rfl
  | revoke x =>
    cases h
    exact .shrinks fun y row hy => (erase_cases hy).2
  | revokeFor | purge =>
    cases h
    exact .shrinks fun y row hy => (filter_eq_some_iff.mp hy).1
  | tick d =>
    rw [step] at h
    split at h
    · cases h
      exact .shrinks fun y row hy => hy
    · cases h

/-! ## Sessions and their ids -/

/-- The request is between the two statements of a rotation of `x`. -/
def Rotates (s : State D) (r : Nat) (x : Sid) : Prop :=
  ∃ q, s.request r = some q ∧ q.phase.isRotating = true ∧ q.sid = some x

/-- A session has one id that is not retired; that id alone may have a row, and while the
    session is being rotated none has. -/
structure Sound (s : State D) : Prop where
  ids : ∀ r q, s.request r = some q → r ∈ s.ids
  held : ∀ r q x, s.request r = some q → q.sid = some x → x ∈ s.used
  root : ∀ x ∈ s.used, s.root x ∈ s.used
  spent : ∀ x ∈ s.retired, x ∈ s.used
  rows : ∀ x row, s.rows x = some row → x ∈ s.used ∧ x ∉ s.retired
  writer : ∀ x row, s.rows x = some row → ∃ q, s.request row.writer = some q ∧
      ∀ y, q.sid = some y → s.root x = s.root y
  one : ∀ x ∈ s.used, ∀ y ∈ s.used, x ∉ s.retired → y ∉ s.retired → s.root x = s.root y → x = y
  rotating : ∀ r x, Rotates s r x → ∀ y ∈ s.used, s.root y = s.root x → y ∈ s.retired
  apart : ∀ r r' x x', Rotates s r x → Rotates s r' x' → s.root x = s.root x' → r = r'

theorem Sound.init : Sound (State.init : State D) where
  ids _ _ h := nomatch h
  held _ _ _ h := nomatch h
  root _ h := nomatch h
  spent _ h := nomatch h
  rows _ _ h := nomatch h
  writer _ _ h := nomatch h
  one _ h := nomatch h
  rotating _ _ h := by
    obtain ⟨q, hq, -⟩ := h
    cases hq
  apart _ _ _ _ h := by
    obtain ⟨q, hq, -⟩ := h
    cases hq

theorem put_rotates {i : Nat} (h : Rotates (s.put r q) i y) :
    (i = r ∧ q.phase.isRotating = true ∧ q.sid = some y) ∨ (i ≠ r ∧ Rotates s i y) := by
  obtain ⟨q', hq', hph, hsid⟩ := h
  rcases set_cases hq' with ⟨rfl, rfl⟩ | ⟨hne, hold⟩
  · exact .inl ⟨rfl, hph, hsid⟩
  · exact .inr ⟨hne, q', hold, hph, hsid⟩

/-- A request goes on. When it begins to rotate a session, all the ids of that are retired
    and nobody else rotates it. -/
theorem Sound.put (h : Sound s) (hid : r ∈ s.ids) (hheld : ∀ x, q.sid = some x → x ∈ s.used)
    (hsame : ∀ q₀, s.request r = some q₀ → q.sid = q₀.sid)
    (hrot : q.phase.isRotating = true → ∀ x, q.sid = some x →
      (∀ y ∈ s.used, s.root y = s.root x → y ∈ s.retired) ∧
        ∀ i y, Rotates s i y → s.root y ≠ s.root x) : Sound (s.put r q) := by
  refine ⟨?_, ?_, h.root, h.spent, h.rows, ?_, h.one, ?_, ?_⟩
  · exact set_all hid h.ids
  · exact fun i q' x => set_all (hheld x) (fun i q hq => h.held i q x hq) i q'
  · intro x row hrow
    obtain ⟨q₁, hq₁, hroot⟩ := h.writer x row hrow
    by_cases hw : row.writer = r
    · rw [hw] at hq₁ ⊢
      exact ⟨q, update_self .., fun y hy => hroot y ((hsame q₁ hq₁).symm.trans hy)⟩
    · exact ⟨q₁, (update_of_ne hw ..).trans hq₁, hroot⟩
  · intro i x hi
    rcases put_rotates hi with ⟨-, hph, hsid⟩ | ⟨-, hi⟩
    · exact (hrot hph x hsid).1
    · exact h.rotating i x hi
  · intro i j x y hi hj heq
    rcases put_rotates hi with ⟨hi, hph, hsid⟩ | ⟨-, hi⟩
    · rcases put_rotates hj with ⟨hj, -⟩ | ⟨-, hj⟩
      · exact hi.trans hj.symm
      · exact absurd heq.symm ((hrot hph x hsid).2 j y hj)
    · rcases put_rotates hj with ⟨-, hph, hsid⟩ | ⟨-, hj⟩
      · exact absurd heq ((hrot hph y hsid).2 i x hi)
      · exact h.apart i j x y hi hj heq

/-- A request goes on without a statement. -/
theorem Sound.turn (h : Sound s) {p : Phase D} (hq : s.request r = some q)
    (hp : p.isRotating = false) : Sound (s.put r { q with phase := p }) := by
  refine h.put (h.ids _ _ hq) (fun x hx => h.held _ _ x hq hx) (fun q₀ hq₀ => ?_)
    fun hr => nomatch hp.symm.trans hr
  cases hq.symm.trans hq₀
  rfl

variable {rows : Sid → Option (Row D)}

/-- Rows go. -/
theorem Sound.shrink (h : Sound s) {now : ℚ}
    (hsub : ∀ x row, rows x = some row → s.rows x = some row) :
    Sound { s with rows := rows, now := now } :=
  { h with
    rows := fun x row hx => h.rows x row (hsub x row hx)
    writer := fun x row hx => h.writer x row (hsub x row hx) }

variable {row : Row D}

/-- A row that is there is written again. -/
theorem Sound.replace (h : Sound s) {row' : Row D} (hrow : s.rows x = some row)
    (hwriter : ∃ q, s.request row'.writer = some q ∧ ∀ y, q.sid = some y → s.root x = s.root y) :
    Sound (s.setRow x (some row')) := by
  refine { h with rows := ?_, writer := ?_ }
  · exact set_all (h.rows x row hrow) h.rows
  · exact set_all hwriter h.writer

theorem mint_root (hx : x ∈ s.used) (hfresh : token ∉ s.used) :
    (mint s token L).root x = s.root x :=
  update_of_ne (ne_of_mem_of_not_mem hx hfresh) ..

/-- A row under a new id: of a new session, or of one that has no row and that nobody rotates. -/
theorem Sound.mint (h : Sound s) (hfresh : token ∉ s.used)
    (hroot : L = token ∨ (L ∈ s.used ∧ ∀ y ∈ s.used, s.root y = L → y ∈ s.retired))
    (hnobody : ∀ r x, Rotates s r x → s.root x ≠ L)
    (hwriter : ∃ q, s.request row.writer = some q ∧ ∀ y, q.sid = some y → s.root y = L) :
    Sound ((mint s token L).setRow token (some row)) := by
  have hself : (Session.mint s token L).root token = L := update_self ..
  have hold : ∀ x ∈ s.used, (Session.mint s token L).root x = s.root x :=
    fun x hx => mint_root hx hfresh
  have hheld : ∀ {r x}, Rotates s r x → x ∈ s.used := by
    rintro r x ⟨q, hq, -, hsid⟩
    exact h.held r q x hq hsid
  -- an id that is not retired belongs to another session than the new one
  have hother : ∀ x ∈ s.used, x ∉ s.retired → s.root x ≠ L := by
    intro x hx hxr hxL
    rcases hroot with rfl | ⟨-, hall⟩
    · exact hfresh (hxL ▸ h.root x hx)
    · exact hxr (hall x hx hxL)
  refine ⟨h.ids, ?_, ?_, fun x hx => mem_cons_of_mem _ (h.spent x hx), ?_, ?_, ?_, ?_, ?_⟩
  · intro r q x hq hsid
    exact mem_cons_of_mem _ (h.held r q x hq hsid)
  · intro x hx
    rcases mem_cons.mp hx with rfl | hx
    · show (Session.mint s x L).root x ∈ _
      rw [hself]
      rcases hroot with rfl | ⟨hL, -⟩
      · exact mem_cons_self
      · exact mem_cons_of_mem _ hL
    · show (Session.mint s token L).root x ∈ _
      rw [hold x hx]
      exact mem_cons_of_mem _ (h.root x hx)
  · intro x row₁ hx
    rcases set_cases hx with ⟨rfl, -⟩ | ⟨-, hx⟩
    · exact ⟨mem_cons_self, fun hmem => hfresh (h.spent x hmem)⟩
    · obtain ⟨hused, hret⟩ := h.rows x row₁ hx
      exact ⟨mem_cons_of_mem _ hused, hret⟩
  · intro x row₁ hx
    rcases set_cases hx with ⟨rfl, rfl⟩ | ⟨-, hx⟩
    · obtain ⟨q, hq, hsid⟩ := hwriter
      refine ⟨q, hq, fun y hy => ?_⟩
      show (Session.mint s x L).root x = (Session.mint s x L).root y
      rw [hself, hold y (h.held _ q y hq hy)]
      exact (hsid y hy).symm
    · obtain ⟨q, hq, hsid⟩ := h.writer x row₁ hx
      refine ⟨q, hq, fun y hy => ?_⟩
      show (Session.mint s token L).root x = (Session.mint s token L).root y
      rw [hold x (h.rows x row₁ hx).1, hold y (h.held _ q y hq hy)]
      exact hsid y hy
  · intro x hx y hy hxr hyr heq
    rcases mem_cons.mp hx with rfl | hx'
    · rcases mem_cons.mp hy with rfl | hy'
      · rfl
      · exact absurd ((hold y hy').symm.trans (heq.symm.trans hself)) (hother y hy' hyr)
    · rcases mem_cons.mp hy with rfl | hy'
      · exact absurd ((hold x hx').symm.trans (heq.trans hself)) (hother x hx' hxr)
      · exact h.one x hx' y hy' hxr hyr ((hold x hx').symm.trans (heq.trans (hold y hy')))
  · intro r x hr y hy heq
    have hx := (hold x (hheld hr)).symm
    rcases mem_cons.mp hy with rfl | hy
    · exact absurd (hx.trans (heq.symm.trans hself)) (hnobody r x hr)
    · exact h.rotating r x hr y hy ((hold y hy).symm.trans (heq.trans hx.symm))
  · intro r r' x x' hr hr' heq
    exact h.apart r r' x x' hr hr' ((hold x (hheld hr)).symm.trans
      (heq.trans (hold x' (hheld hr'))))

/-- A rotation finds the row of the id it retires. -/
theorem Sound.retire (h : Sound s) {d : Option D}
    (hq : s.request r = some q) (hsid : q.sid = some x) (hrow : s.rows x = some row) :
    Sound ((deleteRow { s with retired := x :: s.retired } x).put r
      { q with phase := .rotating session d }) := by
  obtain ⟨hused, hfree⟩ := h.rows x row hrow
  have hretired : Sound (deleteRow { s with retired := x :: s.retired } x) := { h with
    spent := forall_mem_cons.mpr ⟨hused, h.spent⟩
    rows := fun y row₁ hy => by
      obtain ⟨hne, hy⟩ := erase_cases hy
      obtain ⟨hyused, hyfree⟩ := h.rows y row₁ hy
      exact ⟨hyused, fun hmem => (mem_cons.mp hmem).elim hne hyfree⟩
    writer := fun y row₁ hy => h.writer y row₁ (erase_cases hy).2
    one := fun y hy z hz hyr hzr => h.one y hy z hz (fun hmem => hyr (mem_cons_of_mem _ hmem))
      fun hmem => hzr (mem_cons_of_mem _ hmem)
    rotating := fun i y hi z hz heq => mem_cons_of_mem _ (h.rotating i y hi z hz heq) }
  refine hretired.put (h.ids _ _ hq) (fun y hy => h.held _ _ y hq hy) (fun q₀ hq₀ => ?_)
    fun _ y hy => ?_
  · cases hq.symm.trans hq₀
    rfl
  · cases hsid.symm.trans hy
    refine ⟨fun z hz heq => ?_, fun i y hi heq => hfree (h.rotating i y hi x hused heq.symm)⟩
    by_cases hzr : z ∈ s.retired
    · exact mem_cons_of_mem _ hzr
    · exact mem_cons.mpr (.inl (h.one z hz x hused hzr hfree heq))

/-! ## Orderly rotations -/

/-- The contents a rotation has deleted and not saved yet. -/
def Phase.lost : Phase D → Option D
  | .rotating _ retired => retired
  | _ => none

/-- A request that clears its session names an id that is not retired, and one that rotates
    finds the row it retires. -/
def finishes (cfg : Config D) (s : State D) (q : Request D) : Bool :=
  match q.phase, q.sid with
  | .handling session rotate, some x =>
    if cfg.isEmpty session then !s.retired.contains x
    else !rotate || (s.rows x).isSome
  | _, _ => true

/-- The condition on a step: beside the above, no revocation names a retired id, and none is
    for a session between the statements of a rotation. -/
def Orderly (cfg : Config D) (s : State D) : Event D → Prop
  | .revoke x => x ∉ s.retired
  | .finish r _ => ∀ q ∈ s.request r, finishes cfg s q = true
  | .revokeFor subject key ns => ∀ i ∈ s.ids, ∀ q ∈ s.request i,
      ∀ d ∈ q.phase.lost, ofSubject cfg subject key ns d = false
  | _ => True

instance (cfg : Config D) (s : State D) : (e : Event D) → Decidable (Orderly cfg s e)
  | .revoke _ => inferInstanceAs (Decidable (_ ∉ _))
  | .finish r _ => inferInstanceAs (Decidable (∀ q ∈ s.request r, _))
  | .revokeFor .. => inferInstanceAs (Decidable (∀ i ∈ s.ids, _))
  | .load .. | .change .. | .save .. | .abort .. | .purge | .tick .. =>
    isTrue trivial

theorem finishes_rotate (h : finishes cfg s q = true) (hph : q.phase = .handling session true)
    (hnil : cfg.isEmpty session = false) (hsid : q.sid = some x) : ∃ row, s.rows x = some row := by
  rw [finishes, hph, hsid] at h
  simp only [hnil, Bool.false_eq_true, if_false, Bool.not_true, Bool.false_or] at h
  exact isSome_iff_exists.mp h

theorem finishes_clear {rotate : Bool} (h : finishes cfg s q = true)
    (hph : q.phase = .handling session rotate)
    (hnil : cfg.isEmpty session = true) (hsid : q.sid = some x) : x ∉ s.retired := by
  rw [finishes, hph, hsid] at h
  simpa [hnil] using h

theorem Sound.move (h : Sound s) (hguard : Orderly cfg s e)
    (hmove : Move cfg s e s') : Sound s' := by
  cases hmove with
  | @loads r cookie sid loaded session hnew hsid =>
    refine Sound.put (s := { s with ids := r :: s.ids })
      { h with ids := fun i q' hq' => mem_cons_of_mem _ (h.ids i q' hq') } mem_cons_self
      (fun y hy => ?_) (fun q₀ hq₀ => nomatch hnew.symm.trans hq₀) nofun
    obtain ⟨row, hrow⟩ := hsid y hy
    exact (h.rows y row hrow).1
  | turns hq hp => exact h.turn hq hp
  | clears hq hsid =>
    exact (h.turn hq rfl).shrink fun y row hy => (erase_cases hy).2
  | @creates r token q session hq hsid hfresh =>
    have hended := h.turn hq (p := .ended) rfl
    refine hended.mint hfresh (.inl rfl) ?_ ?_
    · rintro i x hi rfl
      obtain ⟨q', hq', -, hx⟩ := hi
      exact hfresh (h.root x (hended.held i q' x hq' hx))
    · exact ⟨_, update_self .., fun y hy =>
        nomatch hsid.symm.trans hy⟩
  | @retires r token x q session hq hph hnil hsid =>
    obtain ⟨row, hrow⟩ := finishes_rotate (hguard q hq) hph hnil hsid
    exact h.retire hq hsid hrow
  | @replaces r token x q row row' hq hsid hrow hwriter =>
    refine (h.turn hq rfl).replace hrow ?_
    rcases hwriter with hw | hw
    · rw [hw]
      refine ⟨_, update_self .., fun y hy => ?_⟩
      exact congrArg s.root (some.inj (hsid.symm.trans hy))
    · obtain ⟨q₁, hq₁, hroot⟩ := h.writer x row hrow
      obtain ⟨q₂, hq₂, hsame⟩ := set_keeps Request.sid { q with phase := .ended } hq rfl hq₁
      exact ⟨q₂, hw ▸ hq₂, fun y hy => hroot y (hsame ▸ hy)⟩
  | @saves r token x q session hq hph hsid hfresh =>
    have hended := h.turn hq (p := .ended) rfl
    have hrot : Rotates s r x := ⟨q, hq, hph, hsid⟩
    refine hended.mint hfresh (.inr ⟨h.root x (h.held r q x hq hsid), h.rotating r x hrot⟩) ?_ ?_
    · intro i y hi heq
      rcases put_rotates hi with ⟨-, hended, -⟩ | ⟨hne, hi⟩
      · cases hended
      · exact hne (h.apart i r y x hi hrot heq)
    · refine ⟨_, update_self .., fun y hy => ?_⟩
      exact congrArg s.root (some.inj (hy.symm.trans hsid))
  | shrinks hsub => exact h.shrink hsub

/-! ## Revoked sessions -/

/-- What a step revokes: the session of an id that is deleted, or one whose row, also a row
    that a rotation is about to write again, is of the subject. -/
def Revokes (cfg : Config D) (s : State D) (L : Sid) : Event D → Prop
  | .revoke x => x ∈ s.used ∧ s.root x = L
  | .finish r _ => ∃ q x session rotate, s.request r = some q ∧
      q.sid = some x ∧ q.phase = .handling session rotate ∧
      cfg.isEmpty session = true ∧ s.root x = L
  | .revokeFor subject key ns =>
    (∃ x row, s.rows x = some row ∧ ofSubject cfg subject key ns row.data = true ∧ s.root x = L) ∨
    ∃ r q x d, s.request r = some q ∧ q.sid = some x ∧
      q.phase.lost = some d ∧ ofSubject cfg subject key ns d = true ∧
      s.root x = L
  | _ => False

/-- No id of the session has a row, and nobody is about to write one. -/
structure Dead (s : State D) (L : Sid) : Prop where
  used : L ∈ s.used
  rows : ∀ x row, s.rows x = some row → s.root x ≠ L
  rotating : ∀ r x, Rotates s r x → s.root x ≠ L

/-- The session of an id that is not retired dies with the row of that id. -/
theorem Sound.dead (h : Sound s) (hx : x ∈ s.used) (hfree : x ∉ s.retired)
    (hsub : ∀ y row, rows y = some row → y ≠ x ∧ s.rows y = some row) :
    Dead { s with rows := rows } (s.root x) := by
  refine ⟨h.root x hx, ?_, ?_⟩
  · intro y row hy heq
    obtain ⟨hne, hold⟩ := hsub y row hy
    obtain ⟨hyused, hyfree⟩ := h.rows y row hold
    exact hne (h.one y hyused x hx hyfree hfree heq)
  · intro i y hi heq
    exact hfree (h.rotating i y hi x hx heq.symm)

theorem Dead.revoked (h : Sound s) (hguard : Orderly cfg s e)
    (hrevokes : Revokes cfg s L e) (hstep : step cfg s e = some s') : Dead s' L := by
  cases e with
  | load | change | save | abort | purge | tick => exact hrevokes.elim
  | revoke x =>
    obtain ⟨hx, rfl⟩ := hrevokes
    cases hstep
    exact h.dead hx hguard fun y row hy => erase_cases hy
  | finish r token =>
    obtain ⟨q, x, session, rotate, hq, hsid, hph, hnil, rfl⟩ := hrevokes
    have hfree := finishes_clear (hguard q hq) hph hnil hsid
    rw [step, hq] at hstep
    dsimp only [bind_some, bind] at hstep
    rw [hph] at hstep
    dsimp only at hstep
    rw [after, if_pos hnil] at hstep
    split at hstep
    · rename_i hnone
      exact nomatch hnone.symm.trans hsid
    rename_i x' hsid'
    cases hsid.symm.trans hsid'
    cases hstep
    exact (h.turn (p := .ended) hq rfl).dead (h.held r q x hq hsid) hfree
      fun y row hy => erase_cases hy
  | revokeFor subject key ns =>
    cases hstep
    rcases hrevokes with ⟨x, row, hrow, hof, rfl⟩ | ⟨r, q, x, d, hq, hsid, hlost, hof, -⟩
    · obtain ⟨hx, hfree⟩ := h.rows x row hrow
      refine h.dead hx hfree fun y row' hy => ?_
      obtain ⟨hold, hkept⟩ := filter_eq_some_iff.mp hy
      refine ⟨?_, hold⟩
      rintro rfl
      cases hrow.symm.trans hold
      rw [hof] at hkept
      cases hkept
    · exact nomatch hof.symm.trans (hguard r (h.ids r q hq) q hq d hlost)

theorem Dead.put (h : Dead s L) (hrot : q.phase.isRotating = true → ∀ x, q.sid = some x →
      s.root x ≠ L) : Dead (s.put r q) L := by
  refine ⟨h.used, h.rows, fun i y hi => ?_⟩
  rcases put_rotates hi with ⟨-, hph, hsid⟩ | ⟨-, hi⟩
  · exact hrot hph y hsid
  · exact h.rotating i y hi

/-- A new id is of a session that is not dead. -/
theorem Dead.mint (hdead : Dead s L) (h : Sound s) {root : Sid} (hfresh : token ∉ s.used)
    (hroot : root ≠ L) : Dead ((mint s token root).setRow token (some row)) L := by
  refine ⟨mem_cons_of_mem _ hdead.used, ?_, ?_⟩
  · intro y row₁ hy
    rcases set_cases hy with ⟨rfl, -⟩ | ⟨-, hy⟩
    · exact fun heq => hroot ((update_self ..).symm.trans heq)
    · exact fun heq => hdead.rows y row₁ hy ((mint_root (h.rows y row₁ hy).1 hfresh).symm.trans heq)
  · rintro i y ⟨q, hq, hph, hsid⟩ heq
    exact hdead.rotating i y ⟨q, hq, hph, hsid⟩
      ((mint_root (h.held i q y hq hsid) hfresh).symm.trans heq)

/-- A dead session stays dead. -/
theorem Dead.move (h : Sound s) (hdead : Dead s L) (hguard : Orderly cfg s e)
    (hmove : Move cfg s e s') : Dead s' L := by
  -- a request that goes on does not become a rotation
  have hturn : ∀ {r : Nat} {q : Request D} {p : Phase D}, p.isRotating = false →
      Dead (s.put r { q with phase := p }) L :=
    fun hp => hdead.put fun hr => nomatch hp.symm.trans hr
  cases hmove with
  | loads hnew hsid => exact Dead.put (s := { s with ids := _ }) { hdead with } nofun
  | turns hq hp => exact hturn hp
  | @clears r token x q hq hsid =>
    have hd : Dead (s.ends r q) L := hturn rfl
    exact { hd with rows := fun y row hy => hd.rows y row (erase_cases hy).2 }
  | creates hq hsid hfresh =>
    exact (hturn rfl).mint (h.turn hq rfl) hfresh (ne_of_mem_of_not_mem hdead.used hfresh).symm
  | @retires r token x q session hq hph hnil hsid =>
    obtain ⟨row, hrow⟩ := finishes_rotate (hguard q hq) hph hnil hsid
    refine Dead.put (s := deleteRow { s with retired := x :: s.retired } x)
      { hdead with rows := fun y row hy => hdead.rows y row (erase_cases hy).2 } fun _ y hy => ?_
    cases hsid.symm.trans hy
    exact hdead.rows x row hrow
  | @replaces r token x q row row' hq hsid hrow hwriter =>
    have hd : Dead (s.ends r q) L := hturn rfl
    exact { hd with rows := set_all (hdead.rows _ _ hrow) hdead.rows }
  | saves hq hph hsid hfresh =>
    exact (hturn rfl).mint (h.turn hq rfl) hfresh (hdead.rotating _ _ ⟨_, hq, hph, hsid⟩)
  | shrinks hsub =>
    exact { hdead with rows := fun y row hy => hdead.rows y row (hsub y row hy) }

/-- The request came with an id of the session. -/
structure Came (r : Nat) (x L : Sid) (s : State D) : Prop where
  request : ∃ q, s.request r = some q ∧ q.sid = some x
  used : x ∈ s.used
  root : s.root x = L

theorem Came.move (h : Came r x L s) (hmove : Move cfg s e s') : Came r x L s' := by
  obtain ⟨q₀, hq₀, hsid₀⟩ := h.request
  -- a request keeps its id whatever becomes of it
  have hput : ∀ {i : Nat} {q : Request D} (p : Phase D), s.request i = some q →
      ∃ q', (s.put i { q with phase := p }).request r = some q' ∧ q'.sid = some x := by
    intro i q p hq
    obtain ⟨q', hq', hsame⟩ := set_keeps Request.sid { q with phase := p } hq rfl hq₀
    exact ⟨q', hq', hsame.trans hsid₀⟩
  have hmint : ∀ {token root : Sid}, token ∉ s.used → (mint s token root).root x = L :=
    fun hfresh => (mint_root h.used hfresh).trans h.root
  cases hmove with
  | @loads i cookie sid loaded session hnew hsid =>
    have hne : r ≠ i := by
      rintro rfl
      exact nomatch hnew.symm.trans hq₀
    exact ⟨⟨q₀, (update_of_ne hne ..).trans hq₀, hsid₀⟩, h.used, h.root⟩
  | turns hq hp => exact ⟨hput _ hq, h.used, h.root⟩
  | clears hq hsid => exact ⟨hput _ hq, h.used, h.root⟩
  | creates hq hsid hfresh =>
    exact ⟨hput _ hq, mem_cons_of_mem _ h.used, hmint hfresh⟩
  | retires hq hph hnil hsid => exact ⟨hput _ hq, h.used, h.root⟩
  | replaces hq hsid hrow hwriter => exact ⟨hput _ hq, h.used, h.root⟩
  | saves hq hph hsid hfresh =>
    exact ⟨hput _ hq, mem_cons_of_mem _ h.used, hmint hfresh⟩
  | shrinks hsub => exact { h with }

/-- An id that a rotation retired has no row. -/
theorem Sound.retired_gone (h : Sound s) (x : Sid) (hx : x ∈ s.retired) : s.rows x = none := by
  cases hrow : s.rows x with
  | none => rfl
  | some row => exact absurd hx (h.rows x row hrow).2

/-- **A REVOCATION IS FINAL**: no id that a rotation retired has a row in any run; and after a
    revocation no row is of a request that had loaded the session before, under whatever id. -/
theorem revocation_final {es : List (Event D)} {s₀ : State D}
    (hbefore : exec (guarded (Orderly cfg) (step cfg)) State.init es = some s₀) :
    (∀ x ∈ s₀.retired, s₀.rows x = none) ∧
    ∀ L e es' s, Revokes cfg s₀ L e →
      exec (guarded (Orderly cfg) (step cfg)) s₀ (e :: es') = some s →
      (∀ r q x, s₀.request r = some q → q.sid = some x → s₀.root x = L →
        ∀ y row, s.rows y = some row → row.writer ≠ r) ∧
      ∀ x ∈ s.retired, s.rows x = none := by
  have hsteps : ∀ s e s', Sound s → Orderly cfg s e → step cfg s e = some s' →
      Sound s' := fun _ _ _ h hg hs => h.move hg (step_move hs)
  have hsound₀ := exec_guarded_invariant hsteps Sound.init hbefore
  refine ⟨hsound₀.retired_gone, fun L e es' s hrevokes hafter => ?_⟩
  have hsound := exec_guarded_invariant hsteps hsound₀ hafter
  have hdead : Dead s L := by
    rw [exec] at hafter
    split at hafter
    · cases hafter
    rename_i s₁ hs₁
    obtain ⟨hguard, hstep⟩ := guarded_some hs₁
    have hmoves : ∀ s e s', Sound s ∧ Dead s L → Orderly cfg s e →
        step cfg s e = some s' → Sound s' ∧ Dead s' L := by
      rintro s e s' ⟨hs, hd⟩ hg hst
      exact ⟨hs.move hg (step_move hst), hd.move hs hg (step_move hst)⟩
    exact (exec_guarded_invariant hmoves ⟨hsteps _ _ _ hsound₀ hguard hstep,
      Dead.revoked hsound₀ hguard hrevokes hstep⟩ hafter).2
  refine ⟨?_, hsound.retired_gone⟩
  rintro r q x hq hsid hroot y row hrow rfl
  have hcame : Came row.writer x L s :=
    exec_guarded_invariant (fun _ _ _ hc _ hs => Came.move hc (step_move hs))
      ⟨⟨q, hq, hsid⟩, hsound₀.held _ q x hq hsid, hroot⟩ hafter
  obtain ⟨q', hq', hsame⟩ := hsound.writer y row hrow
  obtain ⟨q₁, hq₁, hsid₁⟩ := hcame.request
  cases hq₁.symm.trans hq'
  exact hdead.rows y row hrow ((hsame x hsid₁).trans hcame.root)

/-- Contents that are the name of a principal; none is the empty text. -/
def nameContents : Config String where
  dumps data := data.toByteArray.data.toList
  empty := ""
  isEmpty data := data = ""
  text data key field := if key = "principal" ∧ field = "sub" then some data else none
  maxAge := 600
  sessionKey := "principal"
  touch := false

/-- A session is created, and a second request has loaded it and asked for a rotation. -/
def rotationAsked : List (Event String) :=
  [.load 0 none, .change 0 "ada" false, .finish 0 "a", .load 1 (some "a"), .change 1 "ada" true]

/-- The rotation is through when the session is revoked, by its new id. -/
theorem revocation_final_rotated : ∃ s₀ s, exec (guarded (Orderly nameContents) (step nameContents))
        State.init (rotationAsked ++ [.finish 1 "b", .save 1 "b"]) = some s₀ ∧
      exec (guarded (Orderly nameContents) (step nameContents)) s₀
        [.revoke "b", .load 2 (some "b")] = some s ∧
      (∀ r q x, s₀.request r = some q → q.sid = some x → s₀.root x = "a" →
        ∀ y row, s.rows y = some row → row.writer ≠ r) ∧
      ∀ x ∈ s.retired, s.rows x = none := by
  refine runs_end (fun s₀ _ => (s₀.used, s₀.root "b")) (["b", "a"], "a") (by decide +kernel)
    fun s₀ s hbefore hafter hfields => ?_
  obtain ⟨hused, hroot⟩ := Prod.mk.inj hfields
  have hrevokes : Revokes nameContents s₀ "a" (.revoke "b") := ⟨by rw [hused]; simp, hroot⟩
  exact (revocation_final hbefore).2 _ _ _ _ hrevokes hafter

/-- **REVOKED AND ROTATED**: the session is revoked while a request that rotates it holds
    it, and the rotation writes it under a new id. -/
theorem revoked_and_rotated : ∃ s₀ s, exec (step nameContents) State.init rotationAsked = some s₀ ∧
      Revokes nameContents s₀ "a" (.revoke "a") ∧
      exec (step nameContents) s₀ [.revoke "a", .finish 1 "b", .save 1 "b"] = some s ∧
      (∃ q, s₀.request 1 = some q ∧ q.sid = some "a") ∧ s₀.root "a" = "a" ∧
      ∃ row, s.rows "b" = some row ∧ s.now ≤ row.expires ∧ row.writer = 1 := by
  have hruns : (exec (step nameContents) State.init rotationAsked).bind
        (fun s₀ => (exec (step nameContents) s₀
          [.revoke "a", .finish 1 "b", .save 1 "b"]).map fun s =>
            (s₀.used, s₀.root "a", (s₀.request 1).bind Request.sid, (s.rows "b").map fun row =>
                decide (s.now ≤ row.expires ∧ row.writer = 1))) =
        some (["a"], "a", some "a", some true) := by
    decide +kernel
  obtain ⟨s₀, hbefore, hrest⟩ := bind_eq_some_iff.mp hruns
  obtain ⟨s, hafter, hfields⟩ := map_eq_some_iff.mp hrest
  simp only [Prod.mk.injEq] at hfields
  obtain ⟨hused, hroot, hsid, hrow⟩ := hfields
  obtain ⟨row, hrow, hleft⟩ := map_eq_some_iff.mp hrow
  exact ⟨s₀, s, hbefore, ⟨by rw [hused]; simp, hroot⟩, hafter,
    bind_eq_some_iff.mp hsid, hroot, row, hrow, of_decide_eq_true hleft⟩

end Session
