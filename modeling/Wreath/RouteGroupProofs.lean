import Wreath.RouteMatchProofs

/-! # Groups lose no route — the compiled index against the routes it holds

The index of a group answers a path with a set of survivors. It may let a route survive that
does not match, which `verify` decides, but must not drop one that does: every table still
finds each literal under its own key, with the bit of every route that has it
(`Positions.addRoutes_accepts`). So the survivors that match are the routes that match, in
the order of priority (`survivors_filter`). -/

namespace RouteGroup

open ByteScan RouteAccess RouteTable RouteMatch List ProbeTable

variable {H : Type}

/-! ## One position's table -/

variable {slots : Slots Bytes Nat}

/-- Packed or not, a literal is found under its own key. -/
theorem maskmapTryDisc_get (hsound : ProbeTable.Sound hashHome slots) {literal : Bytes} {slot : Nat}
    (hmem : some (literal, slot) ∈ slots) :
    maskmapGet (maskmapTryDisc slots) literal = some slot := by
  have hexact : maskmapGet (.exact slots) literal = some slot := lookup_stored hsound.reach hmem
  rw [maskmapTryDisc]
  cases hoff : discChoose ((entries slots).map (·.1)) with
  | none => exact hexact
  | some off =>
    simp only
    cases hfresh : rekey mixHome (vacant UInt64 Nat slots.length)
        ((entries slots).map fun e => (discKey off e.1, e.2)) with
    | none => exact hexact
    | some fresh =>
      have hroom : load (vacant UInt64 Nat slots.length)
          + ((entries slots).map fun e => (discKey off e.1, e.2)).length
          ≤ (vacant UInt64 Nat slots.length).length := by
        rw [load_vacant, length_vacant, length_map, length_entries]
        have := hsound.half
        omega
      obtain ⟨hreach, -, hkept⟩ := rekey_spec mixHome _
        (reachable_vacant mixHome slots.length) hroom hfresh
      refine lookup_stored hreach (hkept (discKey off literal, slot) (.inl ?_))
      exact mem_map.mpr ⟨(literal, slot), mem_entries.mpr hmem, rfl⟩

/-! ## Adding the routes -/

/-- The tables of `nseg` positions, in good order. -/
structure Positions.Sound (nseg : Nat) (g : Positions) : Prop where
  literals : g.literal.length = nseg
  params : g.param.length = nseg
  tables : ∀ slots ∈ g.literal, ProbeTable.Sound hashHome slots
  pooled : ∀ slots ∈ g.literal, ∀ e, some e ∈ slots → e.2 < g.pool.length

/-- Route `i` is on record for its segment at position `p`. -/
def Positions.Accepts (g : Positions) (i p : Nat) : Segment → Prop
  | .param _ => (g.param.getD p 0).testBit i = true
  | .literal bytes => ∃ slot, some (bytes, slot) ∈ g.literal.getD p []
      ∧ (g.pool.getD slot 0).testBit i = true

/-- Nothing on record in `g` is missing in `g'`. -/
def Positions.Keeps (g g' : Positions) : Prop := ∀ i p seg, Accepts g i p seg → Accepts g' i p seg

/-- From `g` to `g'`, route `i` is put on record for its segment at `p`. -/
def Positions.Interns (nseg : Nat) (g g' : Positions) (i p : Nat) (seg : Segment) : Prop :=
  Positions.Sound nseg g' ∧ Accepts g' i p seg ∧ Keeps g g'

theorem sound_replicate (nseg : Nat) :
    Positions.Sound nseg ⟨List.replicate nseg [], List.replicate nseg 0, []⟩ where
  literals := length_replicate
  params := length_replicate
  tables := fun slots h => by
    rw [eq_of_mem_replicate h]
    exact ⟨nofun, Nat.zero_le _⟩
  pooled := fun slots h e he => by
    rw [eq_of_mem_replicate h] at he
    cases he

theorem getD_snoc_zero (l : List Nat) (k : Nat) : (l ++ [0]).getD k 0 = l.getD k 0 := by
  rcases lt_trichotomy k l.length with h | rfl | h
  · exact getD_append _ _ _ _ h
  · simp
  · rw [getD_eq_default _ _ (by simp; omega), getD_eq_default _ _ h.le]

/-- A mask of the list gets a bit, and none loses one. -/
theorem getD_mark {l : List Nat} {j : Nat} (hj : j < l.length) (i : Nat) :
    ((l.modify j (· ||| 1 <<< i)).getD j 0).testBit i = true
      ∧ ∀ q k, (l.getD q 0).testBit k = true →
        ((l.modify j (· ||| 1 <<< i)).getD q 0).testBit k = true := by
  have hbit : ∀ mask k, (mask ||| 1 <<< i).testBit k = (mask.testBit k || decide (i = k)) :=
    fun mask k => by rw [Nat.testBit_or, Nat.one_shiftLeft, Nat.testBit_two_pow]
  refine ⟨by simp [hj, hbit], fun q k hk => ?_⟩
  by_cases hq : j = q
  · subst hq
    simp_all
  · simpa [hq] using hk

variable {p : Nat} {nseg : Nat} {i : Nat} {g : Positions}

theorem Positions.intern_param (hg : Sound nseg g) (hp : p < nseg) (name : Bytes) :
    Interns nseg g (g.intern i p (.param name)) i p (.param name) := by
  have hlt : p < g.param.length := hg.params.symm ▸ hp
  obtain ⟨hmarked, hkept⟩ := getD_mark hlt i
  refine ⟨⟨hg.literals, ?_, hg.tables, hg.pooled⟩, hmarked, ?_⟩
  · exact (length_modify ..).trans hg.params
  · intro k q seg hseg
    cases seg with
    | literal bytes => exact hseg
    | param other => exact hkept q k hseg

variable {l : List (Slots Bytes Nat)}

theorem getD_mem (hp : p < l.length) (h : l.getD p [] = slots) : slots ∈ l := by
  subst h
  rw [getD_eq_getElem?_getD, getElem?_eq_getElem hp]
  exact getElem_mem hp

theorem getD_set {q : Nat} (hp : p < l.length) :
    (l.set p slots).getD q [] = if p = q then slots else l.getD q [] := by
  simp only [getD_eq_getElem?_getD, getElem?_set, hp, if_true]
  split <;> rfl

variable {bytes : Bytes}

section

variable (hg : Positions.Sound nseg g) (hp : p < nseg)
include hg hp

/-- A literal with its slot in the table of its position: its mask gets the bit. -/
theorem Positions.intern_literal {table : Slots Bytes Nat} {pool : List Nat} {slot : Nat}
    (hsound : ProbeTable.Sound hashHome table) (hmem : some (bytes, slot) ∈ table)
    (hold : ∀ e, some e ∈ g.literal.getD p [] → some e ∈ table)
    (hpool : ∀ e, some e ∈ table → e.2 < pool.length) (hgrow : g.pool.length ≤ pool.length)
    (hsame : ∀ k, pool.getD k 0 = g.pool.getD k 0) : Interns nseg g { g with
        literal := g.literal.set p table
        pool := pool.modify slot (· ||| 1 <<< i) } i p (.literal bytes) := by
  have hlt : p < g.literal.length := hg.literals.symm ▸ hp
  obtain ⟨hmarked, hkept⟩ := getD_mark (hpool _ hmem) i
  refine ⟨⟨?_, hg.params, ?_, ?_⟩, ⟨slot, ?_, hmarked⟩, ?_⟩
  · exact (length_set ..).trans hg.literals
  · intro slots hslots
    rcases mem_or_eq_of_mem_set hslots with h | rfl
    · exact hg.tables slots h
    · exact hsound
  · intro slots hslots e he
    rw [length_modify]
    rcases mem_or_eq_of_mem_set hslots with h | rfl
    · exact (hg.pooled slots h e he).trans_le hgrow
    · exact hpool e he
  · rw [getD_set hlt, if_pos rfl]
    exact hmem
  · intro k q seg hseg
    cases seg with
    | param name => exact hseg
    | literal other =>
      obtain ⟨at', hat, hbit⟩ := hseg
      refine ⟨at', ?_, hkept at' k ((hsame at').symm ▸ hbit)⟩
      rw [getD_set hlt]
      split
      · rename_i hpq
        exact hold _ (hpq ▸ hat)
      · exact hat

/-- A literal that is there already: only its mask changes. -/
theorem Positions.intern_known {slot : Nat}
    (hlook : lookup hashHome (g.literal.getD p []) bytes = some slot) :
    Interns nseg g (g.intern i p (.literal bytes)) i p (.literal bytes) := by
  have hmem := getD_mem (hg.literals.symm ▸ hp) (rfl : g.literal.getD p [] = _)
  rw [Positions.intern, intern_found hlook]
  exact intern_literal hg hp (hg.tables _ hmem) (probe_some hlook) (fun _ => id)
    (hg.pooled _ hmem) le_rfl fun _ => rfl

/-- A new literal: it gets the next slot of the pool, with one bit. -/
theorem Positions.intern_new (hlook : lookup hashHome (g.literal.getD p []) bytes = none) :
    Interns nseg g (g.intern i p (.literal bytes)) i p (.literal bytes) := by
  have hold := getD_mem (hg.literals.symm ▸ hp) (rfl : g.literal.getD p [] = _)
  obtain ⟨slots, hintern, hsound, hmem⟩ := intern_fresh (hg.tables _ hold) hlook g.pool.length
  have hlen : (g.pool ++ [0]).length = g.pool.length + 1 := length_append
  rw [Positions.intern, hintern]
  refine intern_literal hg hp hsound ((hmem _).mpr (.inl rfl)) (fun e he => (hmem e).mpr (.inr he))
    (fun e he => ?_) (hlen ▸ Nat.le_succ _) (getD_snoc_zero g.pool)
  show e.2 < (g.pool ++ [0]).length
  rw [hlen]
  rcases (hmem e).mp he with rfl | h
  · exact Nat.lt_succ_self _
  · exact Nat.lt_succ_of_lt (hg.pooled _ hold e h)

/-- **ONE SEGMENT ON RECORD**: the tables stay in order, the segment is on record, and
    nothing is lost. -/
theorem Positions.intern_step (seg : Segment) : Interns nseg g (g.intern i p seg) i p seg := by
  cases seg with
  | param name => exact intern_param hg hp name
  | literal bytes =>
    cases hlook : lookup hashHome (g.literal.getD p []) bytes with
    | some slot => exact intern_known hg hp hlook
    | none => exact intern_new hg hp hlook

end

/-- A route's segments from position `p` on. -/
theorem Positions.internAll_spec : ∀ (segs : List Segment) {p : Nat} {g : Positions},
      Positions.Sound nseg g → p + segs.length ≤ nseg →
      Positions.Sound nseg (Positions.internAll i p segs g) ∧ (∀ k seg, segs[k]? = some seg →
            Positions.Accepts (Positions.internAll i p segs g) i (p + k) seg)
        ∧ Positions.Keeps g (Positions.internAll i p segs g) := by
  intro segs
  induction segs with
  | nil => exact fun hg _ => ⟨hg, nofun, fun _ _ _ h => h⟩
  | cons seg segs ih =>
    intro p g hg hroom
    rw [length_cons] at hroom
    obtain ⟨hg', hseg, hkeep⟩ := Positions.intern_step (i := i) hg (show p < nseg by omega) seg
    obtain ⟨hsound, hrest, hkeep'⟩ := ih hg' (p := p + 1) (by omega)
    refine ⟨hsound, ?_, fun j q s h => hkeep' j q s (hkeep j q s h)⟩
    intro k s hk
    cases k with
    | zero =>
      cases hk
      exact hkeep' i p seg hseg
    | succ k =>
      rw [show p + (k + 1) = p + 1 + k by omega]
      exact hrest k s hk

/-- **EVERY ROUTE ON RECORD**: once all are added, each is on record for each of its segments. -/
theorem Positions.addRoutes_accepts : ∀ (routes : List (BRoute H)) {i : Nat} {g : Positions},
      Positions.Sound nseg g → (∀ r ∈ routes, r.segs.length = nseg) →
      Positions.Sound nseg (Positions.addRoutes i routes g)
        ∧ (∀ k r, routes[k]? = some r → ∀ p seg, r.segs[p]? = some seg →
            Positions.Accepts (Positions.addRoutes i routes g) (i + k) p seg)
        ∧ Positions.Keeps g (Positions.addRoutes i routes g) := by
  intro routes
  induction routes with
  | nil => exact fun hg _ => ⟨hg, nofun, fun _ _ _ h => h⟩
  | cons r routes ih =>
    intro i g hg hlen
    obtain ⟨hg', hsegs, hkeep⟩ := Positions.internAll_spec (i := i) r.segs
      (p := 0) hg (by rw [hlen r mem_cons_self]; omega)
    obtain ⟨hsound, hrest, hkeep'⟩ := ih (i := i + 1) hg' fun x hx => hlen x (mem_cons_of_mem r hx)
    refine ⟨hsound, ?_, fun j q s h => hkeep' j q s (hkeep j q s h)⟩
    intro k x hk p seg hseg
    cases k with
    | zero =>
      cases hk
      have := hsegs p seg hseg
      rw [zero_add] at this
      exact hkeep' i p seg this
    | succ k =>
      rw [show i + (k + 1) = i + 1 + k by omega]
      exact hrest k x hk p seg hseg

/-! ## The survivors -/

variable {segs : List Bytes}

/-- A route that verifies has each of its literals in the path. -/
theorem verify_literal {r : BRoute H} (hverify : verify r segs = true)
    (hp : r.segs[p]? = some (.literal bytes)) (hlen : p < segs.length) :
    segs.getD p [] = bytes := by
  have hzip : (r.segs.zip segs)[p]? = some (.literal bytes, segs.get ⟨p, hlen⟩) := by
    rw [getElem?_zip_eq_some]
    exact ⟨hp, getElem?_eq_getElem hlen⟩
  have hall := all_eq_true.mp hverify _ (mem_of_getElem? hzip)
  have heq : bytes = segs.get ⟨p, hlen⟩ := beq_iff_eq.mp hall
  rw [getD_eq_getElem?_getD, getElem?_eq_getElem hlen]
  exact heq.symm

section Build

variable {cands : List (BRoute H)} {nseg : Nat}

/-- The plan names positions of the group only. -/
theorem bgroupPlan_lt {nroutes : Nat} {literal : List MaskMap} {param pool : List Nat}
    (h : p ∈ bgroupPlan nroutes literal param pool) : p < literal.length := by
  obtain ⟨entry, hentry, rfl⟩ := mem_map.mp h
  rw [mem_insertionSort] at hentry
  obtain ⟨scored, hscored, rfl⟩ := mem_map.mp hentry
  have hmem := (mem_filter.mp hscored).1
  exact (mem_zipIdx hmem).2.1.trans_eq (zero_add _)

/-- A position never rejects a route that has the segment there. -/
theorem accepting_verified (hlen : ∀ r ∈ cands, r.segs.length = nseg) {r : BRoute H}
    (hi : (bgroupBuild cands nseg).routes[i]? = some r) (hp : p < nseg)
    (hsegs : segs.length = nseg) (hverify : verify r segs = true) :
    (accepting (bgroupBuild cands nseg) p (segs.getD p [])).testBit i = true := by
  have hlen' : ∀ r ∈ cands.insertionSort Precedes, r.segs.length = nseg :=
    fun r hr => hlen r ((mem_insertionSort Precedes).mp hr)
  obtain ⟨hsound, hrec, -⟩ := Positions.addRoutes_accepts (i := 0)
    (cands.insertionSort Precedes) (sound_replicate nseg) hlen'
  generalize hbuilt : Positions.addRoutes 0 (cands.insertionSort Precedes)
    ⟨List.replicate nseg [], List.replicate nseg 0, []⟩ = built
    at hsound hrec
  have hgroup : (bgroupBuild cands nseg).literal = built.literal.map maskmapTryDisc
      ∧ (bgroupBuild cands nseg).param = built.param
      ∧ (bgroupBuild cands nseg).pool = built.pool := by
    subst hbuilt
    exact ⟨rfl, rfl, rfl⟩
  obtain ⟨hliteral, hparam, hpool⟩ := hgroup
  have hmem : r ∈ cands.insertionSort Precedes := mem_of_getElem? hi
  have hpr : p < r.segs.length := (hlen' r hmem).symm ▸ hp
  have hplit : p < built.literal.length := hsound.literals.symm ▸ hp
  have hseg := hrec i r hi p _ (getElem?_eq_getElem hpr)
  rw [zero_add] at hseg
  rw [accepting, hliteral, hparam, hpool, Nat.testBit_or]
  cases hkind : r.segs[p] with
  | param name =>
    rw [hkind] at hseg
    rw [show (built.param.getD p 0).testBit i = true from hseg, Bool.or_true]
  | literal bytes =>
    rw [hkind] at hseg
    obtain ⟨slot, hslot, hbit⟩ := hseg
    have hfound : maskmapGet ((built.literal.map maskmapTryDisc).getD p (.exact []))
        (segs.getD p []) = some slot := by
      rw [verify_literal hverify ((getElem?_eq_getElem hpr).trans (congrArg some hkind))
        (hsegs.symm ▸ hp)]
      rw [getD_eq_getElem?_getD, getElem?_map, getElem?_eq_getElem hplit]
      have hat : built.literal.getD p [] = built.literal[p] := by
        rw [getD_eq_getElem?_getD, getElem?_eq_getElem hplit]
        rfl
      rw [hat] at hslot
      exact maskmapTryDisc_get (hsound.tables _ (getElem_mem hplit)) hslot
    rw [hfound, hbit, Bool.true_or]

end Build

/-- A bit that every position accepts survives, wherever the loop stops. -/
theorem intersect_testBit {g : BGroup H} : ∀ {order : List Nat} {mask : Nat}, (∀ p ∈ order,
        (accepting g p (segs.getD p [])).testBit i = true) →
      mask.testBit i = true →
      (intersect g segs order mask).testBit i = true := by
  intro order
  induction order with
  | nil => exact fun _ => id
  | cons p order ih =>
    intro mask hall hmask
    have hbit : (mask &&& accepting g p (segs.getD p [])).testBit i = true := by
      rw [Nat.testBit_and, hmask, hall p mem_cons_self, Bool.true_and]
    rw [intersect]
    split
    · exact hbit
    · exact ih (fun q hq => hall q (mem_cons_of_mem p hq)) hbit

/-- **NO MATCH IS DROPPED**: the survivors that match are the routes that match, in the same
    order. -/
theorem survivors_filter {cands : List (BRoute H)}
    (hlen : ∀ r ∈ cands, r.segs.length = segs.length) :
    (survivors (bgroupBuild cands segs.length) segs).filter (verify · segs)
      = (cands.insertionSort Precedes).filter (verify · segs) := by
  have hroutes : (bgroupBuild cands segs.length).routes = cands.insertionSort Precedes := rfl
  generalize hmask : intersect (bgroupBuild cands segs.length) segs
    (bgroupBuild cands segs.length).order
    (2 ^ (bgroupBuild cands segs.length).routes.length - 1) = mask
  have hbit : ∀ entry ∈ (cands.insertionSort Precedes).zipIdx,
      verify entry.1 segs = true → mask.testBit entry.2 = true := by
    intro entry hentry hverify
    have hat := mem_zipIdx hentry
    have hi : (bgroupBuild cands segs.length).routes[entry.2]? = some entry.1 := by
      exact mem_zipIdx_iff_getElem?.mp hentry
    subst hmask
    refine intersect_testBit (fun p hp => ?_) ?_
    · refine accepting_verified hlen hi ?_ rfl hverify
      have hplan := bgroupPlan_lt hp
      have hlit : (bgroupBuild cands segs.length).literal.length = segs.length := by
        have hsound := (Positions.addRoutes_accepts (i := 0)
          (cands.insertionSort Precedes) (sound_replicate segs.length)
          fun r hr => hlen r ((mem_insertionSort Precedes).mp hr)).1
        exact (length_map ..).trans hsound.literals
      exact hlit ▸ hplan
    · rw [Nat.testBit_two_pow_sub_one, hroutes]
      exact decide_eq_true (by simpa using hat.2.1)
  rw [survivors, hmask, hroutes]
  conv_rhs => rw [← zipIdx_map_fst 0 (cands.insertionSort Precedes)]
  rw [filter_map, filter_map, filter_filter]
  congr 1
  refine filter_congr fun entry hentry => ?_
  show (verify entry.1 segs && mask.testBit entry.2) = verify entry.1 segs
  cases hv : verify entry.1 segs with
  | false => rfl
  | true => rw [hbit entry hentry hv, Bool.true_and]

end RouteGroup
