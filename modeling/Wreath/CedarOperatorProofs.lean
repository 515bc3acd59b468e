import Wreath.CedarPreparedProofs

/-! # Operators on values — patterns

`cedar_like` takes for each middle segment the leftmost place and anchors the first and
the last one; that loses no match (`like_exact`). -/

namespace Cedar

open List

/-! ## Patterns -/

/-- The segments stand in the text one after the other, none before `start`. -/
def Placed (text : List Char) : Nat → List (List Char) → Prop
  | _, [] => True
  | start, segment :: segments =>
    ∃ i, start ≤ i ∧ segment <+: text.drop i ∧ Placed text (i + segment.length) segments

variable {text segment : List Char} {segments fills : List (List Char)} {start i : Nat}

theorem Placed.mono (h : Placed text i segments) (hle : start ≤ i) :
    Placed text start segments := by
  cases segments with
  | nil => trivial
  | cons segment segments =>
    obtain ⟨j, hj, hrest⟩ := h
    exact ⟨j, hle.trans hj, hrest⟩

/-- **THE LEFTMOST PLACE LOSES NOTHING.** -/
theorem segmentsFound_iff (text : List Char) (limit : Nat) :
    segmentsFound text limit start segments = true ↔ Placed (text.take limit) start segments := by
  induction segments generalizing start with
  | nil => exact iff_of_true rfl trivial
  | cons segment segments ih =>
    rw [segmentsFound]
    split
    · rename_i hempty
      subst hempty
      rw [ih]
      exact ⟨fun h => ⟨start, le_rfl, nil_prefix, h⟩, fun ⟨_, hle, _, h⟩ => h.mono hle⟩
    · rename_i hsome
      have hlen := length_pos_iff.mpr hsome
      -- a place in the window is one that the search tests
      have hplace : ∀ i, (decide (i + segment.length ≤ limit) && segment.isPrefixOf (text.drop i))
          = true ↔ segment <+: (text.take limit).drop i := by
        intro i
        rw [drop_take, prefix_take_iff, Bool.and_eq_true, decide_eq_true_eq, isPrefixOf_iff_prefix,
          and_comm]
        exact and_congr_right fun _ => by omega
      cases hfind : findBetween text segment start limit with
      | none =>
        refine iff_of_false nofun ?_
        rintro ⟨i, hi, hpre, -⟩
        rw [← hplace] at hpre
        have hle := of_decide_eq_true (Bool.and_eq_true_iff.mp hpre).1
        exact find?_eq_none.mp hfind i (by rw [mem_range'_1]; omega) hpre
      | some found =>
        obtain ⟨hfound, hmem, hleast⟩ := find?_range'_eq_some.mp hfind
        obtain ⟨hstart, -⟩ := mem_range'_1.mp hmem
        show segmentsFound _ _ _ _ = true ↔ _
        rw [ih]
        refine ⟨fun h => ⟨found, hstart, (hplace _).mp hfound, h⟩, ?_⟩
        rintro ⟨i, hi, hpre, hrest⟩
        refine hrest.mono (Nat.add_le_add_right ?_ _)
        by_contra hlt
        have hmiss := hleast i hi (by omega)
        rw [(hplace i).mpr hpre] at hmiss
        cases hmiss

/-- The strings that stand for the wildcards, each with the segment behind it. -/
def filled (fills segments : List (List Char)) : List Char :=
  (zipWith (· ++ ·) fills segments).flatten

theorem filled_cons (fill segment : List Char) : filled (fill :: fills) (segment :: segments)
    = fill ++ (segment ++ filled fills segments) :=
  append_assoc ..

theorem placed_iff : Placed text start segments
    ↔ ∃ fills rest, fills.length = segments.length
      ∧ text.drop start = filled fills segments ++ rest := by
  induction segments generalizing start with
  | nil => exact iff_of_true trivial ⟨[], _, rfl, rfl⟩
  | cons segment segments ih =>
    constructor
    · rintro ⟨i, hi, ⟨more, hmore⟩, hrest⟩
      obtain ⟨fills, rest, hlen, hfills⟩ := ih.mp hrest
      refine ⟨(text.drop start).take (i - start) :: fills, rest, congrArg (· + 1) hlen, ?_⟩
      rw [← drop_drop, ← hmore, drop_left] at hfills
      have hplace : (text.drop start).drop (i - start) = segment ++ more := by
        rw [drop_drop, Nat.add_sub_of_le hi, hmore]
      rw [filled_cons, append_assoc, append_assoc, ← hfills, ← hplace, take_append_drop]
    · rintro ⟨fills, rest, hlen, htext⟩
      cases fills with
      | nil => cases hlen
      | cons fill fills =>
        rw [filled_cons, append_assoc, append_assoc] at htext
        refine ⟨start + fill.length, Nat.le_add_right .., ?_,
          ih.mpr ⟨fills, rest, Nat.succ.inj hlen, ?_⟩⟩
        · rw [← drop_drop, htext, drop_left]
          exact prefix_append ..
        · rw [← drop_drop, ← drop_drop, htext, drop_left, drop_left]

theorem filled_concat (h : fills.length = segments.length) (fill : List Char) :
    filled (fills ++ [fill]) (segments ++ [segment])
      = filled fills segments ++ (fill ++ segment) := by
  rw [filled, zipWith_append h, flatten_append]
  simp [filled]

/-- **PATTERNS ARE EXACT**: a text matches when it is the literals in their order with some
    string for each wildcard. -/
theorem like_exact (value head : String) (rest : List String) : cedarLike value head rest = true
    ↔ ∃ fills : List (List Char), fills.length = rest.length
      ∧ value.toList = head.toList ++ filled fills (rest.map String.toList) := by
  rw [cedarLike]
  rcases rest.eq_nil_or_concat' with rfl | ⟨middle, tail, rfl⟩
  · show (value == head) = true ↔ _
    rw [beq_iff_eq, ← String.toList_inj]
    constructor
    · exact fun h => ⟨[], rfl, h.trans (append_nil _).symm⟩
    · rintro ⟨fills, hlen, hvalue⟩
      rw [eq_nil_of_length_eq_zero hlen] at hvalue
      exact hvalue.trans (append_nil _)
  · generalize value.toList = text
    rw [map_append, map_singleton, getLast?_concat, dropLast_concat]
    simp only [Bool.and_eq_true, isPrefixOf_iff_prefix, isSuffixOf_iff_suffix, decide_eq_true_eq,
      segmentsFound_iff, placed_iff, length_append, length_singleton, ← String.length_toList]
    generalize hmid : middle.map String.toList = mid
    generalize tail.toList = last
    generalize head.toList = first
    have hcount : mid.length = middle.length := by rw [← hmid, length_map]
    constructor
    · rintro ⟨⟨⟨hfirst, ⟨window, rfl⟩⟩, hroom⟩, fills, fill, hlen, hfills⟩
      rw [length_append, Nat.add_sub_cancel] at hroom hfills
      rw [take_left] at hfills
      obtain ⟨more, rfl⟩ := prefix_of_prefix_length_le hfirst (prefix_append ..) hroom
      rw [drop_left] at hfills
      refine ⟨fills ++ [fill], by rw [length_append, hlen, hcount]; rfl, ?_⟩
      rw [filled_concat hlen, hfills, append_assoc, append_assoc]
    · rintro ⟨fills, hlen, rfl⟩
      rcases fills.eq_nil_or_concat' with rfl | ⟨fills, fill, rfl⟩
      · cases hlen
      have hlen' : fills.length = mid.length := by
        rw [hcount]
        rw [length_append] at hlen
        exact Nat.add_right_cancel hlen
      rw [filled_concat hlen', ← append_assoc, ← append_assoc, length_append, Nat.add_sub_cancel,
        take_left]
      refine ⟨⟨⟨?_, suffix_append ..⟩, ?_⟩, fills, fill, hlen', ?_⟩
      · rw [append_assoc, append_assoc]
        exact prefix_append ..
      · rw [append_assoc, length_append]
        exact Nat.le_add_right ..
      · rw [append_assoc, drop_left]

end Cedar
