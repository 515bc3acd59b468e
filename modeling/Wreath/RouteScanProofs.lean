import Wreath.RouteExposureProofs

/-! # The scan of a path — which bytes a lookup reads

`brt_scan` and `dynamic_host_scan` walk a buffer and fill an array of `maxSegments`
slots. Both compare their position with the end of the buffer before they read, but
`brt_scan` starts at the second byte: on the empty path it begins behind the end and
never meets it. `brt_match_impl` tests the first byte before it scans,
`dynamic_dispatch` does not. -/

namespace RouteScan

open ByteScan RouteAccess RouteTable RouteMatch RouteSelect RouteTicket RouteExposure List

/-! ## Scanning a buffer -/

/-- What a scan comes to: the offsets and lengths in its slots, no slot left, or a read at
    an offset outside the buffer. -/
inductive Scan where
  | slots (segs : List (Nat × Nat))
  | full
  | outside (offset : Nat)
  deriving DecidableEq

/-- The loop of both scans. -/
def scanFrom (sep : UInt8) (buf : Bytes) (p start : Nat) (out : List (Nat × Nat)) : Scan :=
  if p = buf.length then
    if out.length = maxSegments then .full else .slots (out ++ [(start, p - start)])
  else if _h : p < buf.length then
    if buf[p] = sep then
      if out.length = maxSegments then .full
      else scanFrom sep buf (p + 1) (p + 1) (out ++ [(start, p - start)])
    else scanFrom sep buf (p + 1) start out
  else .outside p
termination_by buf.length - p

/-- The bytes of a slot. -/
def slotBytes (buf : Bytes) (slot : Nat × Nat) : Bytes := (buf.drop slot.1).take slot.2

/-- What the slots say. -/
def Scan.read (buf : Bytes) : Scan → Option (List Bytes)
  | .slots segs => some (segs.map (slotBytes buf))
  | .full | .outside _ => none

/-- No byte outside the buffer, and no more slots than there are. -/
def Scan.Inside (buf : Bytes) : Scan → Prop
  | .slots segs => segs.length ≤ maxSegments ∧ ∀ s ∈ segs, s.1 + s.2 ≤ buf.length
  | .full => True
  | .outside _ => False

variable {sep : UInt8} {buf : Bytes}

/-- The bytes behind a slot. -/
theorem drop_slot {p start : Nat} (hstart : start ≤ p) :
    buf.drop start = slotBytes buf (start, p - start) ++ buf.drop p := by
  rw [slotBytes, ← Nat.add_sub_cancel' hstart, ← drop_drop, Nat.add_sub_cancel_left,
    take_append_drop]

/-- One more slot. -/
theorem inside_snoc {out : List (Nat × Nat)} {p start : Nat} (hstart : start ≤ p)
    (hp : p ≤ buf.length) (hroom : out.length ≠ maxSegments) (hout : (Scan.slots out).Inside buf) :
    (Scan.slots (out ++ [(start, p - start)])).Inside buf := by
  obtain ⟨hlen, hin⟩ := hout
  refine ⟨?_, forall_mem_append.mpr ⟨hin, forall_mem_singleton.mpr ?_⟩⟩
  · rw [length_append]
    exact lt_of_le_of_ne hlen hroom
  · show start + (p - start) ≤ buf.length
    omega

/-- **ONE SCAN**: from a position inside the buffer it stays inside, and its slots hold what
    stands between the separators. -/
theorem scanFrom_spec {p start : Nat} {out : List (Nat × Nat)} (hstart : start ≤ p)
    (hp : p ≤ buf.length) (hfree : sep ∉ slotBytes buf (start, p - start))
    (hout : (Scan.slots out).Inside buf) :
    (scanFrom sep buf p start out).Inside buf ∧ (scanFrom sep buf p start out).read buf
      = if out.length + ((buf.drop start).splitOn sep).length ≤ maxSegments then
          some (out.map (slotBytes buf) ++ (buf.drop start).splitOn sep)
        else none := by
  have hne := length_pos_iff.mpr (splitOn_ne_nil sep (buf.drop start))
  fun_induction scanFrom sep buf p start out with
  | case1 start out hfull | case3 p start out hend hlt hsep hfull =>
    exact ⟨trivial, (if_neg (by omega)).symm⟩
  | case2 start out hroom =>
    have hmore := inside_snoc hstart hp hroom hout
    have hlen : out.length + 1 ≤ maxSegments := lt_of_le_of_ne hout.1 hroom
    rw [drop_slot hstart, drop_length, append_nil, splitOn_eq_singleton hfree,
      length_singleton, if_pos hlen]
    refine ⟨hmore, congrArg some ?_⟩
    rw [map_append]
    rfl
  | case4 p start out hend hlt hsep hroom ih =>
    have hfree' : sep ∉ slotBytes buf (p + 1, p + 1 - (p + 1)) := by
      rw [Nat.sub_self]
      exact not_mem_nil
    obtain ⟨hin, hread⟩ := ih le_rfl hlt hfree' (inside_snoc hstart hp hroom hout)
      (length_pos_iff.mpr (splitOn_ne_nil _ _))
    refine ⟨hin, hread.trans ?_⟩
    rw [drop_slot hstart, drop_eq_getElem_cons hlt, hsep,
      splitOn_append_cons_self_of_not_mem hfree, map_append, append_assoc,
      length_append, add_right_comm]
    rfl
  | case5 p start out hend hlt hsep ih =>
    refine ih (Nat.le_succ_of_le hstart) hlt ?_ hout hne
    have hnext : slotBytes buf (start, p + 1 - start)
        = slotBytes buf (start, p - start) ++ [buf[p]] := by
      rw [slotBytes, slotBytes, Nat.succ_sub hstart, take_add_one, getElem?_drop,
        Nat.add_sub_cancel' hstart, getElem?_eq_getElem hlt]
      rfl
    rw [hnext, mem_append, mem_singleton, not_or]
    exact ⟨hfree, Ne.symm hsep⟩
  | case6 p start out hend hlt => exact absurd (lt_of_le_of_ne hp hend) hlt

/-- The same from the start of a scan. -/
theorem scan_fresh (sep : UInt8) {p : Nat} (hp : p ≤ buf.length) :
    (scanFrom sep buf p p []).Inside buf ∧ (scanFrom sep buf p p []).read buf
      = if ((buf.drop p).splitOn sep).length ≤ maxSegments then some ((buf.drop p).splitOn sep)
        else none := by
  have hfree : sep ∉ slotBytes buf (p, p - p) := by
    rw [Nat.sub_self]
    exact not_mem_nil
  have hscan := scanFrom_spec le_rfl hp hfree (show (Scan.slots []).Inside buf from
    ⟨Nat.zero_le _, nofun⟩)
  rwa [length_nil, zero_add] at hscan

/-! ## The two scans -/

/-- A buffer with the scan that was made of it. -/
abbrev Scanned := Bytes × Scan

def Scanned.Safe (s : Scanned) : Prop := s.2.Inside s.1

/-- `brt_scan`: it begins at the second byte. -/
def pathScan (path : Bytes) : Scanned := (path, scanFrom slash path 1 1 [])

/-- `dynamic_host_scan`. -/
def hostScan (host : Bytes) : Scanned := (host, scanFrom (ch '.') host 0 0 [])

/-- The table's scan of a path is what the slots hold. -/
theorem pathScan_spec {path : Bytes} (h : path ≠ []) :
    (pathScan path).Safe ∧ (pathScan path).2.read path = brtScan path := by
  obtain ⟨b, rest, rfl⟩ := exists_cons_of_ne_nil h
  exact scan_fresh slash (Nat.succ_pos rest.length)

theorem hostScan_spec (host : Bytes) :
    (hostScan host).Safe ∧ (hostScan host).2.read host = dynamicHostScan host :=
  scan_fresh (ch '.') (Nat.zero_le _)

/-- The empty path: the first read is behind the end. -/
theorem pathScan_nil : pathScan [] = ([], .outside 1) := by
  rw [pathScan, scanFrom]
  rfl

/-! ## The scans of a call -/

variable {H : Type} (t : PolicyRouteTable H) (method path host : Bytes) (caller : Caller)

/-- `brt_dispatch` scans behind a test of the first byte, if at all. -/
def dispatchScans : List Scanned := if path.head? = some slash then [pathScan path] else []

/-- `dynamic_dispatch` scans the path whatever it begins with, then the host. -/
def dynamicScans (host : Option Bytes) : List Scanned :=
  pathScan path :: if (brtScan path).isSome then host.toList.map hostScan else []

/-- `brt_match`. -/
def matchScans : List Scanned :=
  dispatchScans path
    ++ if (dispatch t.compileGroups method path caller none).1.isNone then dynamicScans path none
      else []

/-- `brt_classify`. -/
def classifyScans : List Scanned :=
  dispatchScans path
    ++ if unanswered (dispatch t.compileGroups method path (.word 0) (some none)) then
        dynamicScans path none
      else []

/-- `brt_classify_request`. -/
def requestScans : List Scanned :=
  dynamicScans path (some host)
    ++ if unanswered (dynamicDispatch t method path (some host) (.word 0) (some none)) then
        classifyScans t method path
      else []

variable {t method path host caller}

theorem safe_ite {p : Prop} [Decidable p] {scans : List Scanned}
    (h : ∀ s ∈ scans, s.Safe) : ∀ s ∈ if p then scans else [], s.Safe := by
  split
  · exact h
  · nofun

theorem scans_safe (hpath : path ≠ []) :
    ∀ s ∈ matchScans t method path caller ++ classifyScans t method path
      ++ requestScans t method path host, s.Safe := by
  have hdispatch : ∀ s ∈ dispatchScans path, s.Safe :=
    safe_ite (forall_mem_singleton.mpr (pathScan_spec hpath).1)
  have hnone : ∀ s ∈ dynamicScans path none, s.Safe :=
    forall_mem_cons.mpr ⟨(pathScan_spec hpath).1, safe_ite nofun⟩
  have hhost : ∀ s ∈ dynamicScans path (some host), s.Safe :=
    forall_mem_cons.mpr ⟨(pathScan_spec hpath).1,
      safe_ite (forall_mem_singleton.mpr (hostScan_spec host).1)⟩
  have hclassify : ∀ s ∈ classifyScans t method path, s.Safe :=
    forall_mem_append.mpr ⟨hdispatch, safe_ite hnone⟩
  rw [forall_mem_append, forall_mem_append]
  exact ⟨⟨forall_mem_append.mpr ⟨hdispatch, safe_ite hnone⟩, hclassify⟩,
    forall_mem_append.mpr ⟨hhost, safe_ite hclassify⟩⟩

theorem classified_absent (cands : List (Candidate H)) :
    classified cands = .absent ↔ cands = [] := by
  rw [← unanswered_iff, classified, outcome_zero]
  cases settle 0 cands with
  | some m => constructor <;> rintro ⟨⟩
  | none =>
    cases ticketOf (passed 0 cands) with
    | none => exact ⟨fun _ => rfl, fun _ => rfl⟩
    | some ticket => cases ticket <;> constructor <;> rintro ⟨⟩

variable (calls : List (Call H)) (method path host : Bytes) (mask : Nat)

/-- **WHEN A LOOKUP IS SAFE**: after any calls, the lookups stay inside the path and the
    host and find nothing off the root, exactly when the path is not empty and begins with a
    slash or belongs to no greedy or host route. -/
theorem lookup_safe_iff :
    ((∀ s ∈ matchScans (run calls).1 method path (ofMask mask)
          ++ classifyScans (run calls).1 method path
          ++ requestScans (run calls).1 method path host, s.Safe)
      ∧ (path.head? ≠ some slash →
        (∃ t, brtMatch (run calls).1 method path (mask : Int) = .ok (t, none))
          ∧ (classify (run calls).1 method path).2 = .absent
          ∧ (classifyRequest (run calls).1 method path host).2 = .absent))
    ↔ path ≠ [] ∧ (path.head? = some slash
      ∨ owner (run calls).1.dynamicRoutes method path none = none
        ∧ hostOwner (run calls).1 method path host = none) := by
  obtain ⟨r, ht, hholds⟩ := stands_run calls
  generalize hs : run calls = s at ht hholds
  obtain ⟨t, regs⟩ := s
  simp only at ht hholds ⊢
  have hroutes : t.dynamicRoutes = r.dynamicRoutes := by
    rcases ht with rfl | rfl <;> rfl
  have hempty : path.head? ≠ some slash → candidates r method path = [] := fun hslash =>
    eq_nil_iff_forall_not_mem.mpr fun c hc => hslash (candidates_rooted hholds hc)
  rw [hroutes, brtMatch_standing ht, brtMatch_eq, classify_standing ht,
    classifyRequest_standing ht, classified_absent, classified_absent]
  constructor
  · rintro ⟨hsafe, hnone⟩
    refine ⟨?_, or_iff_not_imp_left.mpr fun hslash => ?_⟩
    · rintro rfl
      have houtside := hsafe (pathScan []) (mem_append_right _ (mem_append_left _ mem_cons_self))
      rwa [pathScan_nil] at houtside
    · obtain ⟨-, hclassify, hrequest⟩ := hnone hslash
      rw [considered, if_pos (hempty hslash)] at hclassify hrequest
      constructor
      · cases howner : owner r.dynamicRoutes method path none with
        | none => rfl
        | some c => rw [howner] at hclassify; cases hclassify
      · cases howner : hostOwner t method path host with
        | none => rfl
        | some c => rw [howner] at hrequest; cases hrequest
  · rintro ⟨hpath, hwhen⟩
    refine ⟨scans_safe hpath, fun hslash => ?_⟩
    obtain ⟨howner, hhost⟩ := hwhen.resolve_left hslash
    rw [considered, if_pos (hempty hslash), hempty hslash, howner, hhost]
    exact ⟨⟨_, rfl⟩, rfl, rfl⟩

/-- **OUTSIDE**: a lookup of the empty path reads behind it, in a table without routes; and
    a path without a slash in front is found. -/
theorem empty_path_outside :
    ([], .outside 1) ∈ matchScans (run ([] : List (Call Nat))).1 get [] (ofMask 0)
      ∧ ¬ Scanned.Safe ([], .outside 1)
      ∧ publicHandler fileCalls get (ascii "xfiles/a") = some 7 := by
  refine ⟨mem_append_right _ ?_, fun h => h, by decide +kernel⟩
  rw [dynamicScans, pathScan_nil]
  decide

end RouteScan
