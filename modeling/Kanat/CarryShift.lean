import Kanat.Numerals
import Mathlib.Analysis.Real.Sqrt
import Mathlib.Data.List.Sort
import Mathlib.LinearAlgebra.Matrix.Notation

/-! # The shift a Run's places are carried by onto a later Run (utils/overlay.ts: carrier)

Coordinates are exact, and `hypot` is `Math.hypot`. A point at infinity is `none`. -/
namespace Kanat.CarryShift

abbrev Point (K : Type) := K × K
abbrev Mat (K : Type) := Matrix (Fin 3) (Fin 3) K

variable {K : Type} [Field K] [LinearOrder K]

/-- A Run's `at` with where it had the Board. -/
structure Place (K : Type) where
  time : String
  templateToPicture : Mat K
deriving DecidableEq

structure BaselineView (K : Type) where
  templateToPicture : Mat K
  baselineMarks : List (Point K)

/-- `ref` and `baselineView` tell objects apart, as `===` and a `WeakMap` do. -/
structure RunGeometry (K : Type) where
  ref : ℕ
  takenAt : String
  baselineView : ℕ
  places : List (Place K)

/-- What there is no last place to read of. -/
inductive Raised where
  | typeError

def MATCH_TPL_PX : K := 20
def CARRY_MATCH_TPL_PX : K := 60

def project (H : Mat K) (p : Point K) : Option (Point K) :=
  let w := H 2 0 * p.1 + H 2 1 * p.2 + H 2 2
  if w = 0 then none
  else some ((H 0 0 * p.1 + H 0 1 * p.2 + H 0 2) / w, (H 1 0 * p.1 + H 1 1 * p.2 + H 1 2) / w)

def adjugate (m : Mat K) : Mat K :=
  let a := m 0 0; let b := m 0 1; let c := m 0 2
  let d := m 1 0; let e := m 1 1; let f := m 1 2
  let g := m 2 0; let h := m 2 1; let i := m 2 2
  !![e * i - f * h, c * h - b * i, b * f - c * e;
     f * g - d * i, a * i - c * g, c * d - a * f;
     d * h - e * g, b * g - a * h, a * e - b * d]

def median (values : List K) : K :=
  let sorted := values.insertionSort (· ≤ ·)
  let mid := sorted.length / 2
  if sorted.length = 0 then 0
  else if sorted.length % 2 = 1 then sorted.getD mid 0
  else (sorted.getD (mid - 1) 0 + sorted.getD mid 0) / 2

/-- A point's offset to a mark, and how far it strays from a candidate shift. -/
structure Offset (K : Type) where
  offset : Point K
  stray : K

def sum (offsets : List (Offset K)) : K := offsets.foldl (fun total o => total + o.stray) 0

variable (hypot : K → K → K)

def distance (p : Point K) : K := hypot p.1 p.2

def nearest (s : Point K) (own : List (Point K)) : Option (Offset K) :=
  own.foldl (fun nearest offset =>
    let stray := hypot (offset.1 - s.1) (offset.2 - s.2)
    if stray < MATCH_TPL_PX ∧ ∀ o ∈ nearest, stray < o.stray then some ⟨offset, stray⟩ else nearest) none

def agreeing (offsets : List (List (Point K))) (s : Point K) : List (Offset K) := offsets.filterMap (nearest hypot s)

/-- Every offset in reach, each point's nearest first. -/
def candidates (offsets : List (List (Point K))) : List (Point K) :=
  offsets.flatMap fun own =>
    (own.filter fun o => distance hypot o < CARRY_MATCH_TPL_PX).insertionSort
      fun a b => distance hypot a ≤ distance hypot b

def better (a b : List (Offset K)) : List (Offset K) :=
  if b.length > a.length ∨ (b.length = a.length ∧ sum b < sum a) then b else a

def best (offsets : List (List (Point K))) : List (Offset K) :=
  ((candidates hypot offsets).map (agreeing hypot offsets)).foldl better []

def carryShift (offsets : List (List (Point K))) : Point K :=
  (median ((best hypot offsets).map fun o => o.offset.1), median ((best hypot offsets).map fun o => o.offset.2))

/-- A point at infinity has no offset within any radius. -/
def offsetsTo (marks : List (Point K)) : Option (Point K) → List (Point K)
  | none => []
  | some p => marks.map fun m => m - p

def through (last : Place K) (view : BaselineView K) (p : Point K) : Option (Point K) :=
  (project last.templateToPicture p).bind (project (adjugate view.templateToPicture))

/-- `carrier`, each point's offsets being those that are `weighed`. -/
def carrierOver (weighed : Point K → Bool) (views : ℕ → BaselineView K) (fromRun toRun : RunGeometry K)
    (holes : List (Point K)) : Except Raised (Point K → Option (Point K)) :=
  match fromRun.places.getLast? with
  | none => .error .typeError
  | some last =>
    let view := views toRun.baselineView
    let points := (holes ++ (views fromRun.baselineView).baselineMarks).map (through last view)
    let offsets := points.map fun p => (offsetsTo view.baselineMarks p).filter weighed
    .ok fun p => (through last view p).map fun q => q + carryShift hypot offsets

def carrier : (ℕ → BaselineView K) → RunGeometry K → RunGeometry K → List (Point K) →
    Except Raised (Point K → Option (Point K)) :=
  carrierOver hypot fun o => distance hypot o < CARRY_MATCH_TPL_PX + MATCH_TPL_PX

/-- Every Baseline Mark weighed, however far. -/
def plainCarrier : (ℕ → BaselineView K) → RunGeometry K → RunGeometry K → List (Point K) →
    Except Raised (Point K → Option (Point K)) :=
  carrierOver hypot fun _ => true

/-- What is used of `Math.hypot`. -/
structure Hypot (hypot : K → K → K) : Prop where
  zero : hypot 0 0 = 0
  triangle : ∀ p q : Point K, distance hypot (p + q) ≤ distance hypot p + distance hypot q

variable {hypot}

theorem nearest_append (s : Point K) (own : List (Point K)) (offset : Point K) :
    nearest hypot s (own ++ [offset]) =
      if distance hypot (offset - s) < MATCH_TPL_PX ∧
          ∀ o ∈ nearest hypot s own, distance hypot (offset - s) < o.stray then
        some ⟨offset, distance hypot (offset - s)⟩
      else nearest hypot s own := by
  unfold nearest
  rw [List.foldl_append]
  rfl

/-- What strays too far is not looked at. -/
theorem nearest_filter {s : Point K} {own : List (Point K)} {weighed : Point K → Bool}
    (h : ∀ o ∈ own, weighed o = false → ¬ distance hypot (o - s) < MATCH_TPL_PX) :
    nearest hypot s (own.filter weighed) = nearest hypot s own := by
  induction own using List.reverseRecOn with
  | nil => rfl
  | append_singleton own o ih =>
    have hown := ih fun o ho => h o (List.mem_append_left _ ho)
    rw [List.filter_append, List.filter_singleton, nearest_append]
    cases hweighed : weighed o with
    | true => rw [cond_true, nearest_append, hown]
    | false =>
      have hfar := h o (List.mem_append_right _ List.mem_cons_self) hweighed
      rw [cond_false, List.append_nil, hown, if_neg fun hboth => hfar hboth.1]

theorem mem_candidates {offsets : List (List (Point K))} {s : Point K} :
    s ∈ candidates hypot offsets ↔ ∃ own ∈ offsets, s ∈ own ∧ distance hypot s < CARRY_MATCH_TPL_PX := by
  simp only [candidates, List.mem_flatMap, List.mem_insertionSort, List.mem_filter, decide_eq_true_eq]

section
variable [IsStrictOrderedRing K]

/-- A candidate matches nothing beyond its own reach and a match's. -/
theorem not_matched_of_far (hhypot : Hypot hypot) {s o : Point K} (hs : distance hypot s < CARRY_MATCH_TPL_PX)
    (ho : ¬ distance hypot o < CARRY_MATCH_TPL_PX + MATCH_TPL_PX) : ¬ distance hypot (o - s) < MATCH_TPL_PX := by
  intro hmatch
  have htriangle := hhypot.triangle (o - s) s
  rw [sub_add_cancel] at htriangle
  exact ho (by linarith)

private theorem carryShift_filter (hhypot : Hypot hypot) (offsets : List (List (Point K))) :
    carryShift hypot (offsets.map fun own => own.filter fun o =>
      distance hypot o < CARRY_MATCH_TPL_PX + MATCH_TPL_PX) = carryShift hypot offsets := by
  have hcandidates : candidates hypot (offsets.map fun own => own.filter fun o =>
      distance hypot o < CARRY_MATCH_TPL_PX + MATCH_TPL_PX) = candidates hypot offsets := by
    unfold candidates
    rw [List.flatMap_map]
    refine List.flatMap_congr fun own _ => ?_
    rw [List.filter_filter]
    congr 1
    refine List.filter_congr fun o _ => ?_
    have hless : distance hypot o < CARRY_MATCH_TPL_PX → distance hypot o < CARRY_MATCH_TPL_PX + MATCH_TPL_PX :=
      fun h => h.trans (by simp [MATCH_TPL_PX])
    by_cases hnear : distance hypot o < CARRY_MATCH_TPL_PX
    · simp [hnear, hless hnear]
    · simp [hnear]
  have hagreeing : ∀ s ∈ candidates hypot offsets, agreeing hypot (offsets.map fun own => own.filter fun o =>
      distance hypot o < CARRY_MATCH_TPL_PX + MATCH_TPL_PX) s = agreeing hypot offsets s := by
    intro s hs
    obtain ⟨_, -, -, hreach⟩ := mem_candidates.mp hs
    unfold agreeing
    rw [List.filterMap_map]
    refine List.filterMap_congr fun own _ => nearest_filter fun o _ ho => ?_
    exact not_matched_of_far hhypot hreach (of_decide_eq_false ho)
  have hbest : best hypot (offsets.map fun own => own.filter fun o =>
      distance hypot o < CARRY_MATCH_TPL_PX + MATCH_TPL_PX) = best hypot offsets := by
    unfold best
    rw [hcandidates, List.map_congr_left hagreeing]
  unfold carryShift
  rw [hbest]

/-- The marks left out change no carrier. -/
theorem carrier_eq_plainCarrier (hhypot : Hypot hypot) : carrier hypot = plainCarrier hypot := by
  funext views fromRun toRun holes
  unfold carrier plainCarrier carrierOver
  cases fromRun.places.getLast? with
  | none => rfl
  | some last =>
    have hshift := carryShift_filter hhypot
      (((holes ++ (views fromRun.baselineView).baselineMarks).map (through last (views toRun.baselineView))).map
        (offsetsTo (views toRun.baselineView).baselineMarks))
    rw [List.map_map] at hshift
    simp only [List.filter_true]
    refine congrArg Except.ok (funext fun p => ?_)
    exact congrArg (fun shift => (through last (views toRun.baselineView) p).map fun q => q + shift) hshift

end

/-- How far `p`, shifted by `s`, is from its nearest mark, where that is within the match radius. -/
def reached (hypot : K → K → K) (marks : List (Point K)) (s p : Point K) : Option K :=
  ((marks.map fun m => distance hypot (m - (p + s))).min?).filter fun stray => stray < MATCH_TPL_PX

/-- The points that `s` brings within the match radius of a mark, each as how far it strays. -/
def brought (hypot : K → K → K) (marks : List (Point K)) (points : List (Option (Point K))) (s : Point K) : List K :=
  points.filterMap fun p => p.bind (reached hypot marks s)

theorem nearest_eq_none {s : Point K} {own : List (Point K)} (h : nearest hypot s own = none) :
    ∀ o ∈ own, ¬ distance hypot (o - s) < MATCH_TPL_PX := by
  induction own using List.reverseRecOn with
  | nil => simp
  | append_singleton own offset ih =>
    rw [nearest_append] at h
    split at h
    · cases h
    · next hfar =>
      intro o ho
      rcases List.mem_append.mp ho with ho | ho
      · exact ih h o ho
      · obtain rfl := List.mem_singleton.mp ho
        exact fun hmatch => hfar ⟨hmatch, by simp [h]⟩

/-- The nearest is an offset there is, strays less than the radius, and no other strays less. -/
theorem nearest_eq_some {s : Point K} {own : List (Point K)} {found : Offset K} (h : nearest hypot s own = some found) :
    found.offset ∈ own ∧ found.stray = distance hypot (found.offset - s) ∧ found.stray < MATCH_TPL_PX ∧
      ∀ o ∈ own, found.stray ≤ distance hypot (o - s) := by
  induction own using List.reverseRecOn generalizing found with
  | nil => simp [nearest] at h
  | append_singleton own offset ih =>
    rw [nearest_append] at h
    split at h
    · next hnear =>
      obtain rfl := Option.some.inj h
      refine ⟨List.mem_append_right _ List.mem_cons_self, rfl, hnear.1, fun o ho => ?_⟩
      rcases List.mem_append.mp ho with ho | ho
      · cases hbefore : nearest hypot s own with
        | none => exact (hnear.1.trans_le (not_lt.mp (nearest_eq_none hbefore o ho))).le
        | some before => exact (hnear.2 before hbefore).le.trans ((ih hbefore).2.2.2 o ho)
      · obtain rfl := List.mem_singleton.mp ho
        exact le_rfl
    · next hfar =>
      obtain ⟨hmem, hstray, hless, hall⟩ := ih h
      refine ⟨List.mem_append_left _ hmem, hstray, hless, fun o ho => ?_⟩
      rcases List.mem_append.mp ho with ho | ho
      · exact hall o ho
      · obtain rfl := List.mem_singleton.mp ho
        by_contra hlt
        refine hfar ⟨(not_le.mp hlt).trans hless, fun found' hfound' => ?_⟩
        obtain rfl := Option.some.inj (h.symm.trans hfound')
        exact not_le.mp hlt

private theorem nearest_stray (s : Point K) (own : List (Point K)) : (nearest hypot s own).map (fun o => o.stray) =
    ((own.map fun o => distance hypot (o - s)).min?).filter fun stray => stray < MATCH_TPL_PX := by
  cases h : nearest hypot s own with
  | none =>
    have hfar := nearest_eq_none h
    cases hmin : (own.map fun o => distance hypot (o - s)).min? with
    | none => rfl
    | some stray =>
      obtain ⟨o, ho, rfl⟩ := List.mem_map.mp (List.min?_mem hmin)
      have hout := hfar o ho
      rw [Option.filter_some, if_neg (by simpa only [decide_eq_true_eq] using hout)]
      rfl
  | some found =>
    obtain ⟨hmem, hstray, hless, hall⟩ := nearest_eq_some h
    have hmin : (own.map fun o => distance hypot (o - s)).min? = some found.stray := by
      rw [List.min?_eq_some_iff]
      refine ⟨List.mem_map.mpr ⟨found.offset, hmem, hstray.symm⟩, fun stray hstray' => ?_⟩
      obtain ⟨o, ho, rfl⟩ := List.mem_map.mp hstray'
      exact hall o ho
    rw [hmin, Option.filter_some, if_pos (decide_eq_true hless)]
    rfl

theorem stray_agreeing (marks : List (Point K)) (points : List (Option (Point K))) (s : Point K) :
    (agreeing hypot (points.map (offsetsTo marks)) s).map (fun o => o.stray) = brought hypot marks points s := by
  unfold agreeing brought
  rw [List.map_filterMap, List.filterMap_map]
  refine List.filterMap_congr fun p _ => ?_
  rw [Function.comp_apply, nearest_stray]
  cases p with
  | none => rfl
  | some p =>
    simp only [offsetsTo, List.map_map, Function.comp_def, Option.bind_some, reached, sub_sub]

/-- `b` is at most as good as `a`: fewer agree, or as many that stray no less. -/
def NoBetter (b a : List (Offset K)) : Prop := b.length ≤ a.length ∧ (b.length = a.length → sum a ≤ sum b)

theorem NoBetter.refl (a : List (Offset K)) : NoBetter a a := ⟨le_rfl, fun _ => le_rfl⟩

theorem NoBetter.trans {a b c : List (Offset K)} (hab : NoBetter a b) (hbc : NoBetter b c) : NoBetter a c := by
  refine ⟨hab.1.trans hbc.1, fun heq => ?_⟩
  have hmid : a.length = b.length := le_antisymm hab.1 (heq ▸ hbc.1)
  exact (hbc.2 (hmid ▸ heq)).trans (hab.2 hmid)

private theorem noBetter_better (a b : List (Offset K)) : NoBetter a (better a b) ∧ NoBetter b (better a b) := by
  unfold better
  split_ifs with h
  · refine ⟨?_, .refl b⟩
    rcases h with hmore | ⟨heq, hless⟩
    · exact ⟨hmore.le, fun heq => absurd heq hmore.ne⟩
    · exact ⟨heq.ge, fun _ => hless.le⟩
  · obtain ⟨hmore, hequal⟩ := not_or.mp h
    refine ⟨.refl a, not_lt.mp hmore, fun heq => ?_⟩
    exact not_lt.mp fun hless => hequal ⟨heq, hless⟩

private theorem foldl_better (l : List (List (Offset K))) (a : List (Offset K)) :
    l.foldl better a ∈ a :: l ∧ ∀ b ∈ a :: l, NoBetter b (l.foldl better a) := by
  induction l generalizing a with
  | nil => exact ⟨List.mem_cons_self, fun b hb => List.mem_singleton.mp hb ▸ .refl b⟩
  | cons c l ih =>
    obtain ⟨hmem, hbest⟩ := ih (better a c)
    obtain ⟨ha, hc⟩ := noBetter_better a c
    have hkept := hbest _ List.mem_cons_self
    refine ⟨?_, fun b hb => ?_⟩
    · rcases List.mem_cons.mp hmem with h | h
      · rw [List.foldl_cons, h, better]
        split_ifs
        · exact List.mem_cons_of_mem _ List.mem_cons_self
        · exact List.mem_cons_self
      · exact List.mem_cons_of_mem _ (List.mem_cons_of_mem _ h)
    · rcases List.mem_cons.mp hb with rfl | hb
      · exact ha.trans hkept
      · rcases List.mem_cons.mp hb with rfl | hb
        · exact hc.trans hkept
        · exact hbest b (List.mem_cons_of_mem _ hb)

/-- A candidate is one of its own point's offsets, which it matches. -/
theorem agreeing_candidate [IsStrictOrderedRing K] (hhypot : Hypot hypot)
    {offsets : List (List (Point K))} {s : Point K}
    (hs : s ∈ candidates hypot offsets) : 0 < (agreeing hypot offsets s).length := by
  obtain ⟨own, hown, hmem, -⟩ := mem_candidates.mp hs
  have hzero : distance hypot (s - s) < MATCH_TPL_PX := by
    rw [sub_self]
    exact hhypot.zero.trans_lt (by simp [MATCH_TPL_PX])
  cases hnearest : nearest hypot s own with
  | none => exact absurd hzero (nearest_eq_none hnearest s hmem)
  | some found => exact List.length_pos_of_mem (List.mem_filterMap.mpr ⟨own, hown, hnearest⟩)

private theorem best_cases [IsStrictOrderedRing K] (hhypot : Hypot hypot) (offsets : List (List (Point K))) :
    (candidates hypot offsets = [] ∧ best hypot offsets = []) ∨ ∃ s ∈ candidates hypot offsets,
      best hypot offsets = agreeing hypot offsets s ∧
        ∀ s' ∈ candidates hypot offsets, NoBetter (agreeing hypot offsets s') (agreeing hypot offsets s) := by
  obtain ⟨hmem, hbest⟩ := foldl_better ((candidates hypot offsets).map (agreeing hypot offsets)) []
  change best hypot offsets ∈ _ at hmem
  change ∀ b ∈ _, NoBetter b (best hypot offsets) at hbest
  rcases List.mem_cons.mp hmem with hnone | hsome
  · refine .inl ⟨List.eq_nil_iff_forall_not_mem.mpr fun s hs => ?_, hnone⟩
    have hfew := (hbest _ (List.mem_cons_of_mem _ (List.mem_map_of_mem hs))).1
    rw [hnone] at hfew
    exact absurd (agreeing_candidate hhypot hs) (not_lt.mpr hfew)
  · obtain ⟨s, hs, heq⟩ := List.mem_map.mp hsome
    refine .inr ⟨s, hs, heq.symm, fun s' hs' => ?_⟩
    rw [heq]
    exact hbest _ (List.mem_cons_of_mem _ (List.mem_map_of_mem hs'))

omit [LinearOrder K] in
theorem sum_eq (offsets : List (Offset K)) : sum offsets = (offsets.map fun o => o.stray).sum := by
  rw [sum, List.sum_eq_foldl, List.foldl_map]

/-- An offset from a point to a mark within the carry's reach. -/
def InReach (hypot : K → K → K) (marks : List (Point K)) (points : List (Option (Point K))) (s : Point K) : Prop :=
  (∃ p, some p ∈ points ∧ ∃ m ∈ marks, s = m - p) ∧ distance hypot s < CARRY_MATCH_TPL_PX

/-- Of all offsets in reach, one that brings the most points within the match radius of a mark, straying least. -/
structure Chosen (hypot : K → K → K) (marks : List (Point K)) (points : List (Option (Point K))) (s : Point K) :
    Prop where
  inReach : InReach hypot marks points s
  most : ∀ s', InReach hypot marks points s' →
    (brought hypot marks points s').length ≤ (brought hypot marks points s).length
  least : ∀ s', InReach hypot marks points s' →
    (brought hypot marks points s').length = (brought hypot marks points s).length →
      (brought hypot marks points s).sum ≤ (brought hypot marks points s').sum

/-- The offset from each point that `s` brings within the radius to its nearest mark. -/
def NearestOffsets (hypot : K → K → K) (marks : List (Point K)) (points : List (Option (Point K))) (s : Point K)
    (found : List (Offset K)) : Prop :=
  (found.map fun o => o.stray) = brought hypot marks points s ∧
    ∀ o ∈ found, o.stray = distance hypot (o.offset - s) ∧ ∃ p, some p ∈ points ∧ ∃ m ∈ marks, o.offset = m - p

omit [LinearOrder K] in
theorem mem_offsetsTo {marks : List (Point K)} {points : List (Option (Point K))} {s : Point K} :
    (∃ own ∈ points.map (offsetsTo marks), s ∈ own) ↔ ∃ p, some p ∈ points ∧ ∃ m ∈ marks, s = m - p := by
  constructor
  · rintro ⟨own, hown, hs⟩
    obtain ⟨p, hp, rfl⟩ := List.mem_map.mp hown
    cases p with
    | none => simp [offsetsTo] at hs
    | some p =>
      obtain ⟨m, hm, rfl⟩ := List.mem_map.mp hs
      exact ⟨p, hp, m, hm, rfl⟩
  · rintro ⟨p, hp, m, hm, rfl⟩
    exact ⟨_, List.mem_map_of_mem hp, List.mem_map_of_mem hm⟩

theorem mem_candidates_iff {marks : List (Point K)} {points : List (Option (Point K))} {s : Point K} :
    s ∈ candidates hypot (points.map (offsetsTo marks)) ↔ InReach hypot marks points s := by
  rw [mem_candidates, InReach, ← mem_offsetsTo]
  constructor
  · rintro ⟨own, hown, hs, hreach⟩
    exact ⟨⟨own, hown, hs⟩, hreach⟩
  · rintro ⟨⟨own, hown, hs⟩, hreach⟩
    exact ⟨own, hown, hs, hreach⟩

private theorem nearestOffsets_agreeing (marks : List (Point K)) (points : List (Option (Point K))) (s : Point K) :
    NearestOffsets hypot marks points s (agreeing hypot (points.map (offsetsTo marks)) s) := by
  refine ⟨stray_agreeing marks points s, fun o ho => ?_⟩
  obtain ⟨own, hown, hnearest⟩ := List.mem_filterMap.mp ho
  obtain ⟨hmem, hstray, -, -⟩ := nearest_eq_some hnearest
  exact ⟨hstray, mem_offsetsTo.mp ⟨own, hown, hmem⟩⟩

/-- No shift where nothing is in reach; else the median of the offsets that the chosen one agrees with. -/
theorem carryShift_cases [IsStrictOrderedRing K] (hhypot : Hypot hypot) (marks : List (Point K))
    (points : List (Option (Point K))) :
    ((∀ s, ¬ InReach hypot marks points s) ∧ carryShift hypot (points.map (offsetsTo marks)) = 0) ∨
      ∃ s found, Chosen hypot marks points s ∧ NearestOffsets hypot marks points s found ∧
        carryShift hypot (points.map (offsetsTo marks)) =
          (median (found.map fun o => o.offset.1), median (found.map fun o => o.offset.2)) := by
  have hlength : ∀ s, (agreeing hypot (points.map (offsetsTo marks)) s).length =
      (brought hypot marks points s).length :=
    fun s => by rw [← stray_agreeing, List.length_map]
  have hsum : ∀ s, sum (agreeing hypot (points.map (offsetsTo marks)) s) = (brought hypot marks points s).sum :=
    fun s => by rw [← stray_agreeing, sum_eq]
  rcases best_cases hhypot (points.map (offsetsTo marks)) with ⟨hnone, hbest⟩ | ⟨s, hs, hbest, hchosen⟩
  · refine .inl ⟨fun s hs => ?_, ?_⟩
    · have hmem := mem_candidates_iff.mpr hs
      rw [hnone] at hmem
      exact absurd hmem List.not_mem_nil
    · rw [carryShift, hbest]
      rfl
  · refine .inr ⟨s, _, ⟨mem_candidates_iff.mp hs, fun s' hs' => ?_, fun s' hs' heq => ?_⟩,
      nearestOffsets_agreeing marks points s, by rw [carryShift, hbest]⟩
    · rw [← hlength, ← hlength]
      exact (hchosen s' (mem_candidates_iff.mpr hs')).1
    · rw [← hlength, ← hlength] at heq
      rw [← hsum, ← hsum]
      exact (hchosen s' (mem_candidates_iff.mpr hs')).2 heq

/-- Every point is carried through the picture, then by one shift: the median of the offsets that the chosen one agrees
with, or none where no mark is in reach. -/
def Carries (hypot : K → K → K) (views : ℕ → BaselineView K) (fromRun toRun : RunGeometry K) (holes : List (Point K))
    (carry : Point K → Option (Point K)) : Prop :=
  ∃ last, fromRun.places.getLast? = some last ∧
    let view := views toRun.baselineView
    let points := (holes ++ (views fromRun.baselineView).baselineMarks).map (through last view)
    ∃ shift, (∀ p, carry p = (through last view p).map fun q => q + shift) ∧
      (((∀ s, ¬ InReach hypot view.baselineMarks points s) ∧ shift = 0) ∨
        ∃ s found, Chosen hypot view.baselineMarks points s ∧ NearestOffsets hypot view.baselineMarks points s found ∧
          shift = (median (found.map fun o => o.offset.1), median (found.map fun o => o.offset.2)))

theorem carries_carrier [IsStrictOrderedRing K] (hhypot : Hypot hypot) {views : ℕ → BaselineView K}
    {fromRun toRun : RunGeometry K} {holes : List (Point K)} {carry : Point K → Option (Point K)}
    (h : carrier hypot views fromRun toRun holes = .ok carry) : Carries hypot views fromRun toRun holes carry := by
  rw [carrier_eq_plainCarrier hhypot, plainCarrier, carrierOver] at h
  cases hlast : fromRun.places.getLast? with
  | none => rw [hlast] at h; cases h
  | some last =>
    rw [hlast] at h
    obtain rfl := Except.ok.inj h
    refine ⟨last, hlast, _, fun p => rfl, ?_⟩
    simp only [List.filter_true]
    exact carryShift_cases hhypot _ _

/-- A carrier depends on the marks, last place and holes carried from, and the view carried onto. -/
theorem carrier_congr {views : ℕ → BaselineView K} {fromRun fromRun' toRun toRun' : RunGeometry K}
    (holes : List (Point K)) (hmarks : views fromRun.baselineView = views fromRun'.baselineView)
    (hlast : fromRun.places.getLast? = fromRun'.places.getLast?) (hview : toRun.baselineView = toRun'.baselineView) :
    carrier hypot views fromRun toRun holes = carrier hypot views fromRun' toRun' holes := by
  unfold carrier carrierOver
  rw [hmarks, hlast, hview]

noncomputable def mathHypot (x y : ℝ) : ℝ := √(x ^ 2 + y ^ 2)

theorem hypot_mathHypot : Hypot mathHypot where
  zero := by simp [mathHypot]
  triangle p q := by
    change √((p.1 + q.1) ^ 2 + (p.2 + q.2) ^ 2) ≤ √(p.1 ^ 2 + p.2 ^ 2) + √(q.1 ^ 2 + q.2 ^ 2)
    have hp := Real.sq_sqrt (add_nonneg (sq_nonneg p.1) (sq_nonneg p.2))
    have hq := Real.sq_sqrt (add_nonneg (sq_nonneg q.1) (sq_nonneg q.2))
    have hroots := mul_nonneg (Real.sqrt_nonneg (p.1 ^ 2 + p.2 ^ 2)) (Real.sqrt_nonneg (q.1 ^ 2 + q.2 ^ 2))
    have hinner : p.1 * q.1 + p.2 * q.2 ≤ √(p.1 ^ 2 + p.2 ^ 2) * √(q.1 ^ 2 + q.2 ^ 2) := by
      refine le_of_sq_le_sq ?_ hroots
      rw [mul_pow, hp, hq]
      nlinarith [sq_nonneg (p.1 * q.2 - p.2 * q.1)]
    refine Real.sqrt_le_iff.mpr ⟨by positivity, ?_⟩
    nlinarith only [hp, hq, hinner]

end Kanat.CarryShift
