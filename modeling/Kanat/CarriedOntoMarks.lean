import Kanat.CarryShift
import Mathlib.Algebra.BigOperators.Group.Finset.Basic
import Mathlib.Algebra.Order.BigOperators.Group.List

/-! # A camera's creep between two Runs, and the marks that carried holes stand for (utils/overlay.ts)

Where the camera crept by one translation, the later Baseline View has every hole and mark of the earlier Run moved by
it, and no more may be known of the marks. -/
namespace Kanat.CarriedOntoMarks
open CarryShift

variable {K : Type} [Field K] [LinearOrder K]

def baselineMarksToDraw (hypot : K → K → K) (marks holes : List (Point K)) : List (Point K) :=
  marks.filter fun m => holes.all fun h => hypot (m.1 - h.1) (m.2 - h.2) ≥ MATCH_TPL_PX

/-- No two places are at no distance. -/
structure Definite (hypot : K → K → K) : Prop extends Hypot hypot where
  nonneg : ∀ p, 0 ≤ distance hypot p
  eq_zero : ∀ p, distance hypot p = 0 → p = 0

/-- The later baseline saw every point, moved by `s`. -/
structure Crept (hypot : K → K → K) (marks : List (Point K)) (points : List (Option (Point K))) (s : Point K) :
    Prop where
  reach : distance hypot s < CARRY_MATCH_TPL_PX
  seen : ∀ p, some p ∈ points → p + s ∈ marks

variable {hypot : K → K → K} {marks : List (Point K)} {points : List (Option (Point K))} {s p : Point K}

private theorem reached_nonneg (hhypot : Definite hypot) {stray : K} (h : reached hypot marks s p = some stray) :
    0 ≤ stray := by
  obtain ⟨hmin, -⟩ := Option.filter_eq_some_iff.mp h
  obtain ⟨m, -, rfl⟩ := List.mem_map.mp (List.min?_mem hmin)
  exact hhypot.nonneg _

theorem reached_eq_zero [IsStrictOrderedRing K] (hhypot : Definite hypot) :
    reached hypot marks s p = some 0 ↔ p + s ∈ marks := by
  constructor
  · intro h
    obtain ⟨hmin, -⟩ := Option.filter_eq_some_iff.mp h
    obtain ⟨m, hm, hzero⟩ := List.mem_map.mp (List.min?_mem hmin)
    have hsame := hhypot.eq_zero _ hzero
    rwa [← sub_eq_zero.mp hsame]
  · intro h
    have hmin : (marks.map fun m => distance hypot (m - (p + s))).min? = some 0 := by
      rw [List.min?_eq_some_iff]
      refine ⟨List.mem_map.mpr ⟨p + s, h, ?_⟩, fun stray hstray => ?_⟩
      · rw [sub_self]
        exact hhypot.zero
      · obtain ⟨m, -, rfl⟩ := List.mem_map.mp hstray
        exact hhypot.nonneg _
    rw [reached, hmin, Option.filter_some, if_pos]
    simp [MATCH_TPL_PX]

/-- The points on the picture. -/
def onPicture (points : List (Option (Point K))) : List (Point K) := points.filterMap id

theorem brought_eq (points : List (Option (Point K))) (s : Point K) :
    brought hypot marks points s = (onPicture points).filterMap (reached hypot marks s) := by
  unfold brought onPicture
  rw [List.filterMap_filterMap]
  rfl

omit [Field K] [LinearOrder K] in
theorem mem_onPicture : p ∈ onPicture points ↔ some p ∈ points := by
  simp [onPicture]

variable [IsStrictOrderedRing K]

private theorem brought_crept (hhypot : Definite hypot) (h : Crept hypot marks points s) :
    brought hypot marks points s = List.replicate (onPicture points).length 0 := by
  rw [brought_eq, List.eq_replicate_iff, List.filterMap_length_eq_length]
  have hall : ∀ p ∈ onPicture points, reached hypot marks s p = some 0 := fun p hp =>
    (reached_eq_zero hhypot).mpr (h.seen p (mem_onPicture.mp hp))
  refine ⟨fun p hp => by rw [hall p hp]; rfl, fun stray hstray => ?_⟩
  obtain ⟨p, hp, heq⟩ := List.mem_filterMap.mp hstray
  rw [hall p hp] at heq
  exact (Option.some.inj heq).symm

omit [IsStrictOrderedRing K] in
theorem inReach_crept (h : Crept hypot marks points s) (hp : some p ∈ points) : InReach hypot marks points s :=
  ⟨⟨p, hp, p + s, h.seen p hp, (add_sub_cancel_left p s).symm⟩, h.reach⟩

/-- What is chosen then strays from no mark. -/
theorem brought_chosen (hhypot : Definite hypot) (h : Crept hypot marks points s) {c : Point K}
    (hc : Chosen hypot marks points c) (hp : some p ∈ points) :
    brought hypot marks points c = List.replicate (onPicture points).length 0 := by
  have hreach := inReach_crept h hp
  have hcrept := brought_crept hhypot h
  have hlength : (brought hypot marks points c).length = (onPicture points).length := by
    refine le_antisymm ?_ ?_
    · rw [brought_eq]
      exact List.length_filterMap_le _ _
    · have hmost := hc.most s hreach
      rwa [hcrept, List.length_replicate] at hmost
  have hnonneg : ∀ stray ∈ brought hypot marks points c, 0 ≤ stray := by
    intro stray hstray
    rw [brought_eq] at hstray
    obtain ⟨q, -, hq⟩ := List.mem_filterMap.mp hstray
    exact reached_nonneg hhypot hq
  have hsum : (brought hypot marks points c).sum = 0 := by
    refine le_antisymm ?_ (List.sum_nonneg hnonneg)
    have hleast := hc.least s hreach (by rw [hcrept, List.length_replicate, hlength])
    rwa [hcrept, List.sum_replicate, smul_zero] at hleast
  exact List.eq_replicate_iff.mpr
    ⟨hlength, fun stray hstray => List.all_zero_of_le_zero_le_of_sum_eq_zero hnonneg hsum hstray⟩

private theorem chosen_onto_mark (hhypot : Definite hypot) (h : Crept hypot marks points s) {c : Point K}
    (hc : Chosen hypot marks points c) (hp : some p ∈ points) : p + c ∈ marks := by
  have hbrought := brought_chosen hhypot h hc hp
  rw [brought_eq] at hbrought
  have hlength := congrArg List.length hbrought
  rw [List.length_replicate, List.filterMap_length_eq_length] at hlength
  obtain ⟨stray, hstray⟩ := Option.isSome_iff_exists.mp (hlength p (mem_onPicture.mpr hp))
  have hzero := List.eq_of_mem_replicate (hbrought ▸ List.mem_filterMap.mpr ⟨p, mem_onPicture.mpr hp, hstray⟩)
  exact (reached_eq_zero hhypot).mp (hzero ▸ hstray)

omit [Field K] [IsStrictOrderedRing K] in
private theorem insertionSort_replicate (n : ℕ) (a : K) :
    (List.replicate n a).insertionSort (· ≤ ·) = List.replicate n a :=
  List.perm_replicate.mp (List.perm_insertionSort _ _)

theorem median_replicate (n : ℕ) (a : K) : median (List.replicate (n + 1) a) = a := by
  have hget : ∀ k < n + 1, (List.replicate (n + 1) a).getD k 0 = a := by
    intro k hk
    rw [List.getD_eq_getElem?_getD, List.getElem?_replicate, if_pos hk, Option.getD_some]
  unfold median
  dsimp only
  rw [insertionSort_replicate, List.length_replicate, if_neg (Nat.succ_ne_zero n)]
  split_ifs
  · exact hget _ (by omega)
  · rw [hget _ (by omega), hget _ (by omega), add_self_div_two]

/-- So the shift carried by is the one chosen. -/
theorem shift_chosen (hhypot : Definite hypot) (h : Crept hypot marks points s) {c : Point K}
    (hc : Chosen hypot marks points c) (hp : some p ∈ points) {found : List (Offset K)}
    (hfound : NearestOffsets hypot marks points c found) :
    (median (found.map fun o => o.offset.1), median (found.map fun o => o.offset.2)) = c := by
  obtain ⟨hstrays, hoffsets⟩ := hfound
  rw [brought_chosen hhypot h hc hp] at hstrays
  have hoffset : ∀ o ∈ found, o.offset = c := by
    intro o ho
    have hzero := List.eq_of_mem_replicate (hstrays ▸ List.mem_map_of_mem ho)
    have hsame := hhypot.eq_zero (o.offset - c) ((hoffsets o ho).1.symm.trans hzero)
    exact sub_eq_zero.mp hsame
  obtain ⟨n, hn⟩ : ∃ n, found.length = n + 1 := by
    refine Nat.exists_eq_succ_of_ne_zero ?_
    rw [← List.length_map, hstrays, List.length_replicate]
    exact (List.length_pos_of_mem (mem_onPicture.mpr hp)).ne'
  have hx : found.map (fun o => o.offset.1) = List.replicate (n + 1) c.1 :=
    hn ▸ List.map_eq_replicate_iff.mpr fun o ho => congrArg Prod.fst (hoffset o ho)
  have hy : found.map (fun o => o.offset.2) = List.replicate (n + 1) c.2 :=
    hn ▸ List.map_eq_replicate_iff.mpr fun o ho => congrArg Prod.snd (hoffset o ho)
  rw [hx, hy, median_replicate, median_replicate]

/-- Of marks that are the points moved by `s`, the points are brought onto all by no other shift. -/
theorem eq_of_onto_marks {c : Point K} (hp : some p ∈ points) (hmoved : ∀ m ∈ marks, ∃ p, some p ∈ points ∧ m = p + s)
    (honto : ∀ p, some p ∈ points → p + c ∈ marks) : c = s := by
  classical
  let ps := (onPicture points).toFinset
  have hmaps : ps.image (· + (c - s)) ⊆ ps := by
    intro q hq
    obtain ⟨p, hp, rfl⟩ := Finset.mem_image.mp hq
    obtain ⟨r, hr, heq⟩ := hmoved _ (honto p (mem_onPicture.mp (List.mem_toFinset.mp hp)))
    have hsame : p + (c - s) = r := by rw [← add_sub_assoc, heq, add_sub_cancel_right]
    rw [hsame]
    exact List.mem_toFinset.mpr (mem_onPicture.mpr hr)
  have hinjective : Function.Injective fun q : Point K => q + (c - s) := fun _ _ h => add_right_cancel h
  have himage : ps.image (· + (c - s)) = ps :=
    Finset.eq_of_subset_of_card_le hmaps (Finset.card_image_of_injective ps hinjective).ge
  have hsum : ∑ q ∈ ps, q + ps.card • (c - s) = ∑ q ∈ ps, q := by
    conv_rhs => rw [← himage, Finset.sum_image fun _ _ _ _ h => hinjective h, Finset.sum_add_distrib]
    rw [Finset.sum_const]
  have hzero : ps.card • (c - s) = 0 := by simpa using hsum
  have hcard : ps.card ≠ 0 := Finset.card_ne_zero_of_mem (List.mem_toFinset.mpr (mem_onPicture.mpr hp))
  exact sub_eq_zero.mp ((smul_eq_zero.mp hzero).resolve_left hcard)

omit [IsStrictOrderedRing K] in
/-- A mark that a hole is drawn on is not drawn. -/
theorem not_drawn (hhypot : Definite hypot) (hpos : (0 : K) < MATCH_TPL_PX) {m : Point K} {holes : List (Point K)}
    (hm : m ∈ holes) : m ∉ baselineMarksToDraw hypot marks holes := by
  intro hdrawn
  have hfar := List.all_eq_true.mp (List.mem_filter.mp hdrawn).2 m hm
  have hnear : hypot (m.1 - m.1) (m.2 - m.2) = 0 := by
    rw [sub_self, sub_self]
    exact hhypot.zero
  rw [hnear] at hfar
  exact absurd (of_decide_eq_true hfar) (not_le.mpr hpos)

theorem definite_mathHypot : Definite mathHypot where
  toHypot := hypot_mathHypot
  nonneg _ := Real.sqrt_nonneg _
  eq_zero p h := by
    have hsq : p.1 ^ 2 + p.2 ^ 2 = 0 := (Real.sqrt_eq_zero (by positivity)).mp h
    have hx : p.1 = 0 := by nlinarith [sq_nonneg p.1, sq_nonneg p.2]
    have hy : p.2 = 0 := by nlinarith [sq_nonneg p.1, sq_nonneg p.2]
    exact Prod.ext hx hy

noncomputable section

def tenPxViews : ℕ → BaselineView ℝ
  | 0 => ⟨1, [(500, 0)]⟩
  | _ => ⟨1, [(10, 0), (1010, 0), (510, 0)]⟩

def earlierRun : RunGeometry ℝ := ⟨0, "2026-10-22T10:00:00Z", 0, [⟨"2026-10-22T10:00:00Z", 1⟩]⟩

def laterRun : RunGeometry ℝ := ⟨1, "2026-10-22T10:05:00Z", 1, [⟨"2026-10-22T10:05:00Z", 1⟩]⟩

end

end Kanat.CarriedOntoMarks
