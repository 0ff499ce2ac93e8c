import Mathlib.Algebra.Order.Field.Basic
import Mathlib.Data.List.Sort
import Mathlib.Tactic.Linarith

/-! # Medians and majorities

The median of a sample lies where most of the sample does. -/
namespace Kanat.Medians

variable {K : Type} [Field K] [LinearOrder K] {l sorted : List K} {c : K} {i : ℕ}

/-- The middle one of the sorted sample, or the mean of the two middle ones. -/
def median (l : List K) : K :=
  let sorted := l.mergeSort (· ≤ ·)
  let i := l.length / 2
  if l.length % 2 = 1 then sorted.getD i 0 else (sorted.getD (i - 1) 0 + sorted.getD i 0) / 2

def half (x : K) : K := x / 2

omit [Field K] in
theorem getElem_le (hsorted : sorted.Pairwise (· ≤ ·)) (hi : i < sorted.length) (h : i < sorted.countP (· ≤ c)) :
    sorted[i] ≤ c := by
  by_contra hlt
  have hrest : (sorted.drop i).countP (· ≤ c) = 0 := by
    refine List.countP_eq_zero.mpr fun x hx => ?_
    obtain ⟨j, hj, rfl⟩ := List.mem_iff_getElem.mp hx
    rw [List.length_drop] at hj
    rw [List.getElem_drop]
    have hle : sorted[i] ≤ sorted[i + j] := by
      rcases Nat.eq_zero_or_pos j with rfl | hpos
      · exact le_refl _
      · exact List.pairwise_iff_getElem.mp hsorted i (i + j) hi (by omega) (by omega)
    exact fun hbad => hlt (hle.trans (of_decide_eq_true hbad))
  have hcount : sorted.countP (· ≤ c) = (sorted.take i).countP (· ≤ c) + (sorted.drop i).countP (· ≤ c) := by
    rw [← List.countP_append, List.take_append_drop]
  have hfew := List.countP_le_length (p := (· ≤ c)) (l := sorted.take i)
  rw [List.length_take] at hfew
  omega

omit [Field K] in
private theorem le_getElem (hsorted : sorted.Pairwise (· ≤ ·)) (hi : i < sorted.length)
    (h : sorted.length ≤ i + sorted.countP (c ≤ ·)) : c ≤ sorted[i] := by
  by_contra hlt
  have hfirst : (sorted.take (i + 1)).countP (c ≤ ·) = 0 := by
    refine List.countP_eq_zero.mpr fun x hx => ?_
    obtain ⟨j, hj, rfl⟩ := List.mem_iff_getElem.mp hx
    rw [List.length_take] at hj
    rw [List.getElem_take]
    have hle : sorted[j] ≤ sorted[i] := by
      rcases Nat.lt_or_ge j i with hlt | hge
      · exact List.pairwise_iff_getElem.mp hsorted j i (by omega) hi hlt
      · have heq : j = i := by omega
        subst heq
        exact le_refl _
    exact fun hbad => hlt ((of_decide_eq_true hbad).trans hle)
  have hcount : sorted.countP (c ≤ ·) =
      (sorted.take (i + 1)).countP (c ≤ ·) + (sorted.drop (i + 1)).countP (c ≤ ·) := by
    rw [← List.countP_append, List.take_append_drop]
  have hfew := List.countP_le_length (p := (c ≤ ·)) (l := sorted.drop (i + 1))
  rw [List.length_drop] at hfew
  omega

variable [IsStrictOrderedRing K]

/-- Most of the sample is at most `c`. -/
theorem median_le (h : l.length < 2 * l.countP (· ≤ c)) : median l ≤ c := by
  have hsorted := List.pairwise_mergeSort' (· ≤ ·) l
  have hcount : (l.mergeSort (· ≤ ·)).countP (· ≤ c) = l.countP (· ≤ c) := (List.mergeSort_perm l _).countP_eq _
  have hlength : (l.mergeSort (· ≤ ·)).length = l.length := List.length_mergeSort l
  have hle := List.countP_le_length (p := (· ≤ c)) (l := l)
  have hplace : ∀ j ≤ l.length / 2, (l.mergeSort (· ≤ ·)).getD j 0 ≤ c := by
    intro j hj
    have hj' : j < (l.mergeSort (· ≤ ·)).length := by omega
    rw [List.getD_eq_getElem?_getD, List.getElem?_eq_getElem hj', Option.getD_some]
    exact getElem_le hsorted hj' (by omega)
  unfold median
  split_ifs
  · exact hplace _ (le_refl _)
  · have hlow := hplace (l.length / 2 - 1) (Nat.sub_le _ _)
    have hhigh := hplace (l.length / 2) (le_refl _)
    linarith

/-- Most of the sample is at least `c`. -/
theorem le_median (h : l.length < 2 * l.countP (c ≤ ·)) : c ≤ median l := by
  have hsorted := List.pairwise_mergeSort' (· ≤ ·) l
  have hcount : (l.mergeSort (· ≤ ·)).countP (c ≤ ·) = l.countP (c ≤ ·) := (List.mergeSort_perm l _).countP_eq _
  have hlength : (l.mergeSort (· ≤ ·)).length = l.length := List.length_mergeSort l
  have hle := List.countP_le_length (p := (c ≤ ·)) (l := l)
  have hplace : ∀ j ≤ l.length / 2, l.length ≤ j + l.countP (c ≤ ·) → c ≤ (l.mergeSort (· ≤ ·)).getD j 0 := by
    intro j hj hmost
    have hj' : j < (l.mergeSort (· ≤ ·)).length := by omega
    rw [List.getD_eq_getElem?_getD, List.getElem?_eq_getElem hj', Option.getD_some]
    exact le_getElem hsorted hj' (by omega)
  unfold median
  split_ifs
  · exact hplace _ (le_refl _) (by omega)
  · have hlow := hplace (l.length / 2 - 1) (Nat.sub_le _ _) (by omega)
    have hhigh := hplace (l.length / 2) (le_refl _) (by omega)
    linarith

end Kanat.Medians
