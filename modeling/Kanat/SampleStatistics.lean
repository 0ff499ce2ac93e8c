import Kanat.Numerals
import Mathlib.Analysis.Real.Sqrt
import Mathlib.Data.List.Sort
import Mathlib.Tactic.Ring
import Mathlib.Tactic.FieldSimp

/-! # Statistics of samples and of points in the plane, over the reals

None depends on the order of the sample, and the spreads of points about their mean not on where they lie. -/
namespace Kanat.SampleStatistics
open scoped List

noncomputable section

abbrev Point := ℝ × ℝ

def mean (xs : List ℝ) : ℝ := xs.sum / xs.length

/-- The middle one of the sorted sample, or the mean of the two middle ones. -/
def median (xs : List ℝ) : ℝ :=
  let sorted := xs.mergeSort (· ≤ ·)
  let i := xs.length / 2
  if xs.length % 2 = 1 then sorted.getD i 0 else (sorted.getD (i - 1) 0 + sorted.getD i 0) / 2

def distance (p q : Point) : ℝ := √((p.1 - q.1) ^ 2 + (p.2 - q.2) ^ 2)

/-- Every two of a list, each pair once. -/
def pairs {α : Type} : List α → List (α × α)
  | [] => []
  | a :: l => l.map (fun b => (a, b)) ++ pairs l

/-- The greatest of a sample that is not empty. -/
def greatest (xs : List ℝ) : ℝ := xs.max?.getD 0

def centroid (pts : List Point) : Point := (mean (pts.map Prod.fst), mean (pts.map Prod.snd))

def distances (pts : List Point) : List ℝ := pts.map fun p => distance p (centroid pts)

def extreme (pts : List Point) : ℝ := greatest ((pairs pts).map fun p => distance p.1 p.2)

variable {xs ys : List ℝ} {pts pts' : List Point}

theorem mean_perm (h : xs ~ ys) : mean xs = mean ys := by rw [mean, mean, h.sum_eq, h.length_eq]

theorem median_perm (h : xs ~ ys) : median xs = median ys := by
  have hs : xs.mergeSort (· ≤ ·) = ys.mergeSort (· ≤ ·) :=
    (((List.mergeSort_perm xs _).trans h).trans (List.mergeSort_perm ys _).symm).eq_of_pairwise'
      (List.pairwise_mergeSort' (· ≤ ·) xs) (List.pairwise_mergeSort' (· ≤ ·) ys)
  rw [median, median, hs, h.length_eq]

private theorem max?_perm (h : xs ~ ys) : xs.max? = ys.max? := by
  cases hx : xs.max? with
  | none =>
    rw [List.max?_eq_none_iff] at hx
    subst hx
    obtain rfl := List.nil_perm.mp h
    rfl
  | some a =>
    obtain ⟨ha, hle⟩ := List.max?_eq_some_iff.mp hx
    exact (List.max?_eq_some_iff.mpr ⟨h.mem_iff.mp ha, fun b hb => hle b (h.mem_iff.mpr hb)⟩).symm

private theorem greatest_perm (h : xs ~ ys) : greatest xs = greatest ys := by rw [greatest, greatest, max?_perm h]

theorem centroid_perm (h : pts ~ pts') : centroid pts = centroid pts' := by
  rw [centroid, centroid, mean_perm (h.map _), mean_perm (h.map _)]

theorem distances_perm (h : pts ~ pts') : distances pts ~ distances pts' := by
  rw [distances, distances, centroid_perm h]
  exact h.map _

theorem distance_comm (p q : Point) : distance p q = distance q p := by
  rw [distance, distance]
  congr 1
  ring

/-- The distances of every two, which way round a pair is taken. -/
theorem pairs_perm (h : pts ~ pts') :
    (pairs pts).map (fun p => distance p.1 p.2) ~ (pairs pts').map fun p => distance p.1 p.2 := by
  induction h with
  | nil => exact .refl _
  | cons a h ih =>
    simp only [pairs, List.map_append, List.map_map]
    exact (h.map _).append ih
  | swap a b l =>
    simp only [pairs, List.map_append, List.map_map, List.map_cons, List.cons_append, Function.comp_def]
    rw [distance_comm b a]
    refine List.Perm.cons _ ?_
    rw [← List.append_assoc, ← List.append_assoc]
    exact List.perm_append_comm.append_right _
  | trans _ _ ih ih' => exact ih.trans ih'

theorem extreme_perm (h : pts ~ pts') : extreme pts = extreme pts' := greatest_perm (pairs_perm h)

def shift (v p : Point) : Point := (p.1 + v.1, p.2 + v.2)

theorem distance_shift (v p q : Point) : distance (shift v p) (shift v q) = distance p q := by
  simp only [distance, shift, add_sub_add_right_eq_sub]

theorem mean_add (h : xs ≠ []) (c : ℝ) : mean (xs.map (· + c)) = mean xs + c := by
  have hn : (xs.length : ℝ) ≠ 0 := Nat.cast_ne_zero.mpr (List.length_pos_iff.mpr h).ne'
  rw [mean, mean, List.length_map, List.sum_map_add, List.map_id', List.map_const', List.sum_replicate, nsmul_eq_mul]
  field_simp

theorem centroid_shift (h : pts ≠ []) (v : Point) : centroid (pts.map (shift v)) = shift v (centroid pts) := by
  have h1 := mean_add (mt List.map_eq_nil_iff.mp h : pts.map Prod.fst ≠ []) v.1
  have h2 := mean_add (mt List.map_eq_nil_iff.mp h : pts.map Prod.snd ≠ []) v.2
  rw [List.map_map] at h1 h2
  simp only [centroid, List.map_map, shift]
  exact Prod.ext h1 h2

theorem distances_shift (h : pts ≠ []) (v : Point) : distances (pts.map (shift v)) = distances pts := by
  simp only [distances, centroid_shift h, List.map_map, Function.comp_def, distance_shift]

private theorem pairs_map {α β : Type} (f : α → β) (l : List α) : pairs (l.map f) = (pairs l).map (Prod.map f f) := by
  induction l with
  | nil => rfl
  | cons a l ih => simp only [pairs, List.map_cons, List.map_append, List.map_map, ih, Function.comp_def, Prod.map]

theorem extreme_shift (v : Point) (pts : List Point) : extreme (pts.map (shift v)) = extreme pts := by
  simp only [extreme, pairs_map, List.map_map, Function.comp_def, Prod.map, distance_shift]

end
end Kanat.SampleStatistics
