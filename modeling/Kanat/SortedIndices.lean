import Kanat.Numerals
import Mathlib.Data.List.Perm.Subperm
import Mathlib.Order.Lattice

/-! # Counting in sorted index lists

`bisectLeft` is the insertion point a bisection finds in a sorted list. Counting
the entries of a half-open interval by two insertion points is then exact, and a
prefix below the interval may be dropped first. -/
namespace Kanat.SortedIndices

/-- The insertion point of `x` that keeps `xs` sorted, before equal entries. -/
def bisectLeft (xs : List ℕ) (x : ℕ) : ℕ := (xs.takeWhile (· < x)).length

/-- Entries of `xs` in `[lo, hi)`. -/
def countBetween (xs : List ℕ) (lo hi : ℕ) : ℕ := xs.countP (fun i => lo ≤ i ∧ i < hi)

@[simp] theorem countBetween_nil (lo hi : ℕ) : countBetween [] lo hi = 0 := rfl

@[simp] theorem countBetween_append (xs ys : List ℕ) (lo hi : ℕ) :
    countBetween (xs ++ ys) lo hi = countBetween xs lo hi + countBetween ys lo hi :=
  List.countP_append

theorem countBetween_singleton (i lo hi : ℕ) :
    countBetween [i] lo hi = if lo ≤ i ∧ i < hi then 1 else 0 := by
  simp [countBetween, List.countP_singleton]

theorem countBetween_eq_zero {xs : List ℕ} {lo hi : ℕ}
    (h : ∀ i ∈ xs, lo ≤ i → hi ≤ i) : countBetween xs lo hi = 0 := by
  apply List.countP_eq_zero.mpr
  intro i hi
  simpa using h i hi

theorem countBetween_split (xs : List ℕ) {lo mid hi : ℕ} (h₁ : lo ≤ mid) (h₂ : mid ≤ hi) :
    countBetween xs lo hi = countBetween xs lo mid + countBetween xs mid hi := by
  induction xs with
  | nil => rfl
  | cons x xs ih =>
    simp only [countBetween, List.countP_cons, decide_eq_true_eq] at ih ⊢
    split_ifs <;> omega

theorem bisectLeft_eq_countP {xs : List ℕ} (hs : xs.Pairwise (· ≤ ·)) (x : ℕ) :
    bisectLeft xs x = xs.countP (· < x) := by
  induction xs with
  | nil => rfl
  | cons a xs ih =>
    obtain ⟨ha, hs⟩ := List.pairwise_cons.mp hs
    by_cases hx : a < x
    · simpa [bisectLeft, hx] using ih hs
    · have hz : xs.countP (· < x) = 0 := by
        apply List.countP_eq_zero.mpr
        intro b hb
        have := ha b hb
        simp only [decide_eq_true_eq]
        omega
      simp [bisectLeft, hx, hz]

/-- Two insertion points of a sorted list count the interval between them. -/
theorem bisectLeft_sub {xs : List ℕ} (hs : xs.Pairwise (· ≤ ·)) (lo hi : ℕ) :
    bisectLeft xs hi - bisectLeft xs lo = countBetween xs lo hi := by
  rw [bisectLeft_eq_countP hs, bisectLeft_eq_countP hs]
  clear hs
  rcases Nat.lt_or_ge hi lo with h | h
  · have hz : countBetween xs lo hi = 0 := countBetween_eq_zero (fun i _ hi => by omega)
    have hm : xs.countP (· < hi) ≤ xs.countP (· < lo) :=
      List.countP_mono_left (fun i _ hi => by simp only [decide_eq_true_eq] at *; omega)
    omega
  · suffices xs.countP (· < hi) = xs.countP (· < lo) + countBetween xs lo hi by omega
    induction xs with
    | nil => rfl
    | cons x xs ih =>
      simp only [countBetween, List.countP_cons, decide_eq_true_eq] at ih ⊢
      split_ifs <;> omega

/-- What lies before the insertion point of `first` is below any interval from
`first` on, so a slice from there counts the same. -/
theorem countBetween_drop_bisectLeft {xs : List ℕ} (hs : xs.Pairwise (· ≤ ·))
    {first lo hi : ℕ} (h : first ≤ lo) :
    countBetween (xs.drop (bisectLeft xs first)) lo hi = countBetween xs lo hi := by
  induction xs with
  | nil => rfl
  | cons a xs ih =>
    obtain ⟨_, hs⟩ := List.pairwise_cons.mp hs
    by_cases ha : a < first
    · have hd : (a :: xs).drop (bisectLeft (a :: xs) first) = xs.drop (bisectLeft xs first) := by
        simp [bisectLeft, ha]
      have hz : ¬(lo ≤ a ∧ a < hi) := by omega
      rw [hd, ih hs]
      simp [countBetween, hz]
    · simp [bisectLeft, ha]

/-- A sorted list without repeats whose entries in an interval satisfy `p` has at
most as many there as the interval has indices satisfying `p`. -/
theorem countBetween_le_range' {xs : List ℕ} (hs : xs.Pairwise (· < ·)) (p : ℕ → Bool)
    (lo hi : ℕ) (hp : ∀ i ∈ xs, lo ≤ i → i < hi → p i = true) :
    countBetween xs lo hi ≤ (List.range' lo (hi - lo)).countP p := by
  have hnd : (xs.filter (fun i => lo ≤ i ∧ i < hi)).Nodup :=
    (hs.imp (fun h => Nat.ne_of_lt h)).filter _
  have hsub : xs.filter (fun i => lo ≤ i ∧ i < hi) ⊆ (List.range' lo (hi - lo)).filter p := by
    intro i hm
    obtain ⟨hm, hb⟩ := List.mem_filter.mp hm
    simp only [decide_eq_true_eq] at hb
    refine List.mem_filter.mpr ⟨?_, hp i hm hb.1 hb.2⟩
    rw [List.mem_range'_1]
    omega
  calc countBetween xs lo hi = (xs.filter (fun i => lo ≤ i ∧ i < hi)).length := by
        simp [countBetween, List.countP_eq_length_filter]
    _ ≤ ((List.range' lo (hi - lo)).filter p).length := (List.Nodup.subperm hnd hsub).length_le
    _ = _ := by rw [List.countP_eq_length_filter]

end Kanat.SortedIndices
