import Kanat.Numerals
import Mathlib.Analysis.Real.Sqrt
import Mathlib.Tactic.Linarith
import Mathlib.Tactic.Positivity
import Mathlib.Tactic.Ring

/-! # Comparing Euclidean lengths of rational vectors without a square root

Lengths are irrational, their comparisons are not: each comparison below is
decided over `ℚ` and proved to be the one between the real lengths. -/
namespace Kanat.ExactDistance

/-- The vector `(x, y)` is shorter than `r`. -/
def Shorter (x y r : ℚ) : Prop := 0 < r ∧ x ^ 2 + y ^ 2 < r ^ 2

instance (x y r : ℚ) : Decidable (Shorter x y r) := inferInstanceAs (Decidable (_ ∧ _))

theorem shorter_iff (x y r : ℚ) :
    Shorter x y r ↔ √((x : ℝ) ^ 2 + (y : ℝ) ^ 2) < r := by
  constructor
  · rintro ⟨hr, h⟩
    rw [Real.sqrt_lt' (by exact_mod_cast hr)]
    exact_mod_cast h
  · intro h
    have hr : (0 : ℝ) < r := (Real.sqrt_nonneg _).trans_lt h
    rw [Real.sqrt_lt' hr] at h
    exact ⟨by exact_mod_cast hr, by exact_mod_cast h⟩

/-- The vector `(x, y)` is longer than `r`. -/
def Longer (x y r : ℚ) : Prop := r < 0 ∨ r ^ 2 < x ^ 2 + y ^ 2

instance (x y r : ℚ) : Decidable (Longer x y r) := inferInstanceAs (Decidable (_ ∨ _))

theorem longer_iff (x y r : ℚ) :
    Longer x y r ↔ r < √((x : ℝ) ^ 2 + (y : ℝ) ^ 2) := by
  rcases lt_or_ge r 0 with hr | hr
  · have hr' : (r : ℝ) < 0 := by exact_mod_cast hr
    exact iff_of_true (Or.inl hr) (hr'.trans_le (Real.sqrt_nonneg _))
  · rw [Longer, or_iff_right (not_lt.mpr hr), Real.lt_sqrt (by exact_mod_cast hr)]
    exact_mod_cast Iff.rfl

/-- A length of square `d` is below `c` times the sum of the lengths of squares
`a` and `b`. -/
def BelowSum (c d a b : ℚ) : Prop :=
  d - c ^ 2 * (a + b) < 0 ∨ (d - c ^ 2 * (a + b)) ^ 2 < 4 * c ^ 4 * a * b

instance (c d a b : ℚ) : Decidable (BelowSum c d a b) := inferInstanceAs (Decidable (_ ∨ _))

private theorem lt_two_mul_sqrt_iff {t p : ℝ} (hp : 0 ≤ p) :
    t < 2 * √p ↔ t < 0 ∨ t ^ 2 < 4 * p := by
  have hs := Real.sqrt_nonneg p
  have hq : (2 * √p) ^ 2 = 4 * p := by rw [mul_pow, Real.sq_sqrt hp]; norm_num
  rcases lt_or_ge t 0 with ht | ht
  · exact iff_of_true (by linarith) (Or.inl ht)
  · rw [← hq, or_iff_right (not_lt.mpr ht)]
    exact (pow_lt_pow_iff_left₀ ht (by positivity) two_ne_zero).symm

theorem belowSum_iff {c d a b : ℚ} (hc : 0 < c) (hd : 0 ≤ d) (ha : 0 ≤ a) (hb : 0 ≤ b) :
    BelowSum c d a b ↔ √(d : ℝ) < c * (√(a : ℝ) + √(b : ℝ)) := by
  have hc' : (0 : ℝ) < c := by exact_mod_cast hc
  have hd' : (0 : ℝ) ≤ d := by exact_mod_cast hd
  have ha' : (0 : ℝ) ≤ a := by exact_mod_cast ha
  have hb' : (0 : ℝ) ≤ b := by exact_mod_cast hb
  have hsum : 0 ≤ (c : ℝ) * (√(a : ℝ) + √(b : ℝ)) := by positivity
  have hroot : √((c : ℝ) ^ 4 * a * b) = c ^ 2 * (√(a : ℝ) * √(b : ℝ)) := by
    rw [mul_assoc, Real.sqrt_mul (by positivity), Real.sqrt_mul ha',
      show (c : ℝ) ^ 4 = (c ^ 2) ^ 2 by ring, Real.sqrt_sq (by positivity)]
  have hexp : ((c : ℝ) * (√(a : ℝ) + √(b : ℝ))) ^ 2 =
      c ^ 2 * (a + b) + 2 * √((c : ℝ) ^ 4 * a * b) := by
    rw [hroot, mul_pow, add_sq, Real.sq_sqrt ha', Real.sq_sqrt hb']
    ring
  have hcast : BelowSum c d a b ↔ (d : ℝ) - c ^ 2 * (a + b) < 0 ∨
      ((d : ℝ) - c ^ 2 * (a + b)) ^ 2 < 4 * (c ^ 4 * a * b) := by
    unfold BelowSum
    rw [show (4 : ℚ) * c ^ 4 * a * b = 4 * (c ^ 4 * a * b) by ring]
    exact_mod_cast Iff.rfl
  rw [hcast, ← lt_two_mul_sqrt_iff (by positivity), Real.sqrt_lt hd' hsum, hexp]
  constructor <;> intro h <;> linarith

/-- A length of square `d` is above `c` times the length of square `r`. -/
def AboveScaled (c d r : ℚ) : Prop := c < 0 ∧ 0 < r ∨ c ^ 2 * r < d

instance (c d r : ℚ) : Decidable (AboveScaled c d r) := inferInstanceAs (Decidable (_ ∨ _))

theorem aboveScaled_iff {c d r : ℚ} (hd : 0 ≤ d) (hr : 0 ≤ r) :
    AboveScaled c d r ↔ c * √(r : ℝ) < √(d : ℝ) := by
  have hd' : (0 : ℝ) ≤ d := by exact_mod_cast hd
  have hr' : (0 : ℝ) ≤ r := by exact_mod_cast hr
  have hsq : (c * √(r : ℝ)) ^ 2 = c ^ 2 * r := by rw [mul_pow, Real.sq_sqrt hr']
  rcases lt_or_ge c 0 with hc | hc
  · have hc' : (c : ℝ) < 0 := by exact_mod_cast hc
    rcases hr.eq_or_lt with rfl | hpos
    · simp [AboveScaled, Real.sqrt_pos]
    · have hroot : 0 < √(r : ℝ) := Real.sqrt_pos.mpr (by exact_mod_cast hpos)
      exact iff_of_true (Or.inl ⟨hc, hpos⟩) ((mul_neg_of_neg_of_pos hc' hroot).trans_le (Real.sqrt_nonneg _))
  · have hc' : (0 : ℝ) ≤ c := by exact_mod_cast hc
    rw [AboveScaled, or_iff_right fun h => not_lt.mpr hc h.1, Real.lt_sqrt (by positivity), hsq]
    exact_mod_cast Iff.rfl

/-- The length of a vector. -/
noncomputable def length (x y : ℚ) : ℝ := √((x : ℝ) ^ 2 + (y : ℝ) ^ 2)

theorem length_eq (x y : ℚ) : length x y = √((x ^ 2 + y ^ 2 : ℚ) : ℝ) := by
  rw [length]
  push_cast
  rfl

theorem length_neg (x y : ℚ) : length (-x) (-y) = length x y := by simp [length]

theorem length_add_le (x y x' y' : ℚ) : length (x + x') (y + y') ≤ length x y + length x' y' := by
  have ha : (0 : ℝ) ≤ (x : ℝ) ^ 2 + (y : ℝ) ^ 2 := by positivity
  have hb : (0 : ℝ) ≤ (x' : ℝ) ^ 2 + (y' : ℝ) ^ 2 := by positivity
  have hinner : (x : ℝ) * x' + y * y' ≤ √((x : ℝ) ^ 2 + (y : ℝ) ^ 2) * √((x' : ℝ) ^ 2 + (y' : ℝ) ^ 2) := by
    rw [← Real.sqrt_mul ha]
    refine (le_abs_self _).trans (Real.abs_le_sqrt ?_)
    nlinarith [sq_nonneg ((x : ℝ) * y' - y * x')]
  refine Real.sqrt_le_iff.mpr ⟨add_nonneg (Real.sqrt_nonneg _) (Real.sqrt_nonneg _), ?_⟩
  calc ((x + x' : ℚ) : ℝ) ^ 2 + ((y + y' : ℚ) : ℝ) ^ 2
      = ((x : ℝ) ^ 2 + (y : ℝ) ^ 2) + ((x' : ℝ) ^ 2 + (y' : ℝ) ^ 2) + 2 * ((x : ℝ) * x' + y * y') := by
        push_cast
        ring
    _ ≤ ((x : ℝ) ^ 2 + (y : ℝ) ^ 2) + ((x' : ℝ) ^ 2 + (y' : ℝ) ^ 2) +
          2 * (√((x : ℝ) ^ 2 + (y : ℝ) ^ 2) * √((x' : ℝ) ^ 2 + (y' : ℝ) ^ 2)) := by linarith
    _ = (length x y + length x' y') ^ 2 := by
        rw [length, length, add_sq, Real.sq_sqrt ha, Real.sq_sqrt hb]
        ring

end Kanat.ExactDistance
