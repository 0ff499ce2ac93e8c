import Kanat.Numerals
import Mathlib.Algebra.Order.Floor.Ring
import Mathlib.Algebra.Ring.Int.Parity
import Mathlib.Tactic.Linarith
import Mathlib.Tactic.Push

/-! # Numbers to whole ones

Over any ordered field with floors: Python's `round`, which takes a half to the even neighbour, and the conversion toward
zero of Python's `int` and C#'s casts. What is used of the first is that it is never more than a half off, so that it
passes no whole number. -/
namespace Kanat.Rounding

variable {R : Type*} [Field R] [LinearOrder R] [FloorRing R]

/-- A half goes to the even neighbour. -/
def pyRound (x : R) : ℤ :=
  if x - ⌊x⌋ < 1 / 2 then ⌊x⌋
  else if 1 / 2 < x - ⌊x⌋ then ⌊x⌋ + 1
  else if Even ⌊x⌋ then ⌊x⌋
  else ⌊x⌋ + 1

/-- Toward zero. -/
def truncate (x : R) : ℤ := if x < 0 then ⌈x⌉ else ⌊x⌋

theorem toNat_truncate (x : R) : (truncate x).toNat = ⌊x⌋.toNat := by
  unfold truncate
  split_ifs with h
  · rw [Int.toNat_of_nonpos (Int.ceil_le.mpr (by simpa using h.le)), Int.toNat_of_nonpos (Int.floor_nonpos h.le)]
  · rfl

variable [IsStrictOrderedRing R]

theorem pyRound_error (x : R) : |(pyRound x : R) - x| ≤ 1 / 2 := by
  have hfloor := Int.floor_le x
  have hlt := Int.lt_floor_add_one x
  simp only [pyRound]
  split_ifs <;> rw [abs_le] <;> constructor <;> push_cast <;> linarith

theorem le_pyRound {x : R} {n : ℤ} (h : n ≤ x) : n ≤ pyRound x := by
  have hlow := (abs_le.mp (pyRound_error x)).1
  have hlt : ((n - 1 : ℤ) : R) < pyRound x := by
    push_cast
    linarith
  have hlt' := Int.cast_lt.mp hlt
  omega

theorem pyRound_le {x : R} {n : ℤ} (h : x ≤ n) : pyRound x ≤ n := by
  have hup := (abs_le.mp (pyRound_error x)).2
  have hlt : (pyRound x : R) < ((n + 1 : ℤ) : R) := by
    push_cast
    linarith
  have hlt' := Int.cast_lt.mp hlt
  omega

theorem pyRound_intCast (n : ℤ) : pyRound (n : R) = n := by simp [pyRound]

end Kanat.Rounding
