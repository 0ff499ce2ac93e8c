import Mathlib.Data.List.Induction
import Mathlib.Tactic.Ring

/-! # Numbers written and read big-endian

A number is written in a given count of bytes, whatever its type: the frames and the packets take theirs from here. -/
namespace Kanat.BigEndian

/-- The last `k` bytes of a number, the highest first. -/
def write : ℕ → ℕ → List UInt8
  | 0, _ => []
  | k + 1, n => write k (n / 256) ++ [n.toUInt8]

def read (bytes : List UInt8) : ℕ := bytes.foldl (fun n b => 256 * n + b.toNat) 0

@[simp] theorem length_write (k n : ℕ) : (write k n).length = k := by
  induction k generalizing n with
  | zero => rfl
  | succ k ih => rw [write, List.length_append, ih, List.length_singleton]

theorem read_append_singleton (bytes : List UInt8) (b : UInt8) : read (bytes ++ [b]) = 256 * read bytes + b.toNat := by
  rw [read, List.foldl_append]
  rfl

/-- A number that fits is read as it was written. -/
theorem read_write (k n : ℕ) (h : n < 256 ^ k) : read (write k n) = n := by
  induction k generalizing n with
  | zero =>
    rw [pow_zero] at h
    obtain rfl : n = 0 := by omega
    rfl
  | succ k ih =>
    have hdiv : n / 256 < 256 ^ k := by
      rw [pow_succ] at h
      exact Nat.div_lt_of_lt_mul (by rw [Nat.mul_comm]; exact h)
    have hb : n.toUInt8.toNat = n % 256 := UInt8.toNat_ofNat'
    rw [write, read_append_singleton, ih _ hdiv, hb]
    omega

end Kanat.BigEndian
