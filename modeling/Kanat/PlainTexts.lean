import Mathlib.Algebra.Order.Ring.Nat
import Mathlib.Data.List.Basic
import Mathlib.Data.List.DropRight
import Mathlib.Data.List.Induction
import Mathlib.Tactic.IntervalCases

/-! # Plain texts

What a text of digits stands for and which texts a number is written as, and a text without what surrounds it. -/
namespace Kanat.PlainTexts

def Digits (l : List Char) : Prop := ∀ c ∈ l, c.isDigit

instance (l : List Char) : Decidable (Digits l) := decidable_of_iff (l.all Char.isDigit = true) List.all_eq_true

def valueOf (l : List Char) : ℕ := Nat.ofDigitChars 10 l 0

variable {l : List Char} {c : Char} {n : ℕ}

@[simp] theorem digits_nil : Digits [] := fun _ hc => absurd hc List.not_mem_nil

theorem digits_cons : Digits (c :: l) ↔ c.isDigit ∧ Digits l := List.forall_mem_cons

theorem digits_toDigits (n : ℕ) : Digits (Nat.toDigits 10 n) := fun _ hc =>
  Nat.isDigit_of_mem_toDigits (by decide) (by decide) hc

@[simp] theorem valueOf_toDigits (n : ℕ) : valueOf (Nat.toDigits 10 n) = n := Nat.ofDigitChars_ten_toDigits

theorem valueOf_append_singleton (l : List Char) (c : Char) :
    valueOf (l ++ [c]) = 10 * valueOf l + (c.toNat - 48) := by
  rw [valueOf, Nat.ofDigitChars_append, Nat.ofDigitChars_cons, Nat.ofDigitChars_nil]
  rfl

theorem valueOf_append (l l' : List Char) : valueOf (l ++ l') = 10 ^ l'.length * valueOf l + valueOf l' := by
  induction l' using List.reverseRecOn with
  | nil => simp [valueOf]
  | append_singleton l' c ih =>
    rw [← List.append_assoc, valueOf_append_singleton, valueOf_append_singleton, ih, List.length_append,
      List.length_singleton, pow_succ, Nat.mul_add, Nat.add_assoc, ← Nat.mul_assoc, Nat.mul_comm 10]

theorem isDigit_iff : c.isDigit ↔ 48 ≤ c.toNat ∧ c.toNat ≤ 57 := by
  simp [Char.isDigit, UInt32.le_iff_toNat_le]

theorem isAlphanum_range (h : c.isAlphanum) :
    48 ≤ c.toNat ∧ c.toNat ≤ 57 ∨ 65 ≤ c.toNat ∧ c.toNat ≤ 90 ∨ 97 ≤ c.toNat ∧ c.toNat ≤ 122 := by
  rcases (Bool.or_eq_true _ _).mp h with hletter | hdigit
  · rcases (Bool.or_eq_true _ _).mp hletter with hupper | hlower
    · obtain ⟨hlow, hup⟩ := of_decide_eq_true hupper
      exact Or.inr (Or.inl ⟨UInt32.le_iff_toNat_le.mp hlow, UInt32.le_iff_toNat_le.mp hup⟩)
    · obtain ⟨hlow, hup⟩ := (Bool.and_eq_true _ _).mp hlower
      exact Or.inr (Or.inr ⟨UInt32.le_iff_toNat_le.mp (of_decide_eq_true hlow),
        UInt32.le_iff_toNat_le.mp (of_decide_eq_true hup)⟩)
  · exact Or.inl (isDigit_iff.mp hdigit)

private theorem digitChar_of_isDigit (h : c.isDigit) : Nat.digitChar (c.toNat - 48) = c := by
  obtain ⟨hl, hu⟩ := isDigit_iff.mp h
  have hc : c = Char.ofNat c.toNat := (Char.ofNat_toNat c).symm
  generalize c.toNat = n at *
  subst hc
  interval_cases n <;> rfl

/-- Digits that do not begin with a zero are written as they were read. -/
theorem toDigits_valueOf (h : Digits l) (hne : l ≠ []) (hz : 1 < l.length → l.head? ≠ some '0') :
    Nat.toDigits 10 (valueOf l) = l := by
  induction l using List.reverseRecOn with
  | nil => exact absurd rfl hne
  | append_singleton l c ih =>
    have hc : c.isDigit := h c (by simp)
    obtain ⟨hlow, hup⟩ := isDigit_iff.mp hc
    have hlast : Nat.toDigits 10 (c.toNat - 48) = [c] := by
      rw [Nat.toDigits_of_lt_base (by omega), digitChar_of_isDigit hc]
    rw [valueOf_append_singleton]
    by_cases hl : l = []
    · subst hl
      simpa [valueOf] using hlast
    · have hi := ih (fun d hd => h d (List.mem_append_left _ hd)) hl fun hlen => by
        have hz := hz (by simp; omega)
        rwa [List.head?_append_of_ne_nil _ hl] at hz
      -- a first part of value zero would be the digit 0, at the head
      have hpos : 0 < valueOf l := by
        by_contra h0
        rw [Nat.eq_zero_of_not_pos h0] at hi
        rw [← hi] at hz
        exact hz (by simp) (by simp)
      rw [← Nat.toDigits_append_toDigits (by decide) hpos (by omega), hi, hlast]

theorem toDigits_ne_zero_head (hn : 0 < n) : (Nat.toDigits 10 n).head? ≠ some '0' := by
  induction n using Nat.strong_induction_on with
  | _ n ih =>
    by_cases h : n < 10
    · rw [Nat.toDigits_of_lt_base h]
      interval_cases n <;> decide
    · have hd : n = 10 * (n / 10) + n % 10 := by omega
      rw [hd, ← Nat.toDigits_append_toDigits (by decide) (by omega) (Nat.mod_lt n (by decide)),
        List.head?_append_of_ne_nil _ Nat.toDigits_ne_nil]
      exact ih (n / 10) (by omega) (by omega)

/-- Python's `str.isspace`. -/
def isspace (c : Char) : Bool :=
  let n := c.toNat
  (9 ≤ n && n ≤ 13) || (0x1C ≤ n && n ≤ 0x20) || n == 0x85 || n == 0xA0 || n == 0x1680 ||
    (0x2000 ≤ n && n ≤ 0x200A) || n == 0x2028 || n == 0x2029 || n == 0x202F || n == 0x205F || n == 0x3000

/-- Without the characters of a kind it begins and ends with. -/
def strip (p : Char → Bool) (l : List Char) : List Char := (l.dropWhile p).rdropWhile p

variable {p : Char → Bool}

theorem strip_eq_nil : strip p l = [] ↔ ∀ c ∈ l, p c := by
  rw [strip, List.rdropWhile_eq_nil_iff]
  refine ⟨fun h c hc => ?_, fun h c hc => h c ((List.dropWhile_suffix p).subset hc)⟩
  rw [← List.takeWhile_append_dropWhile (p := p) (l := l)] at hc
  rcases List.mem_append.mp hc with hc | hc
  · exact List.mem_takeWhile_imp hc
  · exact h c hc

theorem strip_of_forall (h : ∀ c ∈ l, ¬p c) : strip p l = l := by
  have hd : l.dropWhile p = l := List.dropWhile_eq_self_iff.mpr fun hl => h _ (List.getElem_mem hl)
  rw [strip, hd]
  exact List.rdropWhile_eq_self_iff.mpr fun hl => h _ (List.getLast_mem hl)

theorem not_isspace_of_isDigit (h : c.isDigit) : ¬ isspace c := by
  have hdigit := isDigit_iff.mp h
  simp only [isspace, Bool.or_eq_true, Bool.and_eq_true, decide_eq_true_eq, beq_iff_eq]
  omega

theorem strip_of_digits (h : Digits l) : strip isspace l = l :=
  strip_of_forall fun c hc => not_isspace_of_isDigit (h c hc)

/-- With zeros before it, to so many digits at least. -/
def zeroPadded (digits n : ℕ) : List Char :=
  List.replicate (digits - (Nat.toDigits 10 n).length) '0' ++ Nat.toDigits 10 n

theorem digits_zeroPadded (digits n : ℕ) : Digits (zeroPadded digits n) := by
  refine List.forall_mem_append.mpr ⟨fun c hc => ?_, digits_toDigits n⟩
  rw [List.eq_of_mem_replicate hc]
  rfl

private theorem valueOf_cons_zero (l : List Char) : valueOf ('0' :: l) = valueOf l := by
  rw [valueOf, valueOf, Nat.ofDigitChars_cons]
  rfl

@[simp] theorem valueOf_zeroPadded (digits n : ℕ) : valueOf (zeroPadded digits n) = n := by
  rw [zeroPadded]
  induction digits - (Nat.toDigits 10 n).length with
  | zero => exact valueOf_toDigits n
  | succ zeros ih => rw [List.replicate_succ, List.cons_append, valueOf_cons_zero, ih]

theorem length_zeroPadded {digits : ℕ} (hdigits : 0 < digits) (hn : n < 10 ^ digits) :
    (zeroPadded digits n).length = digits := by
  have hle := (Nat.length_toDigits_le_iff (by omega : 1 < 10) hdigits).mpr hn
  rw [zeroPadded, List.length_append, List.length_replicate]
  omega

/-- `str.rpartition`, without the separator. -/
def rpartition (sep : Char) (l : List Char) : List Char × List Char :=
  ((l.rdropWhile (· ≠ sep)).dropLast, l.rtakeWhile (· ≠ sep))

theorem rpartition_append {sep : Char} {tail : List Char} (head : List Char) (h : sep ∉ tail) :
    rpartition sep (head ++ sep :: tail) = (head, tail) := by
  have hne : ∀ c ∈ tail.reverse, decide (c ≠ sep) = true := fun c hc =>
    decide_eq_true fun heq => h (heq ▸ List.mem_reverse.mp hc)
  have hreverse : (head ++ sep :: tail).reverse = tail.reverse ++ sep :: head.reverse := by simp
  rw [rpartition, List.rdropWhile, List.rtakeWhile, hreverse, List.dropWhile_append_of_pos hne,
    List.takeWhile_append_of_pos hne, List.dropWhile_cons_of_neg (by simp), List.takeWhile_cons_of_neg (by simp)]
  simp

end Kanat.PlainTexts
