import Mathlib.Data.Nat.Cast.Defs

/-! # Numerals

What a field's numerals and those of `Fin` rest on. Without these instances Lean makes of each such proof a lemma named
after the first definition that needs it, so that two definitions with one numeral rest on different facts, and on others
again when another module is compiled before them. -/
namespace Kanat.Numerals

instance (priority := high) atLeastTwo2 : Nat.AtLeastTwo 2 := ⟨Nat.le_refl 2⟩

instance (priority := high) atLeastTwo10 : Nat.AtLeastTwo 10 := ⟨by decide⟩

instance (priority := high) atLeastTwo1000 : Nat.AtLeastTwo 1000 := ⟨by decide⟩

instance (priority := high) neZero2 : @NeZero ℕ Zero.ofOfNat0 2 := ⟨by decide⟩

instance (priority := high) neZero3 : @NeZero ℕ Zero.ofOfNat0 3 := ⟨by decide⟩

instance (priority := high) neZero4 : @NeZero ℕ Zero.ofOfNat0 4 := ⟨by decide⟩

/-- Before the one of a sum in general, and after those of the numerals. -/
instance (priority := 5000) neZeroAddTwo (n : ℕ) : @NeZero ℕ Zero.ofOfNat0 (n + 2) := ⟨Nat.succ_ne_zero (n + 1)⟩

end Kanat.Numerals
