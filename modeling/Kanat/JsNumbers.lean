import Kanat.Pagination
import Kanat.PlainTexts

/-! # JavaScript's numbers, as read from text

`String.prototype.trim`, `Number(text)`, and what `JSON.stringify` makes of the number. -/
namespace Kanat.JsNumbers
open Rounding (pyRound)
open PlainTexts

/-- White space and line ends. -/
def isWhiteSpace (c : Char) : Bool :=
  let n := c.toNat
  (9 ≤ n && n ≤ 13) || n == 0x20 || n == 0xA0 || n == 0x1680 || (0x2000 ≤ n && n ≤ 0x200A) || n == 0x2028 ||
    n == 0x2029 || n == 0x202F || n == 0x205F || n == 0x3000 || n == 0xFEFF

def trim (s : String) : String := String.ofList (strip isWhiteSpace s.toList)

inductive Number where
  | nan
  | infinity (negative : Bool)
  | finite (x : ℚ)
  deriving DecidableEq

namespace Number

/-- The nearest double, a tie to the even one. -/
def round (x : ℚ) : Number :=
  let ulp : ℚ := 2 ^ max (Int.log 2 |x| - 52) (-1074)
  let y := pyRound (x / ulp) * ulp
  if |y| < 2 ^ 1024 then finite y else infinity (x < 0)

def neg : Number → Number
  | nan => nan
  | infinity negative => infinity !negative
  | finite x => finite (-x)

def isInteger : Number → Bool
  | finite x => x.den = 1
  | nan | infinity _ => false

/-- A comparison with a fixed number: `below` is what it says of what is under every number. -/
def compare (below : Bool) (r : ℚ → Bool) : Number → Bool
  | nan => false
  | infinity negative => negative == below
  | finite x => r x

def lt (x : Number) (q : ℚ) : Bool := x.compare true (· < q)
def le (x : Number) (q : ℚ) : Bool := x.compare true (· ≤ q)
def gt (x : Number) (q : ℚ) : Bool := x.compare false (q < ·)
def ge (x : Number) (q : ℚ) : Bool := x.compare false (q ≤ ·)

end Number

/-- What follows a number's digits: nothing, or an exponent. -/
def exponent : List Char → Option ℤ
  | [] => some 0
  | e :: l =>
    if e = 'e' ∨ e = 'E' then
      let (negative, digits) := match l with
        | '+' :: digits => (false, digits)
        | '-' :: digits => (true, digits)
        | digits => (false, digits)
      if digits = [] ∨ !digits.all Char.isDigit then none
      else if negative then some (-valueOf digits) else some (valueOf digits)
    else none

def unsignedDecimal (l : List Char) : Number :=
  if l = "Infinity".toList then .infinity false
  else
    let whole := l.takeWhile Char.isDigit
    let (fraction, rest) := match l.dropWhile Char.isDigit with
      | '.' :: rest => (rest.takeWhile Char.isDigit, rest.dropWhile Char.isDigit)
      | rest => ([], rest)
    if whole = [] ∧ fraction = [] then .nan
    else match exponent rest with
      | none => .nan
      | some e => .round (valueOf (whole ++ fraction) * 10 ^ (e - fraction.length))

def decimal : List Char → Number
  | '+' :: l => unsignedDecimal l
  | '-' :: l => (unsignedDecimal l).neg
  | l => unsignedDecimal l

def radixOf (c : Char) : Option ℕ :=
  if c = 'b' ∨ c = 'B' then some 2 else if c = 'o' ∨ c = 'O' then some 8 else if c = 'x' ∨ c = 'X' then some 16 else none

def digitValue (c : Char) : ℕ :=
  if c.isDigit then c.toNat - 48
  else if 'a' ≤ c ∧ c ≤ 'f' then c.toNat - 87
  else if 'A' ≤ c ∧ c ≤ 'F' then c.toNat - 55
  else 16

def nonDecimal (radix : ℕ) (digits : List Char) : Number :=
  if digits ≠ [] ∧ digits.all fun c => digitValue c < radix then
    .round (digits.foldl (fun n c => radix * n + digitValue c) 0 : ℕ)
  else .nan

/-- `Number(text)` -/
def toNumber (s : String) : Number :=
  match strip isWhiteSpace s.toList with
  | [] => .finite 0
  | '0' :: c :: digits =>
    match radixOf c with
    | some radix => nonDecimal radix digits
    | none => decimal ('0' :: c :: digits)
  | l => decimal l

/-- A number of a JSON text as Python reads it; `null` stands for what is no number. -/
inductive Json where
  | null
  | int (n : ℤ)
  | float (x : ℚ)
  deriving DecidableEq

/-- From `1e21` on, `JSON.stringify` writes an exponent. -/
def Number.json : Number → Json
  | .finite x => if x.den = 1 ∧ |x| < 10 ^ 21 then .int x.num else .float x
  | .nan | .infinity _ => .null

private theorem round_natCast {n : ℕ} (h : n < 2 ^ 53) : Number.round n = .finite n := by
  have hy : (pyRound ((n : ℚ) / 2 ^ max (Int.log 2 |(n : ℚ)| - 52) (-1074)) : ℚ) *
      2 ^ max (Int.log 2 |(n : ℚ)| - 52) (-1074) = n := by
    rcases Nat.eq_zero_or_pos n with rfl | hn
    · have h0 : pyRound ((0 : ℤ) : ℚ) = 0 := Rounding.pyRound_intCast 0
      rw [Int.cast_zero] at h0
      simp [h0]
    · have hlog : max (Int.log 2 |(n : ℚ)| - 52) (-1074) = Int.log 2 |(n : ℚ)| - 52 := by
        rw [max_eq_left]
        have : 0 ≤ Int.log 2 |(n : ℚ)| := by
          rw [Nat.abs_cast, Int.log_natCast]
          exact Int.natCast_nonneg _
        omega
      have hd := Pagination.toDouble_intCast (n := n) (by exact_mod_cast hn) (by exact_mod_cast h)
      rw [Pagination.toDouble, Int.cast_natCast] at hd
      rw [hlog, hd]
  rw [Number.round]
  simp only [hy]
  rw [if_pos]
  rw [Nat.abs_cast]
  have h' : (n : ℚ) < 2 ^ 53 := by exact_mod_cast h
  exact h'.trans (pow_lt_pow_right₀ (by norm_num) (by norm_num))

private theorem not_isWhiteSpace_of_isDigit {c : Char} (h : c.isDigit) : ¬isWhiteSpace c := by
  obtain ⟨hl, hu⟩ := isDigit_iff.mp h
  simp only [isWhiteSpace, Bool.or_eq_true, Bool.and_eq_true, decide_eq_true_eq, beq_iff_eq]
  omega

private theorem radixOf_of_isDigit {c : Char} (h : c.isDigit) : radixOf c = none := by
  have hne : ∀ d : Char, ¬d.isDigit → c ≠ d := fun d hd he => hd (he ▸ h)
  simp [radixOf, hne 'b' (by decide), hne 'B' (by decide), hne 'o' (by decide), hne 'O' (by decide),
    hne 'x' (by decide), hne 'X' (by decide)]

theorem decimal_digits {l : List Char} (h : Digits l) (hne : l ≠ []) (hlt : valueOf l < 2 ^ 53) :
    decimal l = .finite (valueOf l) := by
  have hu : unsignedDecimal l = .finite (valueOf l) := by
    have hi : l ≠ "Infinity".toList := fun he => by
      have hd := h 'I' (by rw [he]; decide)
      exact absurd hd (by decide)
    have ht : l.takeWhile Char.isDigit = l := List.takeWhile_eq_self_iff.mpr h
    have hd : l.dropWhile Char.isDigit = [] := List.dropWhile_eq_nil_iff.mpr h
    rw [unsignedDecimal, if_neg hi]
    simp [ht, hd, hne, exponent, round_natCast hlt]
  cases l with
  | nil => exact absurd rfl hne
  | cons c l =>
    have hc : ∀ d : Char, ¬d.isDigit → c ≠ d := fun d hd he => hd (he ▸ h c List.mem_cons_self)
    rw [decimal]
    · exact hu
    · intro l' he
      exact hc '+' (by decide) (List.cons.inj he).1
    · intro l' he
      exact hc '-' (by decide) (List.cons.inj he).1

/-- Digits are read as the number they write, whatever zeros they begin with. -/
theorem toNumber_digits {l : List Char} (h : Digits l) (hne : l ≠ []) (hlt : valueOf l < 2 ^ 53) :
    toNumber (String.ofList l) = .finite (valueOf l) := by
  have hs : strip isWhiteSpace (String.ofList l).toList = l := by
    rw [String.toList_ofList]
    exact strip_of_forall fun c hc => not_isWhiteSpace_of_isDigit (h c hc)
  rw [toNumber, hs]
  split
  next => exact absurd rfl hne
  next c digits =>
    rw [radixOf_of_isDigit (h c (by simp))]
    exact decimal_digits h hne hlt
  next => exact decimal_digits h hne hlt

theorem toNumber_of_blank {s : String} (h : trim s = "") : toNumber s = .finite 0 := by
  have hs : strip isWhiteSpace s.toList = [] := by simpa [trim] using h
  rw [toNumber, hs]

end Kanat.JsNumbers
