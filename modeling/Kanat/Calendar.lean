import Mathlib.Algebra.BigOperators.Group.List.Basic
import Mathlib.Algebra.Order.Ring.Int
import Mathlib.Data.List.Basic

/-! # The Gregorian calendar

Dates and the days they number, the first of January of the year 1 being the first; and times of day, in microseconds
since 1970. -/
namespace Kanat.Calendar

def isLeap (year : ℕ) : Bool := year % 4 = 0 ∧ (year % 100 ≠ 0 ∨ year % 400 = 0)

def monthLengths (leap : Bool) : List ℕ := [31, if leap then 29 else 28, 31, 30, 31, 30, 31, 31, 30, 31, 30, 31]

def daysInMonth (year month : ℕ) : ℕ := (monthLengths (isLeap year)).getD (month - 1) 0

theorem daysInMonth_le (year month : ℕ) : daysInMonth year month ≤ 31 := by
  have hall : ∀ leap, ∀ len ∈ monthLengths leap, len ≤ 31 := by decide
  rw [daysInMonth, List.getD_eq_getElem?_getD]
  cases hlen : (monthLengths (isLeap year))[month - 1]? with
  | none => exact Nat.zero_le _
  | some len => exact hall _ len (List.mem_of_getElem? hlen)

def daysBeforeMonth (year month : ℕ) : ℕ := ((monthLengths (isLeap year)).take (month - 1)).sum

def daysBeforeYear (year : ℕ) : ℕ := (year - 1) * 365 + (year - 1) / 4 - (year - 1) / 100 + (year - 1) / 400

structure Date where
  year : ℕ
  month : ℕ
  day : ℕ
  year_pos : 1 ≤ year
  month_pos : 1 ≤ month
  month_le : month ≤ 12
  day_pos : 1 ≤ day
  day_le : day ≤ daysInMonth year month
deriving DecidableEq

def Date.ordinal (d : Date) : ℕ := daysBeforeYear d.year + daysBeforeMonth d.year d.month + d.day

/-- Which of the parts of some lengths holds `n`, and how far in. -/
def locate : List ℕ → ℕ → ℕ × ℕ
  | [], n => (0, n)
  | len :: lens, n => if n < len then (0, n) else ((locate lens (n - len)).1 + 1, (locate lens (n - len)).2)

theorem locate_spec {lens : List ℕ} {n : ℕ} (h : n < lens.sum) : (locate lens n).1 < lens.length ∧
    (locate lens n).2 < lens.getD (locate lens n).1 0 ∧ (lens.take (locate lens n).1).sum + (locate lens n).2 = n := by
  induction lens generalizing n with
  | nil => simp at h
  | cons len lens ih =>
    rw [locate]
    split_ifs with hn
    · simpa using hn
    · rw [List.sum_cons] at h
      obtain ⟨hlt, hin, hsum⟩ := ih (n := n - len) (by omega)
      refine ⟨by simpa using hlt, by simpa using hin, ?_⟩
      rw [List.take_succ_cons, List.sum_cons]
      omega

/-- How many of a length are in `n`, up to `most`, and what is left over. -/
def parts (most len n : ℕ) : ℕ × ℕ := (min (n / len) most, n - min (n / len) most * len)

theorem parts_spec (most n : ℕ) {len : ℕ} (hlen : 0 < len) : (parts most len n).1 ≤ most ∧
    (parts most len n).1 * len + (parts most len n).2 = n ∧
      ((parts most len n).2 < len ∨ (parts most len n).1 = most) := by
  have hdiv : n / len * len + n % len = n := Nat.div_add_mod' n len
  have hmod := Nat.mod_lt n hlen
  simp only [parts]
  rcases Nat.le_total (n / len) most with hle | hle
  · rw [min_eq_left hle]
    omega
  · have hmul : most * len ≤ n / len * len := Nat.mul_le_mul_right len hle
    rw [min_eq_right hle]
    omega

/-- The year of the day after `n` days: its cycle of 400 years, the century, the 4 years, the year of them. -/
def yearOf (n : ℕ) : ℕ :=
  let century := parts 3 36524 (n % 146097)
  n / 146097 * 400 + century.1 * 100 + century.2 / 1461 * 4 + (parts 3 365 (century.2 % 1461)).1 + 1

private theorem daysBeforeYear_eq {a b c d : ℕ} (hb : b ≤ 3) (hc : c ≤ 24) (hd : d ≤ 3) :
    daysBeforeYear (a * 400 + b * 100 + c * 4 + d + 1) = a * 146097 + b * 36524 + c * 1461 + d * 365 := by
  have hfour : (a * 400 + b * 100 + c * 4 + d) / 4 = a * 100 + b * 25 + c := by omega
  have hhundred : (a * 400 + b * 100 + c * 4 + d) / 100 = a * 4 + b := by omega
  have hcycle : (a * 400 + b * 100 + c * 4 + d) / 400 = a := by omega
  rw [daysBeforeYear, Nat.add_sub_cancel, hfour, hhundred, hcycle]
  omega

theorem isLeap_eq {a b c : ℕ} (hc : c ≤ 24) (hlong : c = 24 → b = 3) : isLeap (a * 400 + b * 100 + c * 4 + 3 + 1) := by
  refine decide_eq_true ⟨by omega, ?_⟩
  by_cases hcentury : c = 24
  · exact .inr (by omega)
  · exact .inl (by omega)

private theorem sum_monthLengths (leap : Bool) : (monthLengths leap).sum = if leap then 366 else 365 := by
  cases leap <;> rfl

/-- A day is in its year. -/
theorem yearOf_spec (n : ℕ) :
    daysBeforeYear (yearOf n) ≤ n ∧ n < daysBeforeYear (yearOf n) + (monthLengths (isLeap (yearOf n))).sum := by
  have hcycle : n / 146097 * 146097 + n % 146097 = n := Nat.div_add_mod' n 146097
  have hcycle' : n % 146097 < 146097 := Nat.mod_lt n (by omega)
  obtain ⟨hcentury, hcentury', hcentury''⟩ := parts_spec 3 (n % 146097) (by omega : 0 < 36524)
  simp only [yearOf]
  generalize n / 146097 = a at *
  generalize n % 146097 = r at *
  generalize (parts 3 36524 r).1 = b at *
  generalize (parts 3 36524 r).2 = r' at *
  have hfour : r' / 1461 * 1461 + r' % 1461 = r' := Nat.div_add_mod' r' 1461
  have hfour' : r' % 1461 < 1461 := Nat.mod_lt r' (by omega)
  obtain ⟨hyear, hyear', hyear''⟩ := parts_spec 3 (r' % 1461) (by omega : 0 < 365)
  generalize r' / 1461 = c at *
  generalize r' % 1461 = r'' at *
  generalize (parts 3 365 r'').1 = d at *
  generalize (parts 3 365 r'').2 = left at *
  have hbefore := daysBeforeYear_eq (a := a) hcentury (by omega : c ≤ 24) hyear
  rw [sum_monthLengths, hbefore]
  refine ⟨by omega, ?_⟩
  by_cases hlast : left < 365
  · split_ifs <;> omega
  · obtain rfl : d = 3 := by omega
    rw [if_pos (isLeap_eq (by omega) (by omega))]
    omega

theorem sub_daysBeforeYear_lt (n : ℕ) :
    n - daysBeforeYear (yearOf n) < (monthLengths (isLeap (yearOf n))).sum := by
  have hspec := yearOf_spec n
  omega

/-- The date after `n` days. -/
def dateOf (n : ℕ) : Date where
  year := yearOf n
  month := (locate (monthLengths (isLeap (yearOf n))) (n - daysBeforeYear (yearOf n))).1 + 1
  day := (locate (monthLengths (isLeap (yearOf n))) (n - daysBeforeYear (yearOf n))).2 + 1
  year_pos := Nat.le_add_left ..
  month_pos := Nat.le_add_left ..
  month_le := (locate_spec (sub_daysBeforeYear_lt n)).1
  day_pos := Nat.le_add_left ..
  day_le := (locate_spec (sub_daysBeforeYear_lt n)).2.1

private theorem ordinal_dateOf (n : ℕ) : (dateOf n).ordinal = n + 1 := by
  obtain ⟨-, -, hsum⟩ := locate_spec (sub_daysBeforeYear_lt n)
  have hle := (yearOf_spec n).1
  simp only [Date.ordinal, dateOf, daysBeforeMonth, Nat.add_sub_cancel]
  omega

structure DateTime extends Date where
  hour : ℕ
  minute : ℕ
  second : ℕ
  microsecond : ℕ
  year_le : year ≤ 9999
  hour_lt : hour < 24
  minute_lt : minute < 60
  second_lt : second < 60
  microsecond_lt : microsecond < 1000000
deriving DecidableEq

/-- Microseconds since 1970 began. -/
def DateTime.micros (d : DateTime) : ℤ :=
  (((((d.ordinal : ℤ) - 719163) * 24 + d.hour) * 60 + d.minute) * 60 + d.second) * 1000000 + d.microsecond

/-- From the first day of the year 1 to the last of 9999. -/
def InRange (n : ℤ) : Prop := -62135596800000000 ≤ n ∧ n < 253402300800000000

instance (n : ℤ) : Decidable (InRange n) := inferInstanceAs (Decidable (_ ∧ _))

private theorem yearOf_le {n : ℕ} (hn : n < 3652059) : yearOf n ≤ 9999 := by
  have hle := (yearOf_spec n).1
  by_contra hlate
  rw [daysBeforeYear] at hle
  omega

/-- The time that many microseconds after 1970 began. -/
def DateTime.ofMicros (n : ℤ) : Option DateTime :=
  if h : InRange n then
    let ofDay := (n % 86400000000).toNat
    some {
      toDate := dateOf (n / 86400000000 + 719162).toNat
      hour := ofDay / 3600000000
      minute := ofDay / 60000000 % 60
      second := ofDay / 1000000 % 60
      microsecond := ofDay % 1000000
      year_le := yearOf_le (by have := h.1; have := h.2; omega)
      hour_lt := by omega
      minute_lt := Nat.mod_lt _ (by omega)
      second_lt := Nat.mod_lt _ (by omega)
      microsecond_lt := Nat.mod_lt _ (by omega) }
  else none

theorem DateTime.micros_of_ofMicros {n : ℤ} {d : DateTime} (h : ofMicros n = some d) : d.micros = n := by
  unfold ofMicros at h
  split_ifs at h with hn
  obtain ⟨hlow, hup⟩ := hn
  obtain rfl := Option.some.inj h
  simp only [micros, ordinal_dateOf]
  omega

theorem DateTime.le_micros (d : DateTime) : (daysBeforeYear d.year - 719162 : ℤ) * 86400000000 ≤ d.micros := by
  have hday := d.day_pos
  simp only [micros, Date.ordinal]
  omega

end Kanat.Calendar
