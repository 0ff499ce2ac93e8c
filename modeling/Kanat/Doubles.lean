import Kanat.JsNumbers

/-! # Doubles

The nearest double of a rational number, the decimal with three digits after its point that is next to it, and Python's
`float`. -/
namespace Kanat.Doubles
open Rounding (pyRound pyRound_error pyRound_intCast le_pyRound pyRound_le)
open JsNumbers (Number unsignedDecimal)
open PlainTexts

variable {x y : ℚ} {m n e : ℤ}

theorem pyRound_of_near (h : |x - n| < 1 / 2) : pyRound x = n := by
  obtain ⟨hlow, hup⟩ := abs_lt.mp h
  obtain ⟨hlow', hup'⟩ := abs_le.mp (pyRound_error x)
  have hlt : ((n - 1 : ℤ) : ℚ) < pyRound x := by
    push_cast
    linarith
  have hgt : (pyRound x : ℚ) < ((n + 1 : ℤ) : ℚ) := by
    push_cast
    linarith
  have hlt' := Int.cast_lt.mp hlt
  have hgt' := Int.cast_lt.mp hgt
  omega

/-- Half a unit off an even number is rounded to it. -/
theorem pyRound_of_half (hn : Even n) (h : |x - n| = 1 / 2) : pyRound x = n := by
  rcases eq_or_eq_neg_of_abs_eq h with habove | hbelow
  · have hfloor : ⌊x⌋ = n := Int.floor_eq_iff.mpr ⟨by linarith, by linarith⟩
    rw [pyRound, hfloor, habove, if_neg (lt_irrefl _), if_neg (lt_irrefl _), if_pos hn]
  · have hfloor : ⌊x⌋ = n - 1 := Int.floor_eq_iff.mpr ⟨by push_cast; linarith, by push_cast; linarith⟩
    have hhalf : x - ((n - 1 : ℤ) : ℚ) = 1 / 2 := by
      push_cast
      linarith
    have hodd : ¬Even (n - 1) := Int.not_even_iff_odd.mpr (hn.sub_odd odd_one)
    rw [pyRound, hfloor, hhalf, if_neg (lt_irrefl _), if_neg (lt_irrefl _), if_neg hodd, sub_add_cancel]

private theorem even_pyRound (h : |(pyRound x : ℚ) - x| = 1 / 2) : Even (pyRound x) := by
  have hfloor := Int.floor_le x
  have hlt := Int.lt_floor_add_one x
  simp only [pyRound] at h ⊢
  split_ifs at h ⊢ with hbelow habove heven
  · rw [abs_of_nonpos (by linarith)] at h
    linarith
  · push_cast at h
    rw [abs_of_nonneg (by linarith)] at h
    linarith
  · exact heven
  · exact (Int.not_even_iff_odd.mp heven).add_odd odd_one

theorem pyRound_neg (x : ℚ) : pyRound (-x) = -pyRound x := by
  have heq : |-x - ((-pyRound x : ℤ) : ℚ)| = |(pyRound x : ℚ) - x| := by
    push_cast
    congr 1
    ring
  rcases (pyRound_error x).lt_or_eq with hlt | hhalf
  · exact pyRound_of_near (heq ▸ hlt)
  · exact pyRound_of_half (even_pyRound hhalf).neg (heq.trans hhalf)

private theorem abs_pyRound (x : ℚ) : |pyRound x| = pyRound |x| := by
  rcases le_total 0 x with h | h
  · have hround : 0 ≤ pyRound x := le_pyRound (by rwa [Int.cast_zero])
    rw [abs_of_nonneg h, abs_of_nonneg hround]
  · have hround : pyRound x ≤ 0 := pyRound_le (by rwa [Int.cast_zero])
    rw [abs_of_nonpos h, abs_of_nonpos hround, pyRound_neg]

/-- The exponent of what a double's last bit stands for. -/
def lastBit (x : ℚ) : ℤ := max (Int.log 2 |x| - 52) (-1074)

def nearest (x : ℚ) : ℚ := pyRound (x / 2 ^ lastBit x) * 2 ^ lastBit x

theorem round_eq (x : ℚ) : Number.round x = if |nearest x| < 2 ^ 1024 then .finite (nearest x) else .infinity (x < 0) :=
  rfl

theorem round_eq_finite : Number.round x = .finite y ↔ nearest x = y ∧ |y| < 2 ^ 1024 := by
  rw [round_eq]
  split_ifs with hlt
  · refine ⟨fun h => ?_, fun h => congrArg _ h.1⟩
    obtain rfl := Number.finite.inj h
    exact ⟨rfl, hlt⟩
  · exact ⟨False.elim, fun h => absurd (h.1 ▸ h.2) hlt⟩

private theorem round_ne_nan (x : ℚ) : Number.round x ≠ .nan := by
  rw [round_eq]
  split_ifs <;> exact Number.noConfusion

theorem nearest_neg (x : ℚ) : nearest (-x) = -nearest x := by
  rw [nearest, nearest, lastBit, abs_neg, ← lastBit, neg_div, pyRound_neg, Int.cast_neg, neg_mul]

private theorem nearest_zero : nearest 0 = 0 := by
  have hneg := nearest_neg 0
  rw [neg_zero] at hneg
  linarith

theorem neg_round (x : ℚ) : (Number.round x).neg = Number.round (-x) := by
  rw [round_eq, round_eq, nearest_neg, abs_neg]
  split_ifs with hlt
  · rfl
  · have hne : x ≠ 0 := by
      rintro rfl
      rw [nearest_zero, abs_zero] at hlt
      exact hlt (by positivity)
    rw [Number.neg]
    congr 1
    rcases lt_or_gt_of_ne hne with hneg | hpos
    · simp [hneg, hneg.le]
    · simp [hpos, hpos.le]

private theorem nearest_error (x : ℚ) : |nearest x - x| ≤ 2 ^ lastBit x / 2 := by
  have hpos : (0 : ℚ) < 2 ^ lastBit x := zpow_pos (by norm_num) _
  calc |nearest x - x| = |pyRound (x / 2 ^ lastBit x) - x / 2 ^ lastBit x| * 2 ^ lastBit x := by
        rw [nearest, ← abs_of_pos hpos, ← abs_mul, abs_of_pos hpos, sub_mul, div_mul_cancel₀ _ hpos.ne']
    _ ≤ 1 / 2 * 2 ^ lastBit x := mul_le_mul_of_nonneg_right (pyRound_error _) hpos.le
    _ = 2 ^ lastBit x / 2 := by ring

/-- Nearer than half a last bit to a double of 53 bits. -/
theorem nearest_of_near (he : -1074 ≤ e) (hlow : 2 ^ (e + 52) ≤ |x|) (hup : |x| < 2 ^ (e + 53))
    (hnear : |x - m * 2 ^ e| < 2 ^ e / 2) : nearest x = m * 2 ^ e := by
  have hpos : (0 : ℚ) < 2 ^ e := zpow_pos (by norm_num) _
  have habs : 0 < |x| := lt_of_lt_of_le (zpow_pos (by norm_num) _) hlow
  have hlog : Int.log 2 |x| = e + 52 := by
    have hlt := (Int.lt_zpow_iff_log_lt (b := 2) (by norm_num) habs).mp hup
    have hle := (Int.zpow_le_iff_le_log (b := 2) (by norm_num) habs).mp hlow
    omega
  have hlast : lastBit x = e := by
    rw [lastBit, hlog]
    omega
  have hround : |x / 2 ^ e - m| < 1 / 2 := by
    rw [← mul_lt_mul_iff_left₀ hpos, ← abs_of_pos hpos, ← abs_mul, abs_of_pos hpos, sub_mul,
      div_mul_cancel₀ _ hpos.ne']
    linarith
  rw [nearest, hlast, pyRound_of_near hround]

theorem two_pow_mul (n : ℕ) (e : ℤ) : (2 : ℚ) ^ n * 2 ^ e = 2 ^ (e + n) := by
  rw [← zpow_natCast, ← zpow_add₀ (by norm_num), add_comm]

private theorem nearest_of_abs_eq_zpow {p : ℤ} (hp : -1022 ≤ p) (hx : |x| = 2 ^ p) : nearest x = x := by
  have hpos : (0 : ℚ) < 2 ^ p := zpow_pos (by norm_num) _
  have hpower : nearest (2 ^ p) = 2 ^ p := by
    have hscale : (2 : ℚ) ^ p = ((2 ^ 52 : ℤ) : ℚ) * 2 ^ (p - 52) := by
      rw [Int.cast_pow, Int.cast_ofNat, two_pow_mul]
      congr 1
      omega
    have hnear := nearest_of_near (x := 2 ^ p) (m := 2 ^ 52) (e := p - 52) (by omega)
      (by rw [abs_of_pos hpos, sub_add_cancel])
      (by rw [abs_of_pos hpos]; exact zpow_lt_zpow_right₀ (by norm_num) (by omega))
      (by rw [← hscale, sub_self, abs_zero]; exact half_pos (zpow_pos (by norm_num) _))
    rw [hnear, ← hscale]
  rcases eq_or_eq_neg_of_abs_eq hx with rfl | rfl
  · exact hpower
  · rw [nearest_neg, hpower]

/-- A double's bits: 53 of them, above the smallest ones. -/
theorem significand_bounds (hx : x ≠ 0) (hnormal : -1074 < lastBit x) :
    2 ^ 52 ≤ |pyRound (x / 2 ^ lastBit x)| ∧ |pyRound (x / 2 ^ lastBit x)| ≤ 2 ^ 53 := by
  have habs : 0 < |x| := abs_pos.mpr hx
  have hpos : (0 : ℚ) < 2 ^ lastBit x := zpow_pos (by norm_num) _
  have hlog : Int.log 2 |x| = lastBit x + 52 := by
    rw [lastBit] at hnormal ⊢
    omega
  have hlow : 2 ^ 52 * 2 ^ lastBit x ≤ |x| := by
    rw [two_pow_mul, Nat.cast_ofNat, ← hlog]
    exact Int.zpow_log_le_self (b := 2) (by norm_num) habs
  have hup : |x| < 2 ^ 53 * 2 ^ lastBit x := by
    have hnext : lastBit x + (53 : ℕ) = Int.log 2 |x| + 1 := by omega
    rw [two_pow_mul, hnext]
    exact Int.lt_zpow_succ_log_self (b := 2) (by norm_num) |x|
  have hdiv : |x / 2 ^ lastBit x| = |x| / 2 ^ lastBit x := by rw [abs_div, abs_of_pos hpos]
  rw [abs_pyRound, hdiv]
  constructor
  · refine le_pyRound ?_
    push_cast
    exact (le_div_iff₀ hpos).mpr hlow
  · refine pyRound_le ?_
    push_cast
    exact ((div_lt_iff₀ hpos).mpr hup).le

/-- Where doubles are further apart, the thousandth next to one is nearest to it. -/
theorem nearest_thousandth_of_coarse (hcoarse : -9 ≤ lastBit x) :
    nearest (pyRound (nearest x * 1000) / 1000) = nearest x := by
  have hne : x ≠ 0 := by
    rintro rfl
    simp [lastBit] at hcoarse
  obtain ⟨hlow, hup⟩ := significand_bounds hne (by omega)
  have hx : nearest x = pyRound (x / 2 ^ lastBit x) * 2 ^ lastBit x := rfl
  generalize nearest x = d at *
  generalize pyRound (x / 2 ^ lastBit x) = m at *
  generalize lastBit x = e at *
  have hpos : (0 : ℚ) < 2 ^ e := zpow_pos (by norm_num) _
  have hunit : (2 : ℚ) ^ (-9 : ℤ) ≤ 2 ^ e := zpow_le_zpow_right₀ (by norm_num) hcoarse
  have habs : |d| = |m| * 2 ^ e := by rw [hx, abs_mul, abs_of_pos hpos, Int.cast_abs]
  by_cases hedge : ∃ n : ℕ, 52 ≤ n ∧ |m| = 2 ^ n
  · -- a power of two this large is a whole number
    obtain ⟨n, hn, hm⟩ := hedge
    rw [hm, Int.cast_pow, Int.cast_ofNat, two_pow_mul] at habs
    have hwhole : ∃ i : ℤ, d = i := by
      rw [← Int.toNat_of_nonneg (by omega : 0 ≤ e + n), zpow_natCast] at habs
      rcases eq_or_eq_neg_of_abs_eq habs with h | h
      · exact ⟨2 ^ (e + n).toNat, by rw [h]; push_cast; rfl⟩
      · exact ⟨-2 ^ (e + n).toNat, by rw [h]; push_cast; rfl⟩
    obtain ⟨i, hi⟩ := hwhole
    have hsame : (pyRound (d * 1000) : ℚ) / 1000 = d := by
      rw [hi, show (i : ℚ) * 1000 = ((i * 1000 : ℤ) : ℚ) by push_cast; rfl, pyRound_intCast]
      push_cast
      ring
    rw [hsame, nearest_of_abs_eq_zpow (by omega) habs]
  · have hinside : 2 ^ 52 + 1 ≤ |m| ∧ |m| + 1 ≤ 2 ^ 53 := by
      have hne52 : |m| ≠ 2 ^ 52 := fun h => hedge ⟨52, le_rfl, h⟩
      have hne53 : |m| ≠ 2 ^ 53 := fun h => hedge ⟨53, by omega, h⟩
      exact ⟨by omega, by omega⟩
    obtain ⟨y, hy⟩ : ∃ y : ℚ, y = pyRound (d * 1000) / 1000 := ⟨_, rfl⟩
    have hnear : |y - d| < 2 ^ e / 2 := by
      have herror := pyRound_error (d * 1000)
      rw [abs_le] at herror
      norm_num at hunit
      rw [hy, abs_lt]
      constructor <;> linarith [herror.1, herror.2]
    obtain ⟨hless, hmore⟩ := abs_le.mp ((abs_abs_sub_abs_le y d).trans hnear.le)
    have hmin : (2 ^ 52 + 1) * 2 ^ e ≤ (|m| : ℤ) * (2 : ℚ) ^ e :=
      mul_le_mul_of_nonneg_right (by exact_mod_cast hinside.1) hpos.le
    have hmax : ((|m| : ℤ) + 1) * (2 : ℚ) ^ e ≤ 2 ^ 53 * 2 ^ e :=
      mul_le_mul_of_nonneg_right (by exact_mod_cast hinside.2) hpos.le
    have hlow' : 2 ^ (e + 52) ≤ |y| := by
      rw [← Nat.cast_ofNat (R := ℤ), ← two_pow_mul]
      linarith
    have hup' : |y| < 2 ^ (e + 53) := by
      rw [← Nat.cast_ofNat (R := ℤ), ← two_pow_mul]
      linarith
    rw [← hy, hx]
    exact nearest_of_near (by omega) hlow' hup' (hx ▸ hnear)

/-- The thousandth next to a double of a thousandth is read as that double again. -/
theorem nearest_thousandth (k : ℤ) :
    nearest (pyRound (nearest (k / 1000) * 1000) / 1000) = nearest (k / 1000) := by
  obtain ⟨q, hq⟩ : ∃ q : ℚ, q = k / 1000 := ⟨_, rfl⟩
  rw [← hq]
  have herror := nearest_error q
  by_cases hfine : lastBit q ≤ -10
  · -- doubles are close together here, and the thousandth next to this one is the one it was
    have hbit : (2 : ℚ) ^ lastBit q ≤ 2 ^ (-10 : ℤ) := zpow_le_zpow_right₀ (by norm_num) hfine
    have hnear : |nearest q * 1000 - k| < 1 / 2 := by
      have hk : (k : ℚ) = q * 1000 := by
        rw [hq]
        ring
      rw [hk, ← sub_mul, abs_mul, abs_of_pos (by norm_num : (0 : ℚ) < 1000)]
      norm_num at hbit
      linarith
    rw [pyRound_of_near hnear, ← hq]
  · exact nearest_thousandth_of_coarse (by omega)

/-- A text without the underscores between two digits; any other underscore is an error. -/
def unscored : Bool → List Char → Option (List Char)
  | _, [] => some []
  | digit, c :: t =>
    if c = '_' then if digit ∧ t.head?.any Char.isDigit then unscored false t else none
    else (unscored c.isDigit t).map (c :: ·)

/-- `float` of an ASCII text with no sign and no underscores. -/
def unsignedFloat (t : List Char) : Option Number :=
  if t.map Char.toLower = "inf".toList ∨ t.map Char.toLower = "infinity".toList then some (.infinity false)
  else if t.map Char.toLower = "nan".toList then some .nan
  else
    match unsignedDecimal t with
    | .nan => none
    | x => some x

/-- `float` of an ASCII text, or its `ValueError`. -/
def float (t : List Char) : Option Number :=
  (unscored false (strip isspace t)).bind fun t =>
    match t with
    | '+' :: t => unsignedFloat t
    | '-' :: t => (unsignedFloat t).map Number.neg
    | t => unsignedFloat t

variable {whole fraction : List Char}

theorem unscored_of_notMem {t : List Char} (h : '_' ∉ t) (digit : Bool) : unscored digit t = some t := by
  induction t generalizing digit with
  | nil => rfl
  | cons c t ih =>
    obtain ⟨hc, ht⟩ := List.ne_and_not_mem_of_not_mem_cons h
    rw [unscored, if_neg (Ne.symm hc), ih ht]
    rfl

private theorem unsignedDecimal_point (hwhole : Digits whole) (hne : whole ≠ []) (hfraction : Digits fraction) :
    unsignedDecimal (whole ++ '.' :: fraction) =
      .round (valueOf (whole ++ fraction) * 10 ^ (-(fraction.length : ℤ))) := by
  have hinf : whole ++ '.' :: fraction ≠ "Infinity".toList := fun h => by
    have hdot : '.' ∈ "Infinity".toList := h ▸ List.mem_append_right _ List.mem_cons_self
    exact absurd hdot (by decide)
  have htake : (whole ++ '.' :: fraction).takeWhile Char.isDigit = whole := by
    rw [List.takeWhile_append_of_pos hwhole, List.takeWhile_cons_of_neg (by decide), List.append_nil]
  have hdrop : (whole ++ '.' :: fraction).dropWhile Char.isDigit = '.' :: fraction := by
    rw [List.dropWhile_append_of_pos hwhole, List.dropWhile_cons_of_neg (by decide)]
  have htake' : fraction.takeWhile Char.isDigit = fraction := List.takeWhile_eq_self_iff.mpr hfraction
  have hdrop' : fraction.dropWhile Char.isDigit = [] := List.dropWhile_eq_nil_iff.mpr hfraction
  rw [unsignedDecimal, if_neg hinf]
  simp only [htake, hdrop, htake', hdrop', hne, false_and, if_false, JsNumbers.exponent, zero_sub]

theorem unsignedFloat_point (hwhole : Digits whole) (hne : whole ≠ []) (hfraction : Digits fraction) :
    unsignedFloat (whole ++ '.' :: fraction) =
      some (.round (valueOf (whole ++ fraction) * 10 ^ (-(fraction.length : ℤ)))) := by
  have hdot : '.' ∈ (whole ++ '.' :: fraction).map Char.toLower :=
    List.mem_map.mpr ⟨'.', List.mem_append_right _ List.mem_cons_self, rfl⟩
  have hinf : ¬((whole ++ '.' :: fraction).map Char.toLower = "inf".toList ∨
      (whole ++ '.' :: fraction).map Char.toLower = "infinity".toList) := fun h => by
    rcases h with h | h
    · exact absurd (h ▸ hdot) (by decide)
    · exact absurd (h ▸ hdot) (by decide)
  have hnan : (whole ++ '.' :: fraction).map Char.toLower ≠ "nan".toList := fun h =>
    absurd (h ▸ hdot) (by decide)
  rw [unsignedFloat, if_neg hinf, if_neg hnan, unsignedDecimal_point hwhole hne hfraction]
  generalize (valueOf (whole ++ fraction) : ℚ) * 10 ^ (-(fraction.length : ℤ)) = q
  have hround := round_ne_nan q
  split
  next h => exact absurd h hround
  next => rfl

end Kanat.Doubles
