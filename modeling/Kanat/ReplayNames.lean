import Kanat.AcceptedCameras
import Kanat.DerivedTruth
import Kanat.Doubles
import Kanat.RecordingNames

/-! # A replay copy's name

`_cache_name` and `_read_cache_name` of `services/recordings.py`. A duration is a finite float, by its exact value. -/
namespace Kanat.ReplayNames
open Calendar Doubles LocalTime PlainTexts TimeTexts
open DerivedTruth (fixed unspaced_fixed)
open JsNumbers (Number)
open RecordingNames (stem stem_append)
open Rounding (le_pyRound pyRound)

def CACHE_STAMP : String := "%Y%m%dT%H%M%S%fZ"

def cacheFormat : List Item := (items CACHE_STAMP.toList).getD []

/-- A time-zone-aware `datetime`, its offset in microseconds. -/
structure Aware where
  naive : DateTime
  utcoffset : ℤ
  within : -86400000000 < utcoffset ∧ utcoffset < 86400000000

def Aware.instant (start : Aware) : ℤ := start.naive.micros - start.utcoffset

/-- `astimezone(timezone.utc)` of the start is out of range, or written after the alias. -/
def cacheName (yearDigits : ℕ) (cameraAlias : String) (start : Aware) (durationS : ℚ) : Except Raised (List Char) :=
  (DateTime.ofMicros start.instant).elim (.error .overflowError) fun utc =>
    .ok (cameraAlias.toList ++ '_' :: strftime yearDigits cacheFormat utc ++ '_' :: fixed 3 durationS ++ ".mp4".toList)

/-- The alias, recording start and length a replay copy's name holds. -/
def readCacheName (name : List Char) : Option (List Char × ℤ × Number) :=
  let parts := rpartition '_' (stem name)
  let named := rpartition '_' parts.1
  (strptime cacheFormat named.2).bind fun start =>
    (float parts.2).map fun seconds => (named.1, start.micros, seconds)

theorem pyRound_nonneg {x : ℚ} (h : 0 ≤ x) : 0 ≤ pyRound x := le_pyRound (by rwa [Int.cast_zero])

/-- The seconds without their sign. -/
def unsignedSeconds (x : ℚ) : List Char :=
  let n := (pyRound (|x| * 10 ^ 3)).toNat
  Nat.toDigits 10 (n / 10 ^ 3) ++ '.' :: zeroPadded 3 (n % 10 ^ 3)

theorem fixed_eq (x : ℚ) : fixed 3 x = if x < 0 then '-' :: unsignedSeconds x else unsignedSeconds x := by
  rw [fixed, unsignedSeconds]
  split_ifs <;> rfl

private theorem unsignedFloat_unsignedSeconds (x : ℚ) :
    unsignedFloat (unsignedSeconds x) = some (.round (pyRound (|x| * 1000) / 1000)) := by
  obtain ⟨n, hn⟩ : ∃ n : ℕ, pyRound (|x| * 1000) = n :=
    ⟨_, (Int.toNat_of_nonneg (pyRound_nonneg (by positivity))).symm⟩
  have hround : pyRound (|x| * 10 ^ 3) = n := by
    rw [← hn]
    norm_num
  have hlength : (zeroPadded 3 (n % 10 ^ 3)).length = 3 := length_zeroPadded (by omega) (Nat.mod_lt _ (by norm_num))
  have hvalue : valueOf (Nat.toDigits 10 (n / 10 ^ 3) ++ zeroPadded 3 (n % 10 ^ 3)) = n := by
    rw [valueOf_append, hlength, valueOf_toDigits]
    exact (congrArg _ (valueOf_zeroPadded _ _)).trans (Nat.div_add_mod n (10 ^ 3))
  have hthousandth : (10 : ℚ) ^ (-((3 : ℕ) : ℤ)) = 1000⁻¹ := by norm_num
  simp only [unsignedSeconds, hround, Int.toNat_natCast]
  rw [unsignedFloat_point (digits_toDigits _) Nat.toDigits_ne_nil (digits_zeroPadded _ _), hvalue, hlength, hn,
    hthousandth, ← div_eq_mul_inv, Int.cast_natCast]

theorem unsignedSeconds_cons (x : ℚ) : ∃ c t, unsignedSeconds x = c :: t ∧ c.isDigit := by
  rw [unsignedSeconds]
  generalize (pyRound (|x| * 10 ^ 3)).toNat = n
  obtain ⟨c, digits, hdigits⟩ := List.exists_cons_of_ne_nil (Nat.toDigits_ne_nil (b := 10) (n := n / 10 ^ 3))
  refine ⟨c, digits ++ '.' :: zeroPadded 3 (n % 10 ^ 3), congrArg (· ++ _) hdigits, ?_⟩
  exact digits_toDigits (n / 10 ^ 3) c (hdigits ▸ List.mem_cons_self)

theorem notMem_unsignedSeconds (x : ℚ) : '_' ∉ unsignedSeconds x := by
  have hdigits : ∀ {t : List Char}, Digits t → '_' ∉ t := fun ht hmem => absurd (ht _ hmem) (by decide)
  simp only [unsignedSeconds, List.mem_append, List.mem_cons, not_or]
  exact ⟨hdigits (digits_toDigits _), by decide, hdigits (digits_zeroPadded _ _)⟩

theorem notMem_fixed (x : ℚ) : '_' ∉ fixed 3 x := by
  rw [fixed_eq]
  split_ifs
  · exact List.not_mem_cons_of_ne_of_not_mem (by decide) (notMem_unsignedSeconds x)
  · exact notMem_unsignedSeconds x

private theorem float_fixed (x : ℚ) : float (fixed 3 x) = some (.round (pyRound (x * 1000) / 1000)) := by
  have hread := unsignedFloat_unsignedSeconds x
  rw [float, strip_of_forall (unspaced_fixed 3 x), unscored_of_notMem (notMem_fixed x), Option.bind_some, fixed_eq]
  by_cases hneg : x < 0
  · rw [if_pos hneg]
    simp only [hread, Option.map_some, neg_round]
    rw [abs_of_neg hneg, neg_mul, pyRound_neg, Int.cast_neg, neg_div, neg_neg]
  · rw [if_neg hneg]
    rw [abs_of_nonneg (not_lt.mp hneg)] at hread
    obtain ⟨c, t, hseconds, hc⟩ := unsignedSeconds_cons x
    rw [hseconds] at hread ⊢
    have hsign : ∀ sign : Char, ¬sign.isDigit → c ≠ sign := fun sign hsign heq => hsign (heq ▸ hc)
    split
    next h => exact absurd (List.cons.inj h).1 (hsign '+' (by decide))
    next h => exact absurd (List.cons.inj h).1 (hsign '-' (by decide))
    next => exact hread

/-- What is written of durations tells them apart to the thousandth of a second. -/
theorem pyRound_of_unsignedSeconds_eq {x x' : ℚ} (h : unsignedSeconds x = unsignedSeconds x') :
    pyRound (|x| * 1000) = pyRound (|x'| * 1000) := by
  have hround (x : ℚ) : ((pyRound (|x| * 10 ^ 3)).toNat : ℤ) = pyRound (|x| * 1000) := by
    rw [show (10 : ℚ) ^ 3 = 1000 by norm_num]
    exact Int.toNat_of_nonneg (pyRound_nonneg (by positivity))
  have hdot (n : ℕ) : '.' ∉ zeroPadded 3 n := fun hmem => absurd (digits_zeroPadded 3 n _ hmem) (by decide)
  rw [← hround x, ← hround x']
  simp only [unsignedSeconds] at h
  generalize (pyRound (|x| * 10 ^ 3)).toNat = n at *
  generalize (pyRound (|x'| * 10 ^ 3)).toNat = n' at *
  have hparts := congrArg (rpartition '.') h
  rw [rpartition_append _ (hdot _), rpartition_append _ (hdot _), Prod.mk.injEq] at hparts
  have hwhole := congrArg valueOf hparts.1
  have hfraction := congrArg valueOf hparts.2
  rw [valueOf_toDigits, valueOf_toDigits] at hwhole
  rw [valueOf_zeroPadded, valueOf_zeroPadded] at hfraction
  omega

theorem pyRound_of_fixed_eq {x x' : ℚ} (h : fixed 3 x = fixed 3 x') : pyRound (x * 1000) = pyRound (x' * 1000) := by
  have hsign {y z : ℚ} : unsignedSeconds y ≠ '-' :: unsignedSeconds z := by
    obtain ⟨c, t, hseconds, hc⟩ := unsignedSeconds_cons y
    rw [hseconds]
    intro heq
    rw [(List.cons.inj heq).1] at hc
    exact absurd hc (by decide)
  rw [fixed_eq, fixed_eq] at h
  split_ifs at h with hneg hneg' hneg'
  · have hround := pyRound_of_unsignedSeconds_eq (List.cons.inj h).2
    rw [abs_of_neg hneg, abs_of_neg hneg', neg_mul, neg_mul, pyRound_neg, pyRound_neg] at hround
    exact neg_injective hround
  · exact absurd h.symm hsign
  · exact absurd h hsign
  · have hround := pyRound_of_unsignedSeconds_eq h
    rwa [abs_of_nonneg (not_lt.mp hneg), abs_of_nonneg (not_lt.mp hneg')] at hround

variable {yearDigits : ℕ} {cameraAlias : String} {start : Aware} {utc : DateTime}

theorem cacheFormat_eq :
    cacheFormat = .year :: [.month, .day, .char 'T', .hour, .minute, .second, .microsecond, .char 'Z'] := by
  decide

theorem notMem_stamp (yearDigits : ℕ) (utc : DateTime) : '_' ∉ strftime yearDigits cacheFormat utc := by
  rw [cacheFormat_eq]
  exact notMem_strftime (by decide) (by decide)

/-- A name's parts, from the right. -/
theorem rpartition_name (head seconds : List Char) (hseconds : '_' ∉ seconds) :
    rpartition '_' (stem (head ++ '_' :: seconds ++ ".mp4".toList)) = (head, seconds) := by
  have hstem : stem (head ++ '_' :: seconds ++ ".mp4".toList) = head ++ '_' :: seconds :=
    stem_append (by simp) (by decide) (by decide)
  rw [hstem, rpartition_append _ hseconds]

theorem cacheName_eq (hutc : DateTime.ofMicros start.instant = some utc) (durationS : ℚ) :
    cacheName yearDigits cameraAlias start durationS = .ok (cameraAlias.toList ++
      '_' :: strftime yearDigits cacheFormat utc ++ '_' :: fixed 3 durationS ++ ".mp4".toList) := by
  rw [cacheName, hutc, Option.elim_some]

private theorem readCacheName_eq (cameraAlias : String) (hutc : DateTime.ofMicros start.instant = some utc)
    (hyear : (write yearDigits utc .year).length = 4) (durationS : ℚ) :
    ∃ name, cacheName yearDigits cameraAlias start durationS = .ok name ∧
      readCacheName name =
        some (cameraAlias.toList, start.instant, .round (pyRound (durationS * 1000) / 1000)) := by
  refine ⟨_, cacheName_eq hutc durationS, ?_⟩
  have hstamp := notMem_stamp yearDigits utc
  have hread : strptime cacheFormat (strftime yearDigits cacheFormat utc) = some utc :=
    strptime_strftime (by decide) hyear
  simp only [readCacheName]
  rw [rpartition_name _ _ (notMem_fixed durationS), rpartition_append _ hstamp, hread, Option.bind_some, float_fixed,
    Option.map_some, DateTime.micros_of_ofMicros hutc]

/-- Copies of one name are of one part. -/
theorem cacheName_injective (hutc : DateTime.ofMicros start.instant = some utc) {cameraAlias' : String}
    {start' : Aware} {durationS durationS' : ℚ}
    (h : cacheName yearDigits cameraAlias start durationS = cacheName yearDigits cameraAlias' start' durationS') :
    Recordings.cacheName cameraAlias start.instant durationS =
      Recordings.cacheName cameraAlias' start'.instant durationS' := by
  rw [cacheName_eq hutc] at h
  cases hutc' : DateTime.ofMicros start'.instant with
  | none =>
    rw [cacheName, hutc'] at h
    cases h
  | some utc' =>
    rw [cacheName_eq hutc'] at h
    have hparts := congrArg (fun name => rpartition '_' (stem name)) (Except.ok.inj h)
    simp only [rpartition_name _ _ (notMem_fixed _), Prod.mk.injEq] at hparts
    obtain ⟨hhead, hseconds⟩ := hparts
    have hnamed := congrArg (rpartition '_') hhead
    rw [rpartition_append _ (notMem_stamp _ _), rpartition_append _ (notMem_stamp _ _), Prod.mk.injEq] at hnamed
    obtain ⟨halias, hstamp⟩ := hnamed
    rw [cacheFormat_eq] at hstamp
    obtain rfl := strftime_injective (by decide) (by decide) hstamp
    have hinstant : start.instant = start'.instant :=
      (DateTime.micros_of_ofMicros hutc).symm.trans (DateTime.micros_of_ofMicros hutc')
    rw [Recordings.cacheName, Recordings.cacheName, String.toList_inj.mp halias, hinstant,
      pyRound_of_fixed_eq hseconds]

/-- What is read of a copy's name is its part, and copies of one name are of one part. -/
theorem readCacheName_cacheName (hdigits : yearDigits ≤ 4) (cameraAlias : String)
    (hutc : DateTime.ofMicros start.instant = some utc) (hyear : 1000 ≤ utc.year ∨ yearDigits = 4) :
    (∀ (k : ℤ) (durationS : ℚ), Number.round (k / 1000) = .finite durationS →
      ∃ name, cacheName yearDigits cameraAlias start durationS = .ok name ∧
        readCacheName name = some (cameraAlias.toList, start.instant, .finite durationS)) ∧
    ∀ (cameraAlias' : String) (start' : Aware) (durationS durationS' : ℚ),
      cacheName yearDigits cameraAlias start durationS = cacheName yearDigits cameraAlias' start' durationS' →
      Recordings.cacheName cameraAlias start.instant durationS =
        Recordings.cacheName cameraAlias' start'.instant durationS' := by
  refine ⟨fun k durationS hk => ?_, fun _ _ _ _ h => cacheName_injective hutc h⟩
  obtain ⟨hnearest, hlt⟩ := round_eq_finite.mp hk
  obtain ⟨name, hname, hread⟩ := readCacheName_eq cameraAlias hutc (length_year hdigits hyear) durationS
  have hsame : Number.round (pyRound (durationS * 1000) / 1000) = .finite durationS := by
    rw [← hnearest] at hlt ⊢
    exact round_eq_finite.mpr ⟨nearest_thousandth k, hlt⟩
  exact ⟨name, hname, hsame ▸ hread⟩

/-- 01:30 in Israel when the clocks have gone back, 2026. -/
def repeatedHour : Aware where
  naive := {
    year := 2026
    month := 10
    day := 25
    year_pos := by decide
    month_pos := by decide
    month_le := by decide
    day_pos := by decide
    day_le := by decide
    hour := 1
    minute := 30
    second := 0
    microsecond := 123456
    year_le := by decide
    hour_lt := by decide
    minute_lt := by decide
    second_lt := by decide
    microsecond_lt := by decide }
  utcoffset := 7200000000
  within := by decide

private theorem year_repeatedHour : ∃ utc, DateTime.ofMicros repeatedHour.instant = some utc ∧ 1000 ≤ utc.year := by
  have hsome : ((DateTime.ofMicros repeatedHour.instant).any fun utc => 1000 ≤ utc.year) = true := by decide
  obtain ⟨utc, hutc, hyear⟩ := (Option.any_eq_true _ _).mp hsome
  exact ⟨utc, hutc, of_decide_eq_true hyear⟩

theorem readCacheName_cacheName_repeatedHour : AcceptedCameras.aliasPattern "Cam_1-a" ∧
    ∃ name, cacheName 0 "Cam_1-a" repeatedHour (1319684433191633 / 2199023255552) = .ok name ∧
      readCacheName name =
        some ("Cam_1-a".toList, repeatedHour.instant, .finite (1319684433191633 / 2199023255552)) := by
  obtain ⟨utc, hutc, hyear⟩ := year_repeatedHour
  have hdouble : Number.round ((600123 : ℤ) / 1000) = .finite (1319684433191633 / 2199023255552) := by decide +kernel
  exact ⟨by decide, (readCacheName_cacheName (by decide) "Cam_1-a" hutc (.inl hyear)).1 600123 _ hdouble⟩

/-- A year's first midnight. -/
def newYear (year : ℕ) (hyear : 1 ≤ year ∧ year ≤ 9999) (utcoffset : ℤ)
    (within : -86400000000 < utcoffset ∧ utcoffset < 86400000000) : Aware where
  naive := {
    year := year
    month := 1
    day := 1
    year_pos := hyear.1
    month_pos := le_rfl
    month_le := by decide
    day_pos := le_rfl
    day_le := by simp [daysInMonth, monthLengths]
    hour := 0
    minute := 0
    second := 0
    microsecond := 0
    year_le := hyear.2
    hour_lt := by decide
    minute_lt := by decide
    second_lt := by decide
    microsecond_lt := by decide }
  utcoffset := utcoffset
  within := within

/-- `datetime.min` of a clock an hour ahead of UTC. -/
def datetimeMin : Aware := newYear 1 (by decide) 3600000000 (by decide)

def year999 : Aware := newYear 999 (by decide) 0 (by decide)

def year9990 : Aware := newYear 9990 (by decide) 0 (by decide)

theorem not_readCacheName :
    (∀ yearDigits, ¬∀ (cameraAlias : String) (start : Aware) (k : ℤ) (durationS : ℚ),
      AcceptedCameras.aliasPattern cameraAlias → Number.round (k / 1000) = .finite durationS →
      ∃ name, cacheName yearDigits cameraAlias start durationS = .ok name ∧
        readCacheName name = some (cameraAlias.toList, start.instant, .finite durationS)) ∧
    -- a year written with three digits is read as four, and its January as October
    ∃ name, cacheName 0 "cam1" year999 0 = .ok name ∧
      readCacheName name = some ("cam1".toList, year9990.instant + 273 * 86400000000, .finite 0) := by
  constructor
  · intro yearDigits h
    obtain ⟨name, hname, -⟩ := h "cam1" datetimeMin 0 0 (by decide) (by decide +kernel)
    have hnone : DateTime.ofMicros datetimeMin.instant = none := by decide
    rw [cacheName, hnone] at hname
    cases hname
  · exact ⟨"cam1_9990101T000000000000Z_0.000.mp4".toList, by decide +kernel, by decide +kernel⟩

end Kanat.ReplayNames
