import Kanat.Rounding
import Mathlib.Data.Int.Log
import Mathlib.Data.Rat.Floor

/-! # Reading by pages

`DTOs/PaginatedResult.cs`, and the paginated reads of `InfluxRepository` and `EfRepository`. An `int` wraps unless
`checked`; rows are numbered from 0 in the order a query gives them. -/
namespace Kanat.Pagination
open Rounding (pyRound pyRound_error pyRound_intCast)

variable {T : Type}

/-- A positive count's nearest `double`, a tie to the even one. -/
def toDouble (x : ℚ) : ℚ := pyRound (x / 2 ^ (Int.log 2 |x| - 52)) * 2 ^ (Int.log 2 |x| - 52)

structure PaginatedResult (T : Type) where
  items : List T
  page : Int32
  pageSize : Int32
  totalCount : Int32
  totalPages : Int32
  hasPreviousPage : Bool
  hasNextPage : Bool

/-- `PaginatedResult.Create`, of a positive `pageSize`. -/
def create (items : List T) (page pageSize totalCount : Int32) : PaginatedResult T :=
  let totalPages := Int32.ofInt ⌈toDouble (totalCount.toInt / pageSize.toInt)⌉
  { items, page, pageSize, totalCount, totalPages, hasPreviousPage := 1 < page, hasNextPage := page < totalPages }

/-- `(page - 1) * pageSize` -/
def skip (page pageSize : Int32) : Int32 := (page - 1) * pageSize

/-- `Skip` and `Take` of a list; a negative `skip` skips none. -/
def fromCollection (allItems : List T) (page pageSize : Int32) : PaginatedResult T :=
  let pageItems := (allItems.drop (skip page pageSize).toInt.toNat).take pageSize.toInt.toNat
  create pageItems page pageSize (Int32.ofNat allItems.length)

/-- `PaginationParameters.Normalize` -/
def normalize (page pageSize : Int32) : Int32 × Int32 := (max 1 page, max 1 (min pageSize 1000))

def getSkip (page pageSize : Int32) : Int32 := skip (normalize page pageSize).1 (normalize page pageSize).2

/-- The rows from `lower` up to `upper`. -/
def rows (lower upper : ℤ) (ordered : List T) : List T := (ordered.take upper.toNat).drop lower.toNat

/-- PostgreSQL's `OFFSET` and `LIMIT`; it refuses a negative one. -/
def offsetLimit (skip take : Int32) (ordered : List T) : Option (List T) :=
  if skip < 0 ∨ take < 0 then none else some (rows skip.toInt (skip.toInt + take.toInt) ordered)

/-- `EfRepository.GetPaginatedAsync`, where the table's rows in order and its count are `ordered` and `total`. -/
def getPaginatedAsync (page pageSize : Int32) (ordered : List T) (total : Int32) : Option (PaginatedResult T) :=
  let page := if page ≤ 0 then 1 else page
  let pageSize := if pageSize ≤ 0 then 10 else pageSize
  (offsetLimit (skip page pageSize) pageSize ordered).map fun items => create items page pageSize total

/-- `RangeService.GetAllRangesPaginatedAsync` -/
def getAllRangesPaginatedAsync (page pageSize : Int32) (ordered : List T) (total : Int32) :
    Option (PaginatedResult T) :=
  let normalized := normalize page pageSize
  (getPaginatedAsync normalized.1 normalized.2 ordered total).map fun result =>
    create result.items result.page result.pageSize result.totalCount

/-- `checked(lower + pageSize)` -/
def checkedAdd (lower pageSize : Int32) : Option Int32 :=
  if -2 ^ 31 ≤ lower.toInt + pageSize.toInt ∧ lower.toInt + pageSize.toInt < 2 ^ 31 then some (lower + pageSize)
  else none

/-- QuestDB's `LIMIT lower, upper` after the offset is clamped. -/
def questPage (page pageSize : Int32) (ordered : List T) : Option (List T) :=
  let offset := max 0 (skip page pageSize)
  let lower := max 0 offset
  (checkedAdd lower pageSize).map fun upper => rows lower.toInt upper.toInt ordered

def getPaginatedPacketsByRangeAsync (page pageSize : Int32) (ordered : List T) : Option (List T) :=
  questPage page pageSize ordered

/-- `ordered` is what the query keeps of packets `interval` apart. -/
def getPaginatedPacketsByRangeAsyncWithInterval (interval page pageSize : Int32) (ordered : List T) :
    Option (List T) :=
  if interval < 0 then none
  else questPage (if page ≤ 0 then 1 else page) (if pageSize ≤ 0 then 1000 else pageSize) ordered

theorem toDouble_intCast {n : ℤ} (hpos : 0 < n) (hlt : n < 2 ^ 53) : toDouble n = n := by
  have hlog : Int.log 2 (n : ℚ) < 53 := by
    refine (Int.lt_zpow_iff_log_lt (by norm_num) (by exact_mod_cast hpos)).mp ?_
    exact_mod_cast hlt
  have hnonneg : (n : ℚ) / 2 ^ (Int.log 2 (n : ℚ) - 52) = (n * 2 ^ (52 - Int.log 2 (n : ℚ)).toNat : ℤ) := by
    have hexp : ((52 - Int.log 2 (n : ℚ)).toNat : ℤ) = 52 - Int.log 2 (n : ℚ) := Int.toNat_of_nonneg (by omega)
    push_cast
    rw [div_eq_mul_inv, ← zpow_neg, ← zpow_natCast, hexp, neg_sub]
  rw [toDouble, abs_of_pos (by exact_mod_cast hpos), hnonneg, pyRound_intCast, ← hnonneg]
  exact div_mul_cancel₀ _ (zpow_ne_zero _ (by norm_num))

private theorem toDouble_error {x : ℚ} (hpos : 0 < x) : |toDouble x - x| ≤ x / 2 ^ 53 := by
  have hlog := Int.zpow_log_le_self (b := 2) (by norm_num) hpos
  rw [toDouble, abs_of_pos hpos]
  set ulp : ℚ := 2 ^ (Int.log 2 x - 52) with hulp
  have hulpPos : 0 < ulp := zpow_pos (by norm_num) _
  have hscale : ulp * 2 ^ 52 ≤ x := by
    rw [hulp, ← zpow_natCast, ← zpow_add₀ (by norm_num)]
    simpa using hlog
  calc |pyRound (x / ulp) * ulp - x| = |pyRound (x / ulp) - x / ulp| * ulp := by
        rw [← abs_of_pos hulpPos, ← abs_mul, abs_of_pos hulpPos, sub_mul, div_mul_cancel₀ _ hulpPos.ne']
    _ ≤ 1 / 2 * ulp := mul_le_mul_of_nonneg_right (pyRound_error _) hulpPos.le
    _ ≤ x / 2 ^ 53 := by linarith

/-- A rounded quotient of two counts has the quotient's ceiling. -/
theorem ceil_toDouble_div {a b : ℤ} (ha : 0 ≤ a) (ha' : a < 2 ^ 31) (hb : 0 < b) :
    ⌈toDouble (a / b)⌉ = ⌈(a / b : ℚ)⌉ := by
  have hb' : (0 : ℚ) < b := by exact_mod_cast hb
  rcases ha.eq_or_lt with rfl | ha
  · have hzero : pyRound ((0 : ℤ) : ℚ) = 0 := pyRound_intCast 0
    rw [Int.cast_zero] at hzero
    simp [toDouble, hzero]
  have hpos : (0 : ℚ) < a / b := div_pos (by exact_mod_cast ha) hb'
  set k := ⌈(a / b : ℚ)⌉ with hk
  have hle : (a / b : ℚ) ≤ k := Int.le_ceil _
  have hlt : (k - 1 : ℚ) < a / b := by linarith [Int.ceil_lt_add_one (a / b : ℚ)]
  rcases hle.eq_or_lt with heq | hne
  · have hk0 : 0 < k := by exact_mod_cast hpos.trans_le hle
    have hka : k ≤ a := by
      have hab : (a : ℚ) = k * b := (div_eq_iff hb'.ne').mp heq
      have hab : a = k * b := by exact_mod_cast hab
      nlinarith
    rw [heq, toDouble_intCast hk0 (by omega), Int.ceil_intCast]
  · -- no whole number is within `1 / b` of the quotient
    have hupper : (a / b : ℚ) + 1 / b ≤ k := by
      have hab : a < k * b := by exact_mod_cast (div_lt_iff₀ hb').mp hne
      rw [← add_div, div_le_iff₀ hb']
      exact_mod_cast hab
    have hlower : (k - 1 : ℚ) + 1 / b ≤ a / b := by
      have hab : (k - 1) * b < a := by exact_mod_cast (lt_div_iff₀ hb').mp hlt
      rw [← le_sub_iff_add_le, ← sub_div, le_div_iff₀ hb', le_sub_iff_add_le]
      exact_mod_cast hab
    have hsmall : (a / b : ℚ) / 2 ^ 53 < 1 / b := by
      rw [div_div, div_lt_div_iff₀ (by positivity) hb']
      have ha'' : (a : ℚ) < 2 ^ 31 := by exact_mod_cast ha'
      nlinarith
    obtain ⟨hdown, hup⟩ := abs_le.mp (toDouble_error hpos)
    exact Int.ceil_eq_iff.mpr ⟨by linarith, by linarith⟩

/-- The rows numbered `(page - 1) * pageSize` up to `page * pageSize`. -/
def pageRows (page pageSize : Int32) (ordered : List T) : List T :=
  rows ((page.toInt - 1) * pageSize.toInt) (page.toInt * pageSize.toInt) ordered

/-- A read refuses, or gives the rows of its page. -/
def ExactOrRefused (read : List T → Option (List T)) (page pageSize : Int32) : Prop :=
  ∀ ordered, read ordered = none ∨ read ordered = some (pageRows page pageSize ordered)

theorem toInt_skip {page : Int32} (hpage : 1 ≤ page) (pageSize : Int32) :
    (skip page pageSize).toInt = ((page.toInt - 1) * pageSize.toInt).bmod (2 ^ 32) := by
  have hlt := page.toInt_lt
  have hle : 1 ≤ page.toInt := Int32.le_iff_toInt_le.mp hpage
  have hsub : (page - 1).toInt = page.toInt - 1 := by
    rw [Int32.toInt_sub, Int32.toInt_one]
    exact Int.bmod_eq_of_le (by omega) (by omega)
  rw [skip, Int32.toInt_mul, hsub]

theorem toInt_max (x y : Int32) : (max x y).toInt = max x.toInt y.toInt := by
  change (if x ≤ y then y else x).toInt = max x.toInt y.toInt
  split_ifs with h
  · exact (max_eq_right (Int32.le_iff_toInt_le.mp h)).symm
  · have hlt : y.toInt < x.toInt := Int32.lt_iff_toInt_lt.mp (Int32.not_le.mp h)
    exact (max_eq_left hlt.le).symm

/-- Rows that start elsewhere are other rows of some result. -/
theorem exists_other_rows {lower first size : ℤ} (h0 : 0 ≤ lower) (hlt : lower < first) (hsize : 1 ≤ size) :
    ∃ ordered : List Unit, rows lower (lower + size) ordered ≠ rows first (first + size) ordered := by
  refine ⟨List.replicate (lower.toNat + 1) (), ?_⟩
  have hlower : (rows lower (lower + size) (List.replicate (lower.toNat + 1) ())).length = 1 := by
    simp only [rows, List.length_drop, List.length_take, List.length_replicate]
    omega
  have hfirst : (rows first (first + size) (List.replicate (lower.toNat + 1) ())).length = 0 := by
    simp only [rows, List.length_drop, List.length_take, List.length_replicate]
    omega
  intro heq
  rw [heq, hfirst] at hlower
  omega

theorem pageRows_eq (page pageSize : Int32) (ordered : List T) : pageRows page pageSize ordered =
    rows ((page.toInt - 1) * pageSize.toInt) ((page.toInt - 1) * pageSize.toInt + pageSize.toInt) ordered := by
  rw [pageRows]
  congr 1
  ring

section
variable {page pageSize : Int32}

/-- Where a page starts, and what the product of an `int` makes of it. -/
theorem bmod_cases (n : ℤ) : (n < 2 ^ 31 → 0 ≤ n → n.bmod (2 ^ 32) = n) ∧ n.bmod (2 ^ 32) < 2 ^ 31 := by
  refine ⟨fun hlt h0 => Int.bmod_eq_of_le (by omega) (by omega), ?_⟩
  exact Int.bmod_lt (by norm_num)

private theorem checkedAdd_max (x : Int32) (hsize : 1 ≤ pageSize) :
    checkedAdd (max 0 x) pageSize = none ∧ 2 ^ 31 ≤ max 0 x.toInt + pageSize.toInt ∨
      ∃ upper, checkedAdd (max 0 x) pageSize = some upper ∧ upper.toInt = max 0 x.toInt + pageSize.toInt ∧
        max 0 x.toInt + pageSize.toInt < 2 ^ 31 := by
  have hsize : 1 ≤ pageSize.toInt := Int32.le_iff_toInt_le.mp hsize
  have hmax : 0 ≤ max 0 x.toInt := le_max_left _ _
  by_cases hlt : max 0 x.toInt + pageSize.toInt < 2 ^ 31
  · refine .inr ⟨_, if_pos (by rw [toInt_max, Int32.toInt_zero]; omega), ?_, hlt⟩
    rw [Int32.toInt_add, toInt_max, Int32.toInt_zero]
    exact (bmod_cases _).1 hlt (by omega)
  · exact .inl ⟨if_neg (by rw [toInt_max, Int32.toInt_zero]; omega), not_lt.mp hlt⟩

/-- QuestDB is asked from the clamped offset on, or not at all. -/
theorem questPage_cases (hpage : 1 ≤ page) (hsize : 1 ≤ pageSize) (ordered : List T) :
    let lower := max 0 (((page.toInt - 1) * pageSize.toInt).bmod (2 ^ 32))
    questPage page pageSize ordered = if 2 ^ 31 ≤ lower + pageSize.toInt then none
      else some (rows lower (lower + pageSize.toInt) ordered) := by
  intro lower
  have hmax : max 0 (max 0 (skip page pageSize)).toInt = lower := by
    rw [toInt_max, Int32.toInt_zero, max_eq_right (le_max_left _ _), toInt_skip hpage]
  have hadd := checkedAdd_max (max 0 (skip page pageSize)) hsize
  rw [hmax] at hadd
  rcases hadd with ⟨hnone, hle⟩ | ⟨upper, hsome, hupper, hlt⟩
  · rw [if_pos hle]
    simp only [questPage, hnone, Option.map_none]
  · rw [if_neg (not_le.mpr hlt)]
    simp only [questPage, hsome, Option.map_some, hupper, toInt_max 0 (max 0 _), Int32.toInt_zero, hmax]

/-- Which pages are exact or refused, of a read that is refused or reads a page's rows from `lower` on. -/
theorem exact_iff_of_rows (hsize : 1 ≤ pageSize) {lower : ℤ} {refused : Prop} [Decidable refused]
    {read : (T : Type) → List T → Option (List T)}
    (hread : ∀ T ordered, read T ordered =
      if refused then none else some (rows lower (lower + pageSize.toInt) ordered))
    (hexact : (page.toInt - 1) * pageSize.toInt < 2 ^ 31 → lower = (page.toInt - 1) * pageSize.toInt)
    (hwrapped : ¬refused → 2 ^ 31 ≤ (page.toInt - 1) * pageSize.toInt →
      0 ≤ lower ∧ lower < (page.toInt - 1) * pageSize.toInt) :
    (∀ T, ExactOrRefused (read T) page pageSize) ↔ (page.toInt - 1) * pageSize.toInt < 2 ^ 31 ∨ refused := by
  have hsize' : 1 ≤ pageSize.toInt := Int32.le_iff_toInt_le.mp hsize
  constructor
  · intro h
    by_contra hnot
    obtain ⟨hle, hrefused⟩ := not_or.mp hnot
    obtain ⟨h0, hlt⟩ := hwrapped hrefused (not_lt.mp hle)
    obtain ⟨ordered, hne⟩ := exists_other_rows h0 hlt hsize'
    have hrows := h Unit ordered
    rw [hread, if_neg hrefused, pageRows_eq] at hrows
    exact hne (Option.some.inj (hrows.resolve_left (Option.some_ne_none _)))
  · intro h T ordered
    rw [hread, pageRows_eq]
    split_ifs with hrefused
    · exact .inl rfl
    · rw [hexact (h.resolve_right hrefused)]
      exact .inr rfl

theorem first_nonneg (hpage : 1 ≤ page) (hsize : 1 ≤ pageSize) : 0 ≤ (page.toInt - 1) * pageSize.toInt := by
  have hpage' : 1 ≤ page.toInt := Int32.le_iff_toInt_le.mp hpage
  have hsize' : 1 ≤ pageSize.toInt := Int32.le_iff_toInt_le.mp hsize
  exact mul_nonneg (by omega) (by omega)

/-- Which QuestDB pages are exact or refused. -/
theorem questPage_exact_iff (hpage : 1 ≤ page) (hsize : 1 ≤ pageSize) :
    (∀ (T : Type), ExactOrRefused (T := T) (questPage page pageSize) page pageSize) ↔
      (page.toInt - 1) * pageSize.toInt < 2 ^ 31 ∨
        2 ^ 31 ≤ max 0 (((page.toInt - 1) * pageSize.toInt).bmod (2 ^ 32)) + pageSize.toInt := by
  have hfirst := first_nonneg hpage hsize
  obtain ⟨hexact, hbmod⟩ := bmod_cases ((page.toInt - 1) * pageSize.toInt)
  refine exact_iff_of_rows hsize (fun T ordered => questPage_cases hpage hsize ordered) (fun hlt => ?_)
    fun _ hle => ⟨le_max_left _ _, ?_⟩
  · rw [hexact hlt hfirst, max_eq_right hfirst]
  · exact max_lt (by omega) (hbmod.trans_le hle)

theorem getPaginatedAsync_cases (hpage : 1 ≤ page) (hsize : 1 ≤ pageSize) (ordered : List T) (total : Int32) :
    let lower := ((page.toInt - 1) * pageSize.toInt).bmod (2 ^ 32)
    getPaginatedAsync page pageSize ordered total = if lower < 0 then none
      else some (create (rows lower (lower + pageSize.toInt) ordered) page pageSize total) := by
  intro lower
  have hpage' : ¬ page ≤ 0 := Int32.not_le.mpr (Int32.lt_of_lt_of_le (by decide) hpage)
  have hsize' : ¬ pageSize ≤ 0 := Int32.not_le.mpr (Int32.lt_of_lt_of_le (by decide) hsize)
  have htake : ¬ pageSize < 0 := fun h => hsize' (Int32.le_of_lt h)
  have hskip : (skip page pageSize).toInt = lower := toInt_skip hpage pageSize
  have hneg : skip page pageSize < 0 ↔ lower < 0 := by
    rw [Int32.lt_iff_toInt_lt, hskip]
    rfl
  simp only [getPaginatedAsync, if_neg hpage', if_neg hsize', offsetLimit, hneg, htake, or_false, hskip]
  split_ifs <;> rfl

/-- Which of `EfRepository`'s pages are exact or refused: its offset is not clamped. -/
theorem getPaginatedAsync_exact_iff (hpage : 1 ≤ page) (hsize : 1 ≤ pageSize) :
    (∀ (T : Type) total, ExactOrRefused (T := T)
        (fun ordered => (getPaginatedAsync page pageSize ordered total).map (·.items)) page pageSize) ↔
      (page.toInt - 1) * pageSize.toInt < 2 ^ 31 ∨ ((page.toInt - 1) * pageSize.toInt).bmod (2 ^ 32) < 0 := by
  have hfirst := first_nonneg hpage hsize
  obtain ⟨hexact, hbmod⟩ := bmod_cases ((page.toInt - 1) * pageSize.toInt)
  have hread (total : Int32) (T : Type) (ordered : List T) :=
    congrArg (Option.map (·.items)) (getPaginatedAsync_cases hpage hsize ordered total)
  simp only [apply_ite (Option.map _), Option.map_none, Option.map_some, create] at hread
  have hiff (total : Int32) := exact_iff_of_rows hsize (hread total) (fun hlt => hexact hlt hfirst) fun hneg hle =>
    ⟨not_lt.mp hneg, hbmod.trans_le hle⟩
  exact ⟨fun h => (hiff 0).mp fun T => h T 0, fun h T total => (hiff total).mpr h T⟩

/-- A page of the ranges, or of a Range's packets, is exact or refused, and says whether there is a next. -/
structure ExactPages (page pageSize : Int32) : Prop where
  ranges : ∀ (T : Type) total, ExactOrRefused (T := T)
    (fun ordered => (getPaginatedAsync page pageSize ordered total).map (·.items)) page pageSize
  packets : ∀ T : Type, ExactOrRefused (T := T) (getPaginatedPacketsByRangeAsync page pageSize) page pageSize
  intervals : ∀ (T : Type) interval, ExactOrRefused (T := T)
    (getPaginatedPacketsByRangeAsyncWithInterval interval page pageSize) page pageSize
  next : ∀ (T : Type) (items : List T) total, 0 ≤ total →
    ((create items page pageSize total).hasNextPage = true ↔ page.toInt * pageSize.toInt < total.toInt)

private theorem hasNextPage_iff (hsize : 1 ≤ pageSize) (items : List T) {total : Int32} (htotal : 0 ≤ total) :
    (create items page pageSize total).hasNextPage = true ↔ page.toInt * pageSize.toInt < total.toInt := by
  have hsize' : 1 ≤ pageSize.toInt := Int32.le_iff_toInt_le.mp hsize
  have htotal' : 0 ≤ total.toInt := Int32.le_iff_toInt_le.mp htotal
  have hpos : (0 : ℚ) < pageSize.toInt := by exact_mod_cast hsize'
  have hceil := ceil_toDouble_div htotal' total.toInt_lt hsize'
  have hnonneg : 0 ≤ ⌈(total.toInt / pageSize.toInt : ℚ)⌉ :=
    Int.ceil_nonneg (div_nonneg (by exact_mod_cast htotal') hpos.le)
  have hle : ⌈(total.toInt / pageSize.toInt : ℚ)⌉ ≤ total.toInt := by
    refine Int.ceil_le.mpr ((div_le_iff₀ hpos).mpr ?_)
    exact_mod_cast (le_mul_of_one_le_right htotal' hsize')
  have hlt := total.toInt_lt
  simp only [create, decide_eq_true_eq, hceil]
  rw [Int32.lt_iff_toInt_lt, Int32.toInt_ofInt_of_le (by omega) (by omega), Int.lt_ceil, lt_div_iff₀ hpos]
  exact_mod_cast Iff.rfl

/-- The pages are exact as long as the first row's number is an `int`. -/
theorem pages_exact_iff (hpage : 1 ≤ page) (hsize : 1 ≤ pageSize) :
    ExactPages page pageSize ↔ (page.toInt - 1) * pageSize.toInt < 2 ^ 31 := by
  constructor
  · intro h
    rcases (getPaginatedAsync_exact_iff hpage hsize).mp h.ranges with hlt | hneg
    · exact hlt
    · rcases (questPage_exact_iff hpage hsize).mp h.packets with hlt | hle
      · exact hlt
      · rw [max_eq_left hneg.le, zero_add] at hle
        exact absurd hle (not_le.mpr pageSize.toInt_lt)
  · intro hlt
    have hquest := (questPage_exact_iff hpage hsize).mpr (.inl hlt)
    have hpage' : ¬ page ≤ 0 := Int32.not_le.mpr (Int32.lt_of_lt_of_le (by decide) hpage)
    have hsize' : ¬ pageSize ≤ 0 := Int32.not_le.mpr (Int32.lt_of_lt_of_le (by decide) hsize)
    refine ⟨(getPaginatedAsync_exact_iff hpage hsize).mpr (.inl hlt), hquest, fun T interval ordered => ?_,
      fun T items total htotal => hasNextPage_iff hsize items htotal⟩
    rw [getPaginatedPacketsByRangeAsyncWithInterval, if_neg hpage', if_neg hsize']
    split_ifs
    · exact .inl rfl
    · exact hquest T ordered

theorem pages_exact_tenth : ExactPages 10 1000 ↔ ((10 : Int32).toInt - 1) * (1000 : Int32).toInt < 2 ^ 31 :=
  pages_exact_iff (by decide) (by decide)

/-- The page after 2^32 / 512 pages of 512 is read as the first. -/
theorem wrapped_page :
    (getPaginatedAsync 8388609 512 [()] 1).map (·.items) = some [()] ∧
      getPaginatedPacketsByRangeAsync 8388609 512 [()] = some [()] ∧
      getPaginatedPacketsByRangeAsyncWithInterval 0 8388609 512 [()] = some [()] ∧
      pageRows 8388609 512 [()] = [] ∧ ¬ ExactPages 8388609 512 := by
  refine ⟨by decide, by decide, by decide, by decide, fun h => ?_⟩
  exact absurd (h.packets Unit [()]) (by decide)

end

section
variable (page pageSize : Int32)

theorem one_le_normalize : 1 ≤ (normalize page pageSize).1 ∧ 1 ≤ (normalize page pageSize).2 :=
  have hle (x : Int32) : 1 ≤ max 1 x := Int32.le_iff_toInt_le.mpr (by rw [toInt_max]; exact le_max_left _ _)
  ⟨hle page, hle (min pageSize 1000)⟩

/-- The service gives what the repository does of the normalized page. -/
theorem getAllRangesPaginatedAsync_eq (ordered : List T) (total : Int32) :
    getAllRangesPaginatedAsync page pageSize ordered total =
      getPaginatedAsync (normalize page pageSize).1 (normalize page pageSize).2 ordered total := by
  obtain ⟨hpage, hsize⟩ := one_le_normalize page pageSize
  simp only [getAllRangesPaginatedAsync, getPaginatedAsync_cases hpage hsize]
  split_ifs <;> rfl

theorem fromCollection_exact {page pageSize : Int32} (hpage : 1 ≤ page) (hsize : 1 ≤ pageSize)
    (h : (page.toInt - 1) * pageSize.toInt < 2 ^ 31) (allItems : List T) :
    (fromCollection allItems page pageSize).items = pageRows page pageSize allItems := by
  have hsize' : 1 ≤ pageSize.toInt := Int32.le_iff_toInt_le.mp hsize
  have hfirst := first_nonneg hpage hsize
  have hskip : (skip page pageSize).toInt = (page.toInt - 1) * pageSize.toInt := by
    rw [toInt_skip hpage]
    exact (bmod_cases _).1 h hfirst
  rw [pageRows_eq, rows, List.drop_take, Int.toNat_add hfirst (by omega), Nat.add_sub_cancel_left, ← hskip]
  rfl

theorem getSkip_exact (h : ((normalize page pageSize).1.toInt - 1) * (normalize page pageSize).2.toInt < 2 ^ 31) :
    (getSkip page pageSize).toInt = ((normalize page pageSize).1.toInt - 1) * (normalize page pageSize).2.toInt := by
  obtain ⟨hpage, hsize⟩ := one_le_normalize page pageSize
  rw [getSkip, toInt_skip hpage]
  exact (bmod_cases _).1 h (first_nonneg hpage hsize)

end

end Kanat.Pagination
