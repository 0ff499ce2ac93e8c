import Kanat.Numerals
import Mathlib.Algebra.Order.Field.Basic
import Mathlib.Algebra.Order.Floor.Ring
import Mathlib.Data.List.Forall2
import Mathlib.Data.Rat.Floor
import Mathlib.Tactic.Linarith
import Mathlib.Tactic.Ring

/-! # The Target Sheets' canvases

`sheet_bounds` and `sheet_crops` of `detection/board.py`, positions being exact. Rounding a canvas's corner down to a
whole px takes from the far sides what it adds to the near ones. -/
namespace Kanat.SheetCrops

/-- `(x0, y0, x1, y1)` -/
structure Bound (K : Type*) where
  x0 : K
  y0 : K
  x1 : K
  y1 : K

/-- `(x, y, w, h)`, whole Board px. -/
structure Crop where
  x : ℤ
  y : ℤ
  w : ℤ
  h : ℤ
  deriving DecidableEq

variable {K : Type*} [Field K] [LinearOrder K] [IsStrictOrderedRing K] [FloorRing K]

/-- The side of a canvas `need` long or longer: `int(math.ceil(need / 32)) * 32`. -/
def side (need : K) : ℤ := ⌈need / 32⌉ * 32

/-- What growing to a whole multiple of 32 adds. -/
def spare (need : K) : K := side need - need

omit [IsStrictOrderedRing K] in
theorem dvd_side (need : K) : 32 ∣ side need := ⟨_, mul_comm _ _⟩

theorem spare_nonneg (need : K) : 0 ≤ spare need := by
  have h : need / 32 ≤ (⌈need / 32⌉ : K) := Int.le_ceil _
  rw [div_le_iff₀ (by norm_num)] at h
  rw [spare, side]
  push_cast
  linarith

/-- The near side always has its context. -/
theorem near_side (p context need : K) : (⌊p - (spare need / 2 + context)⌋ : K) ≤ p - context := by
  have hfloor := Int.floor_le (p - (spare need / 2 + context))
  have hspare := spare_nonneg need
  linarith

omit [IsStrictOrderedRing K] in
theorem corner_eq (p context need : K) : (⌊p - (spare need / 2 + context)⌋ : K) =
    p - (spare need / 2 + context) - Int.fract (p - (spare need / 2 + context)) := by
  rw [← Int.self_sub_fract]

/-- The far side has its context just if the spare left there covers what rounding took. -/
theorem far_side_iff (p extent context : K) :
    p + extent + context ≤ (⌊p - (spare (extent + 2 * context) / 2 + context)⌋ : K) + side (extent + 2 * context) ↔
      Int.fract (p - (spare (extent + 2 * context) / 2 + context)) ≤ spare (extent + 2 * context) / 2 := by
  have hside : (side (extent + 2 * context) : K) = spare (extent + 2 * context) + (extent + 2 * context) := by
    rw [spare, sub_add_cancel]
  rw [corner_eq, hside]
  constructor <;> intro h <;> linarith

/-- Rounding takes less than a px of it. -/
theorem far_side_lt (p extent context : K) : p + extent + context - 1 <
    (⌊p - (spare (extent + 2 * context) / 2 + context)⌋ : K) + side (extent + 2 * context) := by
  have hside : (side (extent + 2 * context) : K) = spare (extent + 2 * context) + (extent + 2 * context) := by
    rw [spare, sub_add_cancel]
  have hfract := Int.fract_lt_one (p - (spare (extent + 2 * context) / 2 + context))
  have hspare := spare_nonneg (extent + 2 * context)
  rw [corner_eq, hside]
  linarith

/-- `SHEET_CONTEXT_PX` -/
def sheetContextPx : K := 32

def Bound.moved (b : Bound K) (dx dy : K) : Bound K := ⟨b.x0 + dx, b.y0 + dy, b.x1 + dx, b.y1 + dy⟩

/-- The reference Target's bound through Board space, and every other's the same moved by its centroid's offset. -/
def sheetBounds {Polygon : Type*} (centroid : Polygon → K × K) (tplToBoard : K × K → K × K) (boundTpl : Bound K)
    (reference : Polygon) (others : List Polygon) : List (Bound K) :=
  let corner := tplToBoard (boundTpl.x0, boundTpl.y0)
  let far := tplToBoard (boundTpl.x1, boundTpl.y1)
  let ref : Bound K := ⟨corner.1, corner.2, far.1, far.2⟩
  let origin := centroid reference
  (reference :: others).map fun t => ref.moved ((centroid t).1 - origin.1) ((centroid t).2 - origin.2)

/-- `context` is `SHEET_CONTEXT_PX` where none is given. -/
def sheetCrops (context : Option K) : List (Bound K) → List Crop
  | [] => []
  | first :: rest =>
    let c := context.getD sheetContextPx
    let needX := first.x1 - first.x0 + 2 * c
    let needY := first.y1 - first.y0 + 2 * c
    let w := side needX
    let h := side needY
    let sx := (w - needX) / 2 + c
    let sy := (h - needY) / 2 + c
    (first :: rest).map fun b => ⟨⌊b.x0 - sx⌋, ⌊b.y0 - sy⌋, w, h⟩

/-- At least the context on all four sides. -/
def Crop.Holds (context : K) (b : Bound K) (crop : Crop) : Prop :=
  (crop.x : K) ≤ b.x0 - context ∧ (crop.y : K) ≤ b.y0 - context ∧
    b.x1 + context ≤ (crop.x : K) + crop.w ∧ b.y1 + context ≤ (crop.y : K) + crop.h

/-- One canvas a bound, in order, all of one size in whole multiples of 32, each holding its bound and context. -/
def HoldContext (context : K) (sheets : List (Bound K)) (crops : List Crop) : Prop :=
  List.Forall₂ (Crop.Holds context) sheets crops ∧ (∀ a ∈ crops, ∀ b ∈ crops, a.w = b.w ∧ a.h = b.h) ∧
    ∀ crop ∈ crops, 32 ∣ crop.w ∧ 32 ∣ crop.h

/-- Half of an axis's spare covers what rounding the corner down takes. -/
def Covered (context p extent : K) : Prop :=
  Int.fract (p - (spare (extent + 2 * context) / 2 + context)) ≤ spare (extent + 2 * context) / 2

def Bound.Covered (context : K) (b : Bound K) : Prop :=
  SheetCrops.Covered context b.x0 (b.x1 - b.x0) ∧ SheetCrops.Covered context b.y0 (b.y1 - b.y0)

/-- Bounds of one size. -/
def OneSize (sheets : List (Bound K)) : Prop :=
  ∀ a ∈ sheets, ∀ b ∈ sheets, a.x1 - a.x0 = b.x1 - b.x0 ∧ a.y1 - a.y0 = b.y1 - b.y0

omit [LinearOrder K] [IsStrictOrderedRing K] [FloorRing K] in
theorem oneSize_sheetBounds {Polygon : Type*} (centroid : Polygon → K × K) (tplToBoard : K × K → K × K)
    (boundTpl : Bound K) (reference : Polygon) (others : List Polygon) :
    OneSize (sheetBounds centroid tplToBoard boundTpl reference others) := by
  intro a ha b hb
  obtain ⟨t, -, rfl⟩ := List.mem_map.mp ha
  obtain ⟨u, -, rfl⟩ := List.mem_map.mp hb
  constructor <;> simp only [Bound.moved] <;> ring

/-- The canvas a bound of the shared size gets. -/
def cropOf (context : K) (b : Bound K) : Crop :=
  let needX := b.x1 - b.x0 + 2 * context
  let needY := b.y1 - b.y0 + 2 * context
  ⟨⌊b.x0 - (spare needX / 2 + context)⌋, ⌊b.y0 - (spare needY / 2 + context)⌋, side needX, side needY⟩

omit [IsStrictOrderedRing K] in
theorem sheetCrops_eq {context : Option K} {sheets : List (Bound K)} (h : OneSize sheets) :
    sheetCrops context sheets = sheets.map (cropOf (context.getD sheetContextPx)) := by
  cases sheets with
  | nil => rfl
  | cons first rest =>
    refine List.map_congr_left fun b hb => ?_
    obtain ⟨hx, hy⟩ := h b hb first List.mem_cons_self
    simp only [cropOf, hx, hy]
    rfl

theorem cropOf_holds_iff {context : K} {b : Bound K} : (cropOf context b).Holds context b ↔ b.Covered context := by
  have hx : b.x1 + context = b.x0 + (b.x1 - b.x0) + context := by ring
  have hy : b.y1 + context = b.y0 + (b.y1 - b.y0) + context := by ring
  rw [Crop.Holds, hx, hy]
  simp only [cropOf, far_side_iff]
  exact ⟨fun ⟨_, _, h⟩ => h, fun h => ⟨near_side _ _ _, near_side _ _ _, h⟩⟩

/-- The canvases hold their context just where half the spare covers the rounding, on both axes of every bound. -/
theorem hold_context_iff {Polygon : Type*} (centroid : Polygon → K × K) (tplToBoard : K × K → K × K)
    (boundTpl : Bound K) (reference : Polygon) (others : List Polygon) (context : Option K) :
    let sheets := sheetBounds centroid tplToBoard boundTpl reference others
    HoldContext (context.getD sheetContextPx) sheets (sheetCrops context sheets) ↔
      ∀ b ∈ sheets, b.Covered (context.getD sheetContextPx) := by
  intro sheets
  have hsize : OneSize sheets := oneSize_sheetBounds centroid tplToBoard boundTpl reference others
  rw [sheetCrops_eq hsize, HoldContext, List.forall₂_map_right_iff, List.forall₂_same]
  simp only [cropOf_holds_iff]
  refine ⟨And.left, fun h => ⟨h, fun a ha b hb => ?_, fun crop hcrop => ?_⟩⟩
  · obtain ⟨s, hs, rfl⟩ := List.mem_map.mp ha
    obtain ⟨t, ht, rfl⟩ := List.mem_map.mp hb
    obtain ⟨hx, hy⟩ := hsize s hs t ht
    exact ⟨by simp only [cropOf, hx], by simp only [cropOf, hy]⟩
  · obtain ⟨s, -, rfl⟩ := List.mem_map.mp hcrop
    exact ⟨dvd_side _, dvd_side _⟩

/-- Two sheets 100.5 px by 49.6 px, whose canvases are 128 px by 96 px. -/
theorem hold_context_iff_twoSheets : HoldContext (8 : ℚ)
    (sheetBounds id id (⟨104 / 10, 206 / 10, 1109 / 10, 702 / 10⟩ : Bound ℚ) (0, 0) [(190, 0)])
    (sheetCrops (some 8) (sheetBounds id id (⟨104 / 10, 206 / 10, 1109 / 10, 702 / 10⟩ : Bound ℚ) (0, 0) [(190, 0)])) := by
  refine (hold_context_iff id id ⟨104 / 10, 206 / 10, 1109 / 10, 702 / 10⟩ (0, 0) [(190, 0)] (some 8)).mpr ?_
  intro b hb
  simp only [sheetBounds, List.map_cons, List.map_nil, List.mem_cons, List.not_mem_nil, or_false] at hb
  rcases hb with rfl | rfl <;> norm_num [Bound.Covered, Covered, spare, side, Bound.moved, Int.fract]

/-- A bound half a px off the grid, whose 64 px and their context need no growing. -/
theorem not_hold_context : ¬ HoldContext (32 : ℚ)
    (sheetBounds id id (⟨1 / 2, 1 / 2, 129 / 2, 129 / 2⟩ : Bound ℚ) (0, 0) [])
    (sheetCrops none (sheetBounds id id (⟨1 / 2, 1 / 2, 129 / 2, 129 / 2⟩ : Bound ℚ) (0, 0) [])) := by
  rintro ⟨h, -, -⟩
  obtain ⟨-, -, hfar, -⟩ := (List.forall₂_cons.mp h).1
  have hside : side (128 : ℚ) = 128 := by norm_num [side]
  norm_num [Bound.moved, hside, sheetContextPx] at hfar

end Kanat.SheetCrops
