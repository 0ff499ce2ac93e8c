import Kanat.SheetCrops
import Mathlib.LinearAlgebra.Matrix.Adjugate
import Mathlib.Data.Sign.Basic
import Mathlib.Analysis.Real.Sqrt

/-! # Board space and what is read in it (detection/board.py: BoardView, shifted, score, to_millimetres)

Positions are exact. A view's anchor, which nothing here reads, is left out. -/
namespace Kanat.BoardSpace
open SheetCrops

variable {K : Type} [Field K] [LinearOrder K]

abbrev Point (K : Type) := K × K
abbrev Polygon (K : Type) := List (Point K)
abbrev Mat (K : Type) := Matrix (Fin 3) (Fin 3) K

/-- What is raised instead of a reading. -/
inductive Raised where
  | linAlgError
  | indexError
  | notCalibrated
deriving DecidableEq

/-- `_as_matrix` -/
def asMatrix (scale : K) (offset : Point K) : Mat K := !![scale, 0, offset.1; 0, scale, offset.2; 0, 0, 1]

/-- The third coordinate of a point taken through `m`. -/
def depth (m : Mat K) (p : Point K) : K := m 2 0 * p.1 + m 2 1 * p.2 + m 2 2

/-- `cv2.perspectiveTransform`, which gives `(0, 0)` where the third coordinate is 0, as dividing by 0 does here. -/
def apply (m : Mat K) (p : Point K) : Point K :=
  ((m 0 0 * p.1 + m 0 1 * p.2 + m 0 2) / depth m p, (m 1 0 * p.1 + m 1 1 * p.2 + m 1 2) / depth m p)

/-- `np.linalg.inv` -/
def inv (m : Mat K) : Except Raised (Mat K) := if m.det = 0 then .error .linAlgError else .ok (m.det⁻¹ • m.adjugate)

structure Moments (K : Type) where
  m00 : K
  m10 : K
  m01 : K

/-- What is called of OpenCV: a polygon's moments, and whether a point is on it or inside. -/
structure OpenCV (K : Type) where
  moments : Polygon K → Moments K
  pointPolygonTest : Polygon K → Point K → Bool

structure BoardView (K : Type) [Field K] where
  H : Mat K
  tplToBoard : Mat K
  canvasSize : ℤ × ℤ
  targets : List (Polygon K)
  sheets : List (Bound K)
  crops : List Crop
  /-- A scale and an origin. -/
  placed : ∃ scale offset, scale ≠ 0 ∧ tplToBoard = asMatrix scale offset

def RING_CENTRE_TPL : Point K := (6954 / 10, 6392 / 10)
def RING_RADII_TPL : List K := [223 / 2, 2205 / 10, 3224 / 10, 4251 / 10, 5282 / 10]
def RING_SCORES : List ℕ := [10, 9, 8, 7, 6]
def OUTSIDE_RINGS : ℕ := 0

def Bound.Has (b : Bound K) (p : Point K) : Prop := p.1 ≥ b.x0 ∧ p.1 ≤ b.x1 ∧ p.2 ≥ b.y0 ∧ p.2 ≤ b.y1

instance (b : Bound K) (p : Point K) : Decidable (Bound.Has b p) := inferInstanceAs (Decidable (_ ∧ _))

/-- `_centroid` -/
def centroid (cv : OpenCV K) (polygon : Polygon K) : Point K :=
  ((cv.moments polygon).m10 / (cv.moments polygon).m00, (cv.moments polygon).m01 / (cv.moments polygon).m00)

namespace BoardView
variable (cv : OpenCV K) (view : BoardView K)

def boardScale : K := view.tplToBoard 0 0

def templateToBoard (p : Point K) : Point K := apply view.tplToBoard p

def boardToTemplate (p : Point K) : Except Raised (Point K) := (inv view.tplToBoard).map fun m => apply m p

def frameToBoard (p : Point K) : Except Raised (Point K) := (inv view.H).map fun m => apply (view.tplToBoard * m) p

def ringCentre (targetIndex : Option ℕ) : Except Raised (Point K) :=
  let ring := view.templateToBoard RING_CENTRE_TPL
  match targetIndex, view.targets with
  | none, _ | _, [] => .ok ring
  | some k, first :: _ =>
    match view.targets[k]? with
    | none => .error .indexError
    | some target =>
      if (cv.moments first).m00 = 0 ∨ (cv.moments target).m00 = 0 then .ok ring
      else .ok (ring + (centroid cv target - centroid cv first))

/-- The first sheet whose bound holds the point, or -1: the sheets are gone through from the last. -/
def sheetOf (p : Point K) : ℤ :=
  view.sheets.zipIdx.reverse.foldl (fun found entry => if Bound.Has entry.1 p then (entry.2 : ℤ) else found) (-1)

def assign (p : Point K) : Option ℕ :=
  ((view.targets.zipIdx.filter fun entry => cv.pointPolygonTest entry.1 p).map fun entry => entry.2).head?

end BoardView

/-- `norm` is NumPy's norm of a vector. -/
def score (cv : OpenCV K) (norm : Point K → K) (points : List (Point K)) (view : BoardView K) (targetIndex : Option ℕ) :
    Except Raised (List ℕ) :=
  (view.ringCentre cv targetIndex).map fun centre => points.map fun p =>
    let distance := norm (p - centre) / view.boardScale
    (((RING_RADII_TPL.zip RING_SCORES).find? fun ring => distance ≤ ring.1).map fun ring => ring.2).getD OUTSIDE_RINGS

def toPrintedAxes (offsets : List (Point K)) (mmPerUnit : K) : List (Point K) :=
  offsets.map fun o => (o.1 * mmPerUnit, o.2 * mmPerUnit * -1)

def toMillimetres (cv : OpenCV K) (points : List (Point K)) (view : BoardView K) (mmPerTplPx : Option K)
    (targetIndex : Option ℕ) : Except Raised (List (Point K)) :=
  match mmPerTplPx with
  | none => .error .notCalibrated
  | some mmPerTplPx => (view.ringCentre cv targetIndex).map fun centre =>
    toPrintedAxes (points.map fun p => p - centre) (mmPerTplPx / view.boardScale)

omit [LinearOrder K] in
theorem asMatrix_move (d scale : K) (offset : Point K) :
    asMatrix 1 (-d, -d) * asMatrix scale offset = asMatrix scale (offset - (d, d)) := by
  ext i j
  fin_cases i <;> fin_cases j <;> simp [asMatrix, Matrix.mul_apply, Fin.sum_univ_three] <;> ring

def shifted (view : BoardView K) (d : K) : BoardView K where
  H := view.H
  tplToBoard := asMatrix 1 (-d, -d) * view.tplToBoard
  canvasSize := view.canvasSize
  targets := view.targets.map fun t => t.map fun p => p - (d, d)
  sheets := view.sheets.map fun b => ⟨b.x0 - d, b.y0 - d, b.x1 - d, b.y1 - d⟩
  crops := view.crops
  placed := by
    obtain ⟨scale, offset, hscale, h⟩ := view.placed
    exact ⟨scale, offset - (d, d), hscale, by rw [h, asMatrix_move]⟩

omit [LinearOrder K] in
theorem depth_asMatrix_mul (scale : K) (offset : Point K) (m : Mat K) (p : Point K) :
    depth (asMatrix scale offset * m) p = depth m p := by
  simp [depth, asMatrix, Matrix.mul_apply, Fin.sum_univ_three]

omit [LinearOrder K] in
/-- A scale and an origin scale and move what is not at infinity. -/
theorem apply_asMatrix_mul (scale : K) (offset : Point K) (m : Mat K) (p : Point K) (h : depth m p ≠ 0) :
    apply (asMatrix scale offset * m) p = scale • apply m p + offset := by
  unfold apply
  rw [depth_asMatrix_mul]
  unfold depth at *
  refine Prod.ext ?_ ?_
  · simp only [asMatrix, Matrix.mul_apply, Fin.sum_univ_three, Prod.smul_fst, Prod.fst_add]
    simp
    field_simp
    ring
  · simp only [asMatrix, Matrix.mul_apply, Fin.sum_univ_three, Prod.smul_snd, Prod.snd_add]
    simp
    field_simp
    ring

omit [LinearOrder K] in
theorem apply_asMatrix_mul_horizon (scale : K) (offset : Point K) (m : Mat K) (p : Point K) (h : depth m p = 0) :
    apply (asMatrix scale offset * m) p = 0 := by
  unfold apply
  rw [depth_asMatrix_mul, h, div_zero, div_zero]
  rfl

omit [LinearOrder K] in
theorem apply_asMatrix (scale : K) (offset p : Point K) : apply (asMatrix scale offset) p = scale • p + offset := by
  refine Prod.ext ?_ ?_ <;> simp [apply, depth, asMatrix]

omit [LinearOrder K] in
private theorem det_asMatrix (scale : K) (offset : Point K) : (asMatrix scale offset).det = scale * scale := by
  simp [asMatrix, Matrix.det_fin_three]

theorem inv_asMatrix {scale : K} (hscale : scale ≠ 0) (offset : Point K) :
    inv (asMatrix scale offset) = .ok (asMatrix scale⁻¹ (-scale⁻¹ • offset)) := by
  unfold inv
  rw [det_asMatrix, if_neg (mul_ne_zero hscale hscale)]
  congr 1
  rw [asMatrix, Matrix.adjugate_fin_three, asMatrix]
  ext i j
  fin_cases i <;> fin_cases j <;> simp <;> field_simp

/-- The picture has the point at some place of the Board, not on the horizon. -/
def HasPlace (view : BoardView K) (p : Point K) : Prop := ∀ m, inv view.H = .ok m → depth m p ≠ 0

/-- OpenCV's moments and its point test move with the polygon. -/
structure Covariant (cv : OpenCV K) : Prop where
  m00 : ∀ polygon v, (cv.moments (polygon.map fun p => p - v)).m00 = (cv.moments polygon).m00
  m10 : ∀ polygon v, (cv.moments (polygon.map fun p => p - v)).m10 =
    (cv.moments polygon).m10 - v.1 * (cv.moments polygon).m00
  m01 : ∀ polygon v, (cv.moments (polygon.map fun p => p - v)).m01 =
    (cv.moments polygon).m01 - v.2 * (cv.moments polygon).m00
  inside : ∀ polygon v p, cv.pointPolygonTest (polygon.map fun p => p - v) (p - v) = cv.pointPolygonTest polygon p

variable {view : BoardView K} {d : K} {p q : Point K} {cv : OpenCV K}

omit [LinearOrder K] in
/-- A view and its shifted one have one scale, and origins `d` apart. -/
theorem placed_shifted (view : BoardView K) (d : K) : ∃ scale offset, scale ≠ 0 ∧
    view.tplToBoard = asMatrix scale offset ∧ (shifted view d).tplToBoard = asMatrix scale (offset - (d, d)) := by
  obtain ⟨scale, offset, hscale, h⟩ := view.placed
  refine ⟨scale, offset, hscale, h, ?_⟩
  rw [← asMatrix_move, ← h]
  rfl

private theorem frameToBoard_shifted (h : HasPlace view p) :
    (shifted view d).frameToBoard p = (view.frameToBoard p).map fun q => q - (d, d) := by
  obtain ⟨scale, offset, -, hold, hnew⟩ := placed_shifted view d
  unfold BoardView.frameToBoard
  rw [hold, hnew]
  change (inv view.H).map _ = ((inv view.H).map _).map _
  cases hinv : inv view.H with
  | error e => rfl
  | ok m =>
    have hdepth := h m hinv
    refine congrArg Except.ok ?_
    simp only [apply_asMatrix_mul _ _ _ _ hdepth, add_sub_assoc]

omit [LinearOrder K] in
private theorem templateToBoard_shifted (p : Point K) :
    (shifted view d).templateToBoard p = view.templateToBoard p - (d, d) := by
  obtain ⟨scale, offset, -, hold, hnew⟩ := placed_shifted view d
  unfold BoardView.templateToBoard
  rw [hold, hnew, apply_asMatrix, apply_asMatrix, add_sub_assoc]

theorem boardToTemplate_shifted (q : Point K) :
    (shifted view d).boardToTemplate (q - (d, d)) = view.boardToTemplate q := by
  obtain ⟨scale, offset, hscale, hold, hnew⟩ := placed_shifted view d
  unfold BoardView.boardToTemplate
  rw [hold, hnew, inv_asMatrix hscale, inv_asMatrix hscale]
  refine congrArg Except.ok ?_
  simp only [apply_asMatrix, smul_sub, neg_smul]
  abel

omit [LinearOrder K] in
theorem boardScale_shifted : (shifted view d).boardScale = view.boardScale := by
  obtain ⟨scale, offset, -, hold, hnew⟩ := placed_shifted view d
  have hscale : ∀ o : Point K, asMatrix scale o 0 0 = scale := fun o => by simp [asMatrix]
  rw [BoardView.boardScale, BoardView.boardScale, hold, hnew, hscale, hscale]

omit [LinearOrder K] in
theorem centroid_shifted (hcv : Covariant cv) (polygon : Polygon K) (v : Point K) (h : (cv.moments polygon).m00 ≠ 0) :
    centroid cv (polygon.map fun p => p - v) = centroid cv polygon - v := by
  unfold centroid
  rw [hcv.m00, hcv.m10, hcv.m01]
  refine Prod.ext ?_ ?_
  · exact (sub_div _ _ _).trans (by rw [mul_div_cancel_right₀ _ h]; rfl)
  · exact (sub_div _ _ _).trans (by rw [mul_div_cancel_right₀ _ h]; rfl)

theorem ringCentre_shifted (hcv : Covariant cv) (k : Option ℕ) :
    (shifted view d).ringCentre cv k = (view.ringCentre cv k).map fun q => q - (d, d) := by
  unfold BoardView.ringCentre
  rw [templateToBoard_shifted]
  cases k with
  | none => rfl
  | some k =>
    have htargets : (shifted view d).targets = view.targets.map fun t => t.map fun p => p - (d, d) := rfl
    rw [htargets]
    cases view.targets with
    | nil => rfl
    | cons first rest =>
      have hget : ((first :: rest).map fun t => t.map fun p => p - (d, d))[k]? =
          (first :: rest)[k]?.map fun t => t.map fun p => p - (d, d) := List.getElem?_map
      rw [List.map_cons] at hget
      simp only [List.map_cons, hget]
      cases (first :: rest)[k]? with
      | none => rfl
      | some target =>
        simp only [Option.map_some, hcv.m00]
        split_ifs with hnone
        · rfl
        · obtain ⟨hfirst, htarget⟩ := not_or.mp hnone
          refine congrArg Except.ok ?_
          rw [centroid_shifted hcv _ _ hfirst, centroid_shifted hcv _ _ htarget, sub_sub_sub_cancel_right,
            sub_add_eq_add_sub]

omit [LinearOrder K] in
private theorem assign_shifted (hcv : Covariant cv) (q : Point K) :
    (shifted view d).assign cv (q - (d, d)) = view.assign cv q := by
  unfold BoardView.assign
  change (((view.targets.map fun t => t.map fun p => p - (d, d)).zipIdx.filter _).map _).head? = _
  rw [List.zipIdx_map, List.filter_map, List.map_map]
  refine congrArg List.head? (congrArg₂ List.map rfl (List.filter_congr fun entry _ => ?_))
  exact hcv.inside entry.1 (d, d) q

private theorem has_shifted [IsStrictOrderedRing K] {b : Bound K} :
    Bound.Has ⟨b.x0 - d, b.y0 - d, b.x1 - d, b.y1 - d⟩ (q - (d, d)) ↔ Bound.Has b q := by
  simp only [Bound.Has, Prod.fst_sub, Prod.snd_sub, ge_iff_le, sub_le_sub_iff_right]

private theorem sheetOf_shifted [IsStrictOrderedRing K] (q : Point K) :
    (shifted view d).sheetOf (q - (d, d)) = view.sheetOf q := by
  unfold BoardView.sheetOf
  change ((view.sheets.map fun b => (⟨b.x0 - d, b.y0 - d, b.x1 - d, b.y1 - d⟩ : Bound K)).zipIdx.reverse.foldl _ _) = _
  rw [List.zipIdx_map, ← List.map_reverse, List.foldl_map]
  simp only [Prod.map_fst, Prod.map_snd, id_eq, has_shifted]

private theorem score_shifted (hcv : Covariant cv) (norm : Point K → K) (k : Option ℕ) (points : List (Point K)) :
    score cv norm (points.map fun q => q - (d, d)) (shifted view d) k = score cv norm points view k := by
  unfold score
  rw [ringCentre_shifted hcv, boardScale_shifted]
  cases view.ringCentre cv k with
  | error e => rfl
  | ok centre =>
    refine congrArg Except.ok ?_
    simp only [List.map_map, Function.comp_def, sub_sub_sub_cancel_right]

private theorem toMillimetres_shifted (hcv : Covariant cv) (mm : Option K) (k : Option ℕ) (points : List (Point K)) :
    toMillimetres cv (points.map fun q => q - (d, d)) (shifted view d) mm k = toMillimetres cv points view mm k := by
  cases mm with
  | none => rfl
  | some mm =>
    simp only [toMillimetres, ringCentre_shifted hcv, boardScale_shifted]
    cases view.ringCentre cv k with
    | error e => rfl
    | ok centre =>
      refine congrArg Except.ok ?_
      simp only [List.map_map, Function.comp_def, sub_sub_sub_cancel_right]

/-- Its template position, its Target, its owning sheet, and its score and millimetres on a Target. -/
structure Readings (K : Type) where
  template : Except Raised (Point K)
  target : Option ℕ
  sheet : ℤ
  score : Option ℕ → Except Raised (List ℕ)
  millimetres : Option K → Option ℕ → Except Raised (List (Point K))

def readings (cv : OpenCV K) (norm : Point K → K) (view : BoardView K) (p : Point K) : Except Raised (Readings K) :=
  (view.frameToBoard p).map fun place =>
    { template := view.boardToTemplate place
      target := view.assign cv place
      sheet := view.sheetOf place
      score := score cv norm [place] view
      millimetres := toMillimetres cv [place] view }

/-- A shifted Board space reads the same of every point that has a place. -/
theorem readings_shifted [IsStrictOrderedRing K] (hcv : Covariant cv) (norm : Point K → K) (view : BoardView K) (d : K)
    (h : HasPlace view p) : readings cv norm (shifted view d) p = readings cv norm view p := by
  unfold readings
  rw [frameToBoard_shifted h]
  cases view.frameToBoard p with
  | error e => rfl
  | ok place =>
    refine congrArg Except.ok ?_
    have hscore : score cv norm [place - (d, d)] (shifted view d) = score cv norm [place] view :=
      funext fun k => score_shifted hcv norm k [place]
    have hmm : toMillimetres cv [place - (d, d)] (shifted view d) = toMillimetres cv [place] view :=
      funext fun mm => funext fun k => toMillimetres_shifted hcv mm k [place]
    simp only [boardToTemplate_shifted, assign_shifted hcv, sheetOf_shifted, hscore, hmm]

def edges (polygon : Polygon K) : List (Point K × Point K) := polygon.zip (polygon.rotate 1)

def cross (e : Point K × Point K) : K := e.1.1 * e.2.2 - e.2.1 * e.1.2

def doubleArea (polygon : Polygon K) : K := ((edges polygon).map cross).sum

/-- Green's formula round a contour of either turn; all three are 0 where the area is. -/
def contourMoments (polygon : Polygon K) : Moments K where
  m00 := SignType.sign (doubleArea polygon) * doubleArea polygon / 2
  m10 := SignType.sign (doubleArea polygon) * ((edges polygon).map fun e => (e.1.1 + e.2.1) * cross e).sum / 6
  m01 := SignType.sign (doubleArea polygon) * ((edges polygon).map fun e => (e.1.2 + e.2.2) * cross e).sum / 6

/-- The origin is between the edge's ends. -/
def onEdge (e : Point K × Point K) : Bool := cross e = 0 ∧ e.1.1 * e.2.1 + e.1.2 * e.2.2 ≤ 0

/-- The edge crosses the positive x axis. -/
def crosses (e : Point K × Point K) : Bool :=
  decide (0 < e.1.2) != decide (0 < e.2.2) && decide (0 < e.1.1 - e.1.2 * (e.2.1 - e.1.1) / (e.2.2 - e.1.2))

def evenOdd (polygon : Polygon K) (p : Point K) : Bool :=
  let around := edges (polygon.map fun q => q - p)
  around.any onEdge || around.countP crosses % 2 == 1

def contours : OpenCV K := ⟨contourMoments, evenOdd⟩

omit [LinearOrder K] in
theorem edges_map (polygon : Polygon K) (v : Point K) :
    edges (polygon.map fun p => p - v) = (edges polygon).map fun e => (e.1 - v, e.2 - v) := by
  unfold edges
  rw [← List.map_rotate, List.zip_map]
  rfl

omit [LinearOrder K] in
/-- Round a contour every change is made up for. -/
theorem sum_edges_sub (polygon : Polygon K) (g : Point K → K) :
    ((edges polygon).map fun e => g e.2 - g e.1).sum = 0 := by
  have hlength : polygon.length = (polygon.rotate 1).length := (List.length_rotate ..).symm
  have hfst : ((edges polygon).map fun e => g e.1) = polygon.map g := by
    have h : (edges polygon).map Prod.fst = polygon := List.map_fst_zip hlength.le
    conv_rhs => rw [← h, List.map_map]
    rfl
  have hsnd : ((edges polygon).map fun e => g e.2) = (polygon.rotate 1).map g := by
    have h : (edges polygon).map Prod.snd = polygon.rotate 1 := List.map_snd_zip hlength.ge
    rw [← h, List.map_map]
    rfl
  have hsum : ((edges polygon).map fun e => g e.2 - g e.1).sum + ((edges polygon).map fun e => g e.1).sum =
      ((edges polygon).map fun e => g e.2).sum := by
    rw [← List.sum_map_add]
    simp only [sub_add_cancel]
  rw [hfst, hsnd, ((List.rotate_perm polygon 1).map g).sum_eq] at hsum
  exact add_eq_right.mp hsum

omit [LinearOrder K] in
/-- So a sum round it changes with `c` and `g` alone. -/
theorem sum_edges_eq (polygon : Polygon K) {f f' g : Point K × Point K → K} {c : K} (h : Point K → K)
    (hf : ∀ e, f' e = f e + c * g e + (h e.2 - h e.1)) :
    ((edges polygon).map f').sum = ((edges polygon).map f).sum + c * ((edges polygon).map g).sum := by
  simp only [funext hf, List.sum_map_add, List.sum_map_mul_left, sum_edges_sub, add_zero]

omit [LinearOrder K] in
theorem doubleArea_moved (polygon : Polygon K) (v : Point K) :
    doubleArea (polygon.map fun p => p - v) = doubleArea polygon := by
  unfold doubleArea
  rw [edges_map, List.map_map]
  refine (sum_edges_eq polygon (c := 0) (g := cross) (fun p => v.2 * p.1 - v.1 * p.2) fun e => ?_).trans (by ring)
  simp only [Function.comp_apply, cross, Prod.fst_sub, Prod.snd_sub]
  ring

omit [LinearOrder K] in
/-- A first moment's sum changes with how far the polygon moves along its direction. -/
theorem sum_moment_moved (a b : K) (polygon : Polygon K) (v : Point K) :
    ((edges (polygon.map fun p => p - v)).map fun e => (a * (e.1.1 + e.2.1) + b * (e.1.2 + e.2.2)) * cross e).sum =
      ((edges polygon).map fun e => (a * (e.1.1 + e.2.1) + b * (e.1.2 + e.2.2)) * cross e).sum +
        -3 * (a * v.1 + b * v.2) * doubleArea polygon := by
  rw [edges_map, List.map_map]
  refine sum_edges_eq polygon
    (fun p => (a * (p.1 - 2 * v.1) + b * (p.2 - 2 * v.2)) * (v.2 * p.1 - v.1 * p.2)) fun e => ?_
  simp only [Function.comp_apply, cross, Prod.fst_sub, Prod.snd_sub]
  ring

theorem contourMoments_covariant [IsStrictOrderedRing K] : Covariant (contours : OpenCV K) where
  m00 polygon v := by
    change _ * _ / 2 = _ * _ / 2
    rw [doubleArea_moved]
  m10 polygon v := by
    have hsum := sum_moment_moved 1 0 polygon v
    simp only [one_mul, zero_mul, add_zero] at hsum
    change _ * _ / 6 = _ * _ / 6 - v.1 * (_ * _ / 2)
    rw [doubleArea_moved, hsum]
    ring
  m01 polygon v := by
    have hsum := sum_moment_moved 0 1 polygon v
    simp only [one_mul, zero_mul, zero_add] at hsum
    change _ * _ / 6 = _ * _ / 6 - v.2 * (_ * _ / 2)
    rw [doubleArea_moved, hsum]
    ring
  inside polygon v p := by
    have hmove : ((polygon.map fun q => q - v).map fun q => q - (p - v)) = polygon.map fun q => q - p := by
      simp only [List.map_map, Function.comp_def, sub_sub_sub_cancel_right]
    change evenOdd _ _ = evenOdd _ _
    unfold evenOdd
    rw [hmove]

section
noncomputable section

def euclidean (v : Point ℝ) : ℝ := Real.sqrt (v.1 ^ 2 + v.2 ^ 2)

/-- Two Targets seen square on, Board space at half the template's scale. -/
def squareOn : BoardView ℝ where
  H := 1
  tplToBoard := asMatrix (1 / 2) (0, 0)
  canvasSize := (704, 704)
  targets := [[(300, 200), (400, 200), (400, 400), (300, 400)], [(450, 200), (550, 200), (550, 400), (450, 400)]]
  sheets := [⟨250, 150, 450, 450⟩, ⟨400, 150, 600, 450⟩]
  crops := [⟨208, 108, 288, 384⟩, ⟨358, 108, 288, 384⟩]
  placed := ⟨1 / 2, (0, 0), by norm_num, rfl⟩

/-- Its horizon is at 1000 px of the picture. -/
def oblique : BoardView ℝ where
  H := !![1, 0, 0; 0, 1, 0; 1 / 1000, 0, 1]
  tplToBoard := asMatrix 1 (0, 0)
  canvasSize := (704, 704)
  targets := []
  sheets := []
  crops := []
  placed := ⟨1, (0, 0), one_ne_zero, rfl⟩

private theorem hasPlace_squareOn (p : Point ℝ) : HasPlace squareOn p := by
  intro m hm
  have hone : inv squareOn.H = .ok 1 := by simp [inv, squareOn]
  obtain rfl : 1 = m := Except.ok.inj (hone.symm.trans hm)
  simp [depth]

theorem readings_shifted_squareOn :
    readings contours euclidean (shifted squareOn 8) (840, 600) = readings contours euclidean squareOn (840, 600) :=
  readings_shifted contourMoments_covariant euclidean squareOn 8 (hasPlace_squareOn (840, 600))

private theorem inv_oblique : inv oblique.H = .ok !![1, 0, 0; 0, 1, 0; -(1 / 1000), 0, 1] := by
  have hdet : oblique.H.det = 1 := by simp [oblique, Matrix.det_fin_three]
  unfold inv
  rw [hdet, if_neg one_ne_zero, inv_one, one_smul, oblique, Matrix.adjugate_fin_three]
  congr 1
  ext i j
  fin_cases i <;> fin_cases j <;> simp

/-- A point of the horizon is taken to one place of every Board space. -/
theorem frameToBoard_oblique (view : BoardView ℝ) (hH : view.H = oblique.H) :
    view.frameToBoard (1000, 500) = .ok 0 := by
  obtain ⟨scale, offset, -, hplaced⟩ := view.placed
  unfold BoardView.frameToBoard
  rw [hH, inv_oblique, hplaced]
  have hdepth : depth (!![1, 0, 0; 0, 1, 0; -(1 / 1000), 0, 1] : Mat ℝ) (1000, 500) = 0 := by simp [depth]
  exact congrArg Except.ok (apply_asMatrix_mul_horizon scale offset _ _ hdepth)

theorem not_readings_shifted : ¬ ∀ (cv : OpenCV ℝ) (norm : Point ℝ → ℝ) (view : BoardView ℝ) (d : ℝ) (p : Point ℝ),
    Covariant cv → readings cv norm (shifted view d) p = readings cv norm view p := by
  intro hclaim
  have h := hclaim contours euclidean oblique 8 (1000, 500) contourMoments_covariant
  unfold readings at h
  rw [frameToBoard_oblique oblique rfl, frameToBoard_oblique (shifted oblique 8) rfl] at h
  have htemplate : (shifted oblique 8).boardToTemplate 0 = oblique.boardToTemplate 0 :=
    congrArg Readings.template (Except.ok.inj h)
  have hmoved : (0 : Point ℝ) = (8, 8) - (8, 8) := by simp
  rw [hmoved, boardToTemplate_shifted] at htemplate
  have hinv := inv_asMatrix (one_ne_zero (α := ℝ)) (0, 0)
  unfold BoardView.boardToTemplate at htemplate
  change (inv (asMatrix 1 (0, 0))).map _ = (inv (asMatrix 1 (0, 0))).map _ at htemplate
  rw [hinv] at htemplate
  have hplace := Except.ok.inj htemplate
  simp [apply_asMatrix] at hplace

end
end

end Kanat.BoardSpace
