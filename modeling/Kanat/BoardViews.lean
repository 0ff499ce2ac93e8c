import Kanat.Numerals
import Mathlib.Algebra.Order.Ring.Rat

/-! # A frame's view of the Board

`track_view`, `reanchor_view` and `silhouette_disagreement`, over what they call of OpenCV and NumPy: a call is
`none` where it raises `cv2.error`. -/
namespace Kanat.BoardViews

def reanchorMinCorrelation : ℚ := 9 / 10

/-- A correlation or a length as a float. -/
inductive Reading where
  | nan
  | finite (q : ℚ)
  | infinite
  deriving DecidableEq

namespace Reading

/-- `a >= b`, false where either is not a number. -/
def ge : Reading → Reading → Bool
  | .finite a, .finite b => decide (b ≤ a)
  | .infinite, .finite _ | .infinite, .infinite => true
  | _, _ => false

/-- `a > b`. -/
def gt : Reading → Reading → Bool
  | .finite a, .finite b => decide (b < a)
  | .infinite, .finite _ => true
  | _, _ => false

/-- `max(a, b)`: the first unless the second is greater. -/
def max (a b : Reading) : Reading := if b.gt a then b else a

private theorem ge_of_ge_max {a b : Reading} {floor : ℚ} (h : a.ge (Reading.max (.finite floor) b) = true) :
    a.ge (.finite floor) = true := by
  rw [Reading.max] at h
  split at h
  · cases a with
    | nan => cases b <;> simp [ge] at h
    | infinite => rfl
    | finite a =>
      cases b with
      | nan => simp [ge] at h
      | infinite => simp [ge] at h
      | finite b =>
        have hfloor : floor < b := by simpa [gt] using ‹(Reading.finite b).gt (.finite floor) = true›
        have hle : b ≤ a := by simpa [ge] using h
        simpa [ge] using hfloor.le.trans hle
  · exact h

end Reading

/-- What is called of OpenCV and NumPy, and on what. -/
structure Vision where
  Frame : Type
  Image : Type
  Contour : Type
  Matrix : Type
  mul : Matrix → Matrix → Matrix
  inv : Matrix → Matrix
  gray : Frame → Image
  findTargets : Frame → List Contour × Image
  register : Image → Image → Contour → Option Matrix
  boardShift : Image → Image → Matrix → Image → Option Matrix
  eccWarp : Image → Image → Matrix → Image → Option (Matrix × Reading)
  /-- The centre of the first of the Targets, placed by both fits: how far apart in Board px. -/
  centreOffset : List Contour → (tplToBoard H ownH : Matrix) → Reading

variable {v : Vision}

/-- The baseline frame every later frame is registered to. -/
structure Anchor (v : Vision) where
  gray : v.Image
  region : v.Image
  H : v.Matrix

structure BoardView (v : Vision) where
  H : v.Matrix
  tplToBoard : v.Matrix
  canvasSize : ℕ × ℕ
  targets : List v.Contour
  anchor : Anchor v
  sheets : List (ℚ × ℚ × ℚ × ℚ)
  crops : List (ℤ × ℤ × ℤ × ℤ)

/-- A view and its ECC correlation. -/
abbrev Fit (v : Vision) := BoardView v × Reading

/-- The warp a fit starts from: the last view's, moved by the Board's shift from the frame it was registered on. -/
def startWarp (frame : v.Frame) (reference : BoardView v) (seed : Option v.Matrix) (previous : Option v.Frame) :
    Option v.Matrix :=
  let a := reference.anchor
  let W := v.mul (seed.getD reference.H) (v.inv a.H)
  match seed, previous with
  | none, some previous => (v.boardShift (v.gray previous) (v.gray frame) W a.region).map (v.mul · W)
  | _, _ => some W

def trackView (frame : v.Frame) (reference : BoardView v) (seed : Option v.Matrix) (previous : Option v.Frame) :
    Option (Fit v) :=
  let a := reference.anchor
  (startWarp frame reference seed previous).bind fun W =>
    (v.eccWarp a.gray (v.gray frame) W a.region).map fun (W, correlation) =>
      (⟨v.mul W a.H, reference.tplToBoard, reference.canvasSize, reference.targets, a, reference.sheets,
        reference.crops⟩, correlation)

/-- `fit[1] >= max(REANCHOR_MIN_CORRELATION, best[1] or 0)`. -/
def clears (best : Option (Fit v)) (correlation : Reading) : Bool :=
  correlation.ge (Reading.max (.finite reanchorMinCorrelation) (best.elim (.finite 0) (·.2)))

/-- The best fit so far or, where it clears the floor and that, the fit a Target in view seeds. -/
def better (frame : v.Frame) (templateMask frameMask : v.Image) (reference : BoardView v) (best : Option (Fit v))
    (contour : v.Contour) : Option (Fit v) :=
  match (v.register templateMask frameMask contour).bind fun seed => trackView frame reference (some seed) none with
  | some fit => if clears best fit.2 then some fit else best
  | none => best

def reanchorView (frame : v.Frame) (templateMask : v.Image) (reference : BoardView v) : Option (Fit v) :=
  let (contours, frameMask) := v.findTargets frame
  contours.foldl (better frame templateMask frameMask reference) none

def silhouetteDisagreement (frame : v.Frame) (templateMask : v.Image) (view : BoardView v) : Option Reading :=
  match v.findTargets frame with
  | ([], _) => some .infinite
  | (contour :: _, frameMask) =>
    (v.register templateMask frameMask contour).map (v.centreOffset view.targets view.tplToBoard view.H)

/-- Only the homography of two views of one Board space differs. -/
structure SameSpace (space view : BoardView v) : Prop where
  tplToBoard : view.tplToBoard = space.tplToBoard
  canvasSize : view.canvasSize = space.canvasSize
  targets : view.targets = space.targets
  anchor : view.anchor = space.anchor
  sheets : view.sheets = space.sheets
  crops : view.crops = space.crops

theorem SameSpace.refl (space : BoardView v) : SameSpace space space := ⟨rfl, rfl, rfl, rfl, rfl, rfl⟩

theorem SameSpace.trans {a b c : BoardView v} (hab : SameSpace a b) (hbc : SameSpace b c) : SameSpace a c :=
  ⟨hbc.tplToBoard.trans hab.tplToBoard, hbc.canvasSize.trans hab.canvasSize, hbc.targets.trans hab.targets,
    hbc.anchor.trans hab.anchor, hbc.sheets.trans hab.sheets, hbc.crops.trans hab.crops⟩

theorem trackView_sameSpace {frame : v.Frame} {reference : BoardView v} {seed : Option v.Matrix}
    {previous : Option v.Frame} {fit : Fit v} (h : trackView frame reference seed previous = some fit) :
    SameSpace reference fit.1 := by
  obtain ⟨W, -, hwarped⟩ := Option.bind_eq_some_iff.mp h
  obtain ⟨warped, -, rfl⟩ := Option.map_eq_some_iff.mp hwarped
  exact ⟨rfl, rfl, rfl, rfl, rfl, rfl⟩

private theorem better_cases {frame : v.Frame} {templateMask frameMask : v.Image} {reference : BoardView v}
    {best : Option (Fit v)} {contour : v.Contour} {fit : Fit v}
    (h : better frame templateMask frameMask reference best contour = some fit) :
    best = some fit ∨ SameSpace reference fit.1 ∧ fit.2.ge (.finite reanchorMinCorrelation) = true := by
  rw [better] at h
  split at h
  case h_2 => exact Or.inl h
  case h_1 fitted hfitted =>
    split_ifs at h with hclears
    · obtain ⟨seed, -, htracked⟩ := Option.bind_eq_some_iff.mp hfitted
      cases h
      exact Or.inr ⟨trackView_sameSpace htracked, Reading.ge_of_ge_max hclears⟩
    · exact Or.inl h

/-- A re-anchored view is in its reference's Board space, and converged at or above the floor. -/
theorem reanchorView_found {frame : v.Frame} {templateMask : v.Image} {reference : BoardView v} {fit : Fit v}
    (h : reanchorView frame templateMask reference = some fit) :
    SameSpace reference fit.1 ∧ fit.2.ge (.finite reanchorMinCorrelation) = true := by
  have hbetter (contours : List v.Contour) (best : Option (Fit v))
      (hbest : ∀ fit, best = some fit →
        SameSpace reference fit.1 ∧ fit.2.ge (.finite reanchorMinCorrelation) = true) :
      contours.foldl (better frame templateMask (v.findTargets frame).2 reference) best = some fit →
        SameSpace reference fit.1 ∧ fit.2.ge (.finite reanchorMinCorrelation) = true := by
    induction contours generalizing best with
    | nil => exact hbest fit
    | cons contour contours ih =>
      refine ih _ fun found hfound => ?_
      rcases better_cases hfound with hsame | hnew
      · exact hbest found hsame
      · exact hnew
  exact hbetter _ none (fun found hfound => by cases hfound) h

end Kanat.BoardViews
