import Kanat.BoardSpace

/-! # Detections of the sheet canvases (detection/new_bullet_holes.py: RegisteredFrames._detect_sheets)

Positions are exact, as in Board space. -/
namespace Kanat.SheetDetections
open BoardSpace SheetCrops

variable {K : Type} [Field K] [LinearOrder K] {Canvas : Type}

structure Detection (K : Type) where
  cx : K
  cy : K
  w : K
  h : K
deriving DecidableEq

def Detection.place (f : Detection K) : Point K := (f.cx, f.cy)

def Detection.moved (f : Detection K) (x y : K) : Detection K := ⟨f.cx + x, f.cy + y, f.w, f.h⟩

/-- One call for every canvas; each keeps what its own sheet holds. -/
def detectSheets (callDetector : List Canvas → List (List (Detection K))) (view : BoardView K)
    (canvases : List Canvas) :
    List (Detection K) :=
  ((callDetector canvases).zip view.crops).zipIdx.flatMap fun e =>
    (e.1.1.map fun f => f.moved e.1.2.x e.1.2.y).filter fun f => view.sheetOf f.place = e.2

private theorem foldl_reverse_find? {α β : Type} (l : List α) (p : α → Prop) [DecidablePred p] (g : α → β) (init : β) :
    l.reverse.foldl (fun found e => if p e then g e else found) init = ((l.find? p).map g).getD init := by
  induction l with
  | nil => rfl
  | cons a l ih =>
    rw [List.reverse_cons, List.foldl_append, ih]
    by_cases ha : p a <;> simp [ha]

omit [Field K] in
/-- The bounds' edges are theirs, and the first has what several hold. -/
def owner (sheets : List (Bound K)) (p : Point K) : Option ℕ := sheets.findIdx? fun b => Bound.Has b p

private theorem sheetOf_eq (view : BoardView K) (p : Point K) :
    view.sheetOf p = ((owner view.sheets p).map fun k : ℕ => (k : ℤ)).getD (-1) := by
  unfold BoardView.sheetOf owner
  rw [foldl_reverse_find? _ (fun entry : Bound K × ℕ => Bound.Has entry.1 p) (fun entry => (entry.2 : ℤ)),
    List.findIdx?_eq_fst_find?_zipIdx, Option.map_map]
  rfl

theorem sheetOf_eq_natCast {view : BoardView K} {p : Point K} {k : ℕ} :
    view.sheetOf p = k ↔ owner view.sheets p = some k := by
  rw [sheetOf_eq]
  cases owner view.sheets p with
  | none => simp
  | some j => simp

omit [Field K] in
theorem has_of_owner {sheets : List (Bound K)} {p : Point K} {k : ℕ} (h : owner sheets p = some k) :
    ∃ b, sheets[k]? = some b ∧ Bound.Has b p := by
  obtain ⟨hk, hhas, -⟩ := List.findIdx?_eq_some_iff_getElem.mp h
  exact ⟨sheets[k], List.getElem?_eq_getElem hk, by simpa using hhas⟩

omit [Field K] in
private theorem owner_isSome {sheets : List (Bound K)} {p : Point K} :
    (∃ k < sheets.length, owner sheets p = some k) ↔ ∃ b ∈ sheets, Bound.Has b p := by
  constructor
  · rintro ⟨k, -, hk⟩
    obtain ⟨b, hb, hhas⟩ := has_of_owner hk
    exact ⟨b, List.mem_of_getElem? hb, hhas⟩
  · rintro ⟨b, hb, hhas⟩
    have hsome : (owner sheets p).isSome := by
      rw [owner, List.findIdx?_isSome]
      exact List.any_eq_true.mpr ⟨b, hb, decide_eq_true hhas⟩
    obtain ⟨k, hk⟩ := Option.isSome_iff_exists.mp hsome
    exact ⟨k, (List.findIdx?_eq_some_iff_getElem.mp hk).1, hk⟩

/-- What each of `n` owners keeps is, together, what any of them keeps. -/
theorem flatMap_owner_perm {α : Type} (c : α → Option ℕ) (l : List α) (n : ℕ) :
    ((List.range n).flatMap fun k => l.filter fun m => c m = some k).Perm
      (l.filter fun m => ∃ k < n, c m = some k) := by
  induction n with
  | zero => simp
  | succ n ih =>
    have hless : (l.filter fun m => ∃ k < n + 1, c m = some k).filter (fun m => decide (∃ k < n, c m = some k)) =
        l.filter fun m => ∃ k < n, c m = some k := by
      rw [List.filter_filter]
      refine List.filter_congr fun m _ => ?_
      simp only [← Bool.decide_and]
      refine decide_eq_decide.mpr ⟨And.left, ?_⟩
      rintro ⟨k, hk, hm⟩
      exact ⟨⟨k, hk, hm⟩, k, by omega, hm⟩
    have hlast : (l.filter fun m => ∃ k < n + 1, c m = some k).filter (fun m => !decide (∃ k < n, c m = some k)) =
        l.filter fun m => c m = some n := by
      rw [List.filter_filter]
      refine List.filter_congr fun m _ => ?_
      rw [Bool.eq_iff_iff]
      simp only [Bool.and_eq_true, Bool.not_eq_true', decide_eq_true_eq, decide_eq_false_iff_not]
      constructor
      · rintro ⟨hnot, k, hk, hm⟩
        obtain rfl : k = n := by
          by_contra hne
          exact hnot ⟨k, by omega, hm⟩
        exact hm
      · intro hm
        refine ⟨?_, n, by omega, hm⟩
        rintro ⟨k, hk, hk'⟩
        exact absurd (Option.some.inj (hk'.symm.trans hm)) hk.ne
    rw [List.range_succ, List.flatMap_append, List.flatMap_singleton, ← hlast]
    refine (ih.append_right _).trans ?_
    rw [← hless]
    exact List.filter_append_perm _ _

/-- The canvas shows the place. -/
def Crop.Shows (crop : Crop) (p : Point K) : Prop :=
  (crop.x : K) ≤ p.1 ∧ p.1 < (crop.x : K) + crop.w ∧ (crop.y : K) ≤ p.2 ∧ p.2 < (crop.y : K) + crop.h

instance (crop : Crop) (p : Point K) : Decidable (Crop.Shows crop p) := inferInstanceAs (Decidable (_ ∧ _))

/-- The marks the canvas shows, each at its place there, in any order, and nothing else. -/
def Reports (marks : List (Detection K)) (crop : Crop) (found : List (Detection K)) : Prop :=
  found.Perm ((marks.filter fun m => Crop.Shows crop m.place).map fun m => m.moved (-crop.x) (-crop.y))

/-- The canvas shows all of the bound. -/
def Crop.ShowsBound (b : Bound K) (crop : Crop) : Prop :=
  (crop.x : K) ≤ b.x0 ∧ b.x1 < (crop.x : K) + crop.w ∧ (crop.y : K) ≤ b.y0 ∧ b.y1 < (crop.y : K) + crop.h

theorem shows_of_has {b : Bound K} {crop : Crop} {p : Point K} (h : Crop.ShowsBound b crop) (hp : Bound.Has b p) :
    Crop.Shows crop p :=
  ⟨h.1.trans hp.1, hp.2.1.trans_lt h.2.1, h.2.2.1.trans hp.2.2.1, hp.2.2.2.trans_lt h.2.2.2⟩

private theorem reports_moved {marks found : List (Detection K)} {crop : Crop} (h : Reports marks crop found) :
    (found.map fun f => f.moved crop.x crop.y).Perm (marks.filter fun m => Crop.Shows crop m.place) := by
  refine (h.map _).trans (List.Perm.of_eq ?_)
  rw [List.map_map]
  refine List.map_id'' (fun m => ?_) _
  simp only [Function.comp_apply, Detection.moved, neg_add_cancel_right]

/-- Each canvas keeps what it shows of what its sheet owns. -/
theorem kept_perm {view : BoardView K} {marks : List (Detection K)} {crops : List Crop}
    {found : List (List (Detection K))}
    (h : List.Forall₂ (fun found crop => Reports marks crop found) found crops) (n : ℕ) :
    (((found.zip crops).zipIdx n).flatMap fun e =>
        (e.1.1.map fun f => f.moved e.1.2.x e.1.2.y).filter fun f => view.sheetOf f.place = e.2).Perm
      ((crops.zipIdx n).flatMap fun e => (marks.filter fun m => Crop.Shows e.1 m.place).filter fun m =>
        owner view.sheets m.place = some e.2) := by
  induction h generalizing n with
  | nil => simp
  | cons hreports _ ih =>
    simp only [List.zip_cons_cons, List.zipIdx_cons, List.flatMap_cons, sheetOf_eq_natCast]
    refine List.Perm.append ((reports_moved hreports).filter _) ?_
    simpa only [sheetOf_eq_natCast] using ih (n + 1)

/-- A sheet's canvas shows all that is in its bound. -/
def Shown (view : BoardView K) : Prop := List.Forall₂ Crop.ShowsBound view.sheets view.crops

private theorem shows_of_owner {view : BoardView K} (hview : Shown view) {crop : Crop} {k : ℕ}
    (hcrop : view.crops[k]? = some crop) {p : Point K} (hp : owner view.sheets p = some k) : Crop.Shows crop p := by
  obtain ⟨b, hb, hhas⟩ := has_of_owner hp
  refine shows_of_has ((List.forall₂_iff_zip.mp hview).2 ?_) hhas
  refine List.mem_of_getElem? (i := k) ?_
  rw [List.getElem?_zip_eq_some]
  exact ⟨hb, hcrop⟩

private theorem detectSheets_perm {callDetector : List Canvas → List (List (Detection K))} {view : BoardView K}
    {canvases : List Canvas} {marks : List (Detection K)} (hview : Shown view)
    (hdetector : List.Forall₂ (fun found crop => Reports marks crop found) (callDetector canvases) view.crops) :
    (detectSheets callDetector view canvases).Perm (marks.filter fun m => ∃ b ∈ view.sheets, Bound.Has b m.place) := by
  refine (kept_perm hdetector 0).trans ?_
  have hkept : (view.crops.zipIdx.flatMap fun e => (marks.filter fun m => Crop.Shows e.1 m.place).filter fun m =>
      owner view.sheets m.place = some e.2) =
      (List.range view.sheets.length).flatMap fun k => marks.filter fun m => owner view.sheets m.place = some k := by
    have hrange : List.range view.sheets.length = view.crops.zipIdx.map Prod.snd := by
      rw [List.zipIdx_map_snd, hview.length_eq, List.range_eq_range']
    rw [hrange, List.flatMap_map]
    refine List.flatMap_congr fun e he => ?_
    rw [List.filter_filter]
    refine List.filter_congr fun m _ => ?_
    by_cases hm : owner view.sheets m.place = some e.2
    · have hshows := shows_of_owner hview (List.mem_zipIdx_iff_getElem?.mp he) hm
      simp [hm, hshows]
    · simp [hm]
  rw [hkept]
  refine (flatMap_owner_perm (fun m : Detection K => owner view.sheets m.place) marks view.sheets.length).trans ?_
  refine List.Perm.of_eq (List.filter_congr fun m _ => decide_eq_decide.mpr owner_isSome)

section
variable [IsStrictOrderedRing K] [FloorRing K]

/-- What `build_view` makes of its fit: the homography, Board space's scale and its canvas's corner `lo`, and the
Targets there, the reference first. -/
def builtView (cv : OpenCV K) (boundTpl : Bound K) (H : Mat K) (boardScale : K) (hscale : boardScale ≠ 0) (lo : Point K)
    (canvasSize : ℤ × ℤ) (reference : Polygon K) (others : List (Polygon K)) : BoardView K :=
  let tplToBoard := asMatrix boardScale (-lo)
  let sheets := sheetBounds (centroid cv) (apply tplToBoard) boundTpl reference others
  { H := H
    tplToBoard := tplToBoard
    canvasSize := canvasSize
    targets := reference :: others
    sheets := sheets
    crops := sheetCrops none sheets
    placed := ⟨boardScale, -lo, hscale, rfl⟩ }

/-- `track_view` changes only the homography. -/
def trackedView (reference : BoardView K) (H : Mat K) : BoardView K := { reference with H := H }

/-- The views of a run, with how far Board space has been shifted under its canvases. -/
inductive Reached : BoardView K → K → Prop where
  | built (cv boundTpl H boardScale hscale lo canvasSize reference others) :
      Reached (builtView cv boundTpl H boardScale hscale lo canvasSize reference others) 0
  | tracked {view d} (H) : Reached view d → Reached (trackedView view H) d
  | shifted {view d} (d') : Reached view d → Reached (shifted view d') (d + d')

omit [IsStrictOrderedRing K] in
private theorem crops_of_reached {view : BoardView K} {d : K} (h : Reached view d) : ∃ sheets : List (Bound K),
    view.sheets = (sheets.map fun b => b.moved (-d) (-d)) ∧ view.crops = sheets.map (cropOf sheetContextPx) := by
  induction h with
  | built cv boundTpl H boardScale hscale lo canvasSize reference others =>
    refine ⟨_, ?_, sheetCrops_eq (oneSize_sheetBounds (centroid cv) (apply (asMatrix boardScale (-lo))) boundTpl _ _)⟩
    refine (List.map_id'' (fun b => ?_) _).symm
    simp only [Bound.moved, neg_zero, add_zero]
  | tracked H _ ih => exact ih
  | @shifted view d d' _ ih =>
    obtain ⟨sheets, hsheets, hcrops⟩ := ih
    refine ⟨sheets, ?_, hcrops⟩
    change view.sheets.map _ = _
    rw [hsheets, List.map_map]
    refine List.map_congr_left fun b _ => ?_
    simp only [Function.comp_apply, Bound.moved, neg_add, sub_eq_add_neg, add_assoc]

/-- A canvas's context takes a shift up to its own width, and one the other way of a px less. -/
theorem showsBound_cropOf (b : Bound K) {d : K} (hlow : -31 ≤ d) (hhigh : d ≤ 32) :
    Crop.ShowsBound (b.moved (-d) (-d)) (cropOf sheetContextPx b) := by
  have hnear := fun p need : K => near_side p sheetContextPx need
  have hfar := fun p extent : K => far_side_lt p extent sheetContextPx
  simp only [sheetContextPx] at hnear hfar
  simp only [Crop.ShowsBound, Bound.moved, cropOf, sheetContextPx]
  refine ⟨?_, ?_, ?_, ?_⟩
  · linarith [hnear b.x0 (b.x1 - b.x0 + 2 * 32)]
  · linarith [hfar b.x0 (b.x1 - b.x0)]
  · linarith [hnear b.y0 (b.y1 - b.y0 + 2 * 32)]
  · linarith [hfar b.y0 (b.y1 - b.y0)]

private theorem shown_of_reached {view : BoardView K} {d : K} (h : Reached view d) (hlow : -31 ≤ d) (hhigh : d ≤ 32) :
    Shown view := by
  obtain ⟨sheets, hsheets, hcrops⟩ := crops_of_reached h
  rw [Shown, hsheets, hcrops, List.forall₂_map_left_iff, List.forall₂_map_right_iff]
  exact List.forall₂_same.mpr fun b _ => showsBound_cropOf b hlow hhigh

/-- Where every canvas shows its sheet's bound, as in every view shifted no further than its context, a mark in some
bound is found once, and one beyond them all is not. -/
theorem detectSheets_once : (∀ (view : BoardView K) (d : K), Reached view d → -31 ≤ d → d ≤ 32 → Shown view) ∧
    ∀ (callDetector : List Canvas → List (List (Detection K))) (view : BoardView K) (canvases : List Canvas)
      (marks : List (Detection K)), Shown view →
      List.Forall₂ (fun found crop => Reports marks crop found) (callDetector canvases) view.crops →
      (detectSheets callDetector view canvases).Perm (marks.filter fun m => ∃ b ∈ view.sheets, Bound.Has b m.place) :=
  ⟨fun _ _ => shown_of_reached, fun _ _ _ _ hview hdetector => detectSheets_perm hview hdetector⟩

/-- What a detector that misses nothing gives of canvases that are the Board's own. -/
def perfectDetector (marks : List (Detection ℚ)) (canvases : List Crop) : List (List (Detection ℚ)) :=
  canvases.map fun crop => (marks.filter fun m => Crop.Shows crop m.place).map fun m => m.moved (-crop.x) (-crop.y)

theorem reports_perfectDetector (marks : List (Detection ℚ)) (canvases : List Crop) :
    List.Forall₂ (fun found crop => Reports marks crop found) (perfectDetector marks canvases) canvases := by
  rw [perfectDetector, List.forall₂_map_left_iff]
  exact List.forall₂_same.mpr fun crop _ => List.Perm.refl _

/-- Two Targets 60 px apart on sheets 100 px wide. -/
def twoSheets : BoardView ℚ :=
  builtView contours ⟨0, 0, 200, 200⟩ 1 (1 / 2) (by norm_num) (-10, -10) (400, 300)
    [(50, 50), (70, 50), (70, 80), (50, 80)] [[(110, 50), (130, 50), (130, 80), (110, 80)]]

/-- One in both bounds, one on the edge that is the first's last, and one beyond them. -/
def threeMarks : List (Detection ℚ) := [⟨80, 40, 6, 6⟩, ⟨102, 40, 6, 6⟩, ⟨20, 160, 6, 6⟩]

theorem detectSheets_once_twoSheets :
    (detectSheets (perfectDetector threeMarks) (shifted twoSheets 8) twoSheets.crops).Perm
      [⟨80, 40, 6, 6⟩, ⟨102, 40, 6, 6⟩] := by
  have hreached : Reached (shifted twoSheets 8) (0 + 8) := .shifted 8 (.built _ _ _ _ _ _ _ _ _)
  obtain ⟨hall, honce⟩ := @detectSheets_once ℚ _ _ Crop _ _
  have hshown : Shown (shifted twoSheets 8) := hall _ _ hreached (by norm_num) (by norm_num)
  have hperm := honce (perfectDetector threeMarks) (shifted twoSheets 8) twoSheets.crops threeMarks hshown
    (reports_perfectDetector _ _)
  have hmarks : (threeMarks.filter fun m => ∃ b ∈ (shifted twoSheets 8).sheets, Bound.Has b m.place) =
      [⟨80, 40, 6, 6⟩, ⟨102, 40, 6, 6⟩] := by decide +kernel
  rwa [hmarks] at hperm

theorem not_detectSheets_once : ¬ ∀ (callDetector : List Crop → List (List (Detection ℚ))) (view : BoardView ℚ) (d : ℚ)
    (canvases : List Crop) (marks : List (Detection ℚ)), Reached view d →
    List.Forall₂ (fun found crop => Reports marks crop found) (callDetector canvases) view.crops →
    (detectSheets callDetector view canvases).Perm (marks.filter fun m => ∃ b ∈ view.sheets, Bound.Has b m.place) := by
  intro hclaim
  have hperm := hclaim (perfectDetector [⟨-50, -40, 6, 6⟩]) (shifted twoSheets 64) (0 + 64) twoSheets.crops
      [⟨-50, -40, 6, 6⟩]
    (.shifted 64 (.built _ _ _ _ _ _ _ _ _)) (reports_perfectDetector _ _)
  revert hperm
  decide +kernel

end

end Kanat.SheetDetections
