import Kanat.Persistence

/-! # The marks on the Board at the baseline

`baseline_marks` and `strip_pre_existing`. Distances are exact: a residual is given by its square. -/
namespace Kanat.BaselineMarks
open ExactDistance
open Persistence (Detection)

variable {box : ℕ}

def addMark (matchPx : ℚ) (marks : List (Detection box)) (p : Detection box) : List (Detection box) :=
  if marks.any fun m => Shorter (m 0 - p 0) (m 1 - p 1) matchPx then marks else marks ++ [p]

/-- Each frame's Detections in turn, the first sighting of each mark kept. -/
def baselineMarks (frames : List (List (Detection box))) (matchPx : ℚ) : List (Detection box) :=
  frames.foldl (fun marks pts => pts.foldl (addMark matchPx) marks) []

def squaredDistance (m p : Detection box) : ℚ := (m 0 - p 0) ^ 2 + (m 1 - p 1) ^ 2

/-- `np.min` over the marks, of which there is one. -/
def nearest (m : Detection box) (marks : List (Detection box)) (p : Detection box) : ℚ :=
  marks.foldl (fun least m => min least (squaredDistance m p)) (squaredDistance m p)

/-- A distance below the radius, from its square. -/
def Within (square matchPx : ℚ) : Prop := 0 < matchPx ∧ square < matchPx ^ 2

instance (square matchPx : ℚ) : Decidable (Within square matchPx) := inferInstanceAs (Decidable (_ ∧ _))

/-- `(survivors, residuals)` -/
def stripPreExisting (pts baseline : List (Detection box)) (matchPx : ℚ) : List (Detection box) × List ℚ :=
  match baseline with
  | [] => (pts, [])
  | m :: marks =>
    let distance := pts.map (nearest m marks)
    ((pts.zip distance).filterMap fun x => if Within x.2 matchPx then none else some x.1,
      distance.filter fun square => Within square matchPx)

noncomputable def distance (m p : Detection box) : ℝ := length (m 0 - p 0) (m 1 - p 1)

variable {matchPx : ℚ} {m p : Detection box} {marks pts : List (Detection box)}

theorem shorter_iff_distance : Shorter (m 0 - p 0) (m 1 - p 1) matchPx ↔ distance m p < matchPx := shorter_iff _ _ _

private theorem distance_self (p : Detection box) : distance p p = 0 := by simp [distance, length]

theorem distance_eq (m p : Detection box) : distance m p = √(squaredDistance m p : ℝ) := length_eq _ _

theorem within_iff : Within (squaredDistance m p) matchPx ↔ distance m p < matchPx := by
  rw [← shorter_iff_distance]
  rfl

/-- The nearest mark is at that distance, and none is nearer. -/
theorem nearest_spec (m : Detection box) (marks : List (Detection box)) (p : Detection box) :
    (∃ n ∈ m :: marks, nearest m marks p = squaredDistance n p) ∧
      ∀ n ∈ m :: marks, nearest m marks p ≤ squaredDistance n p := by
  induction marks using List.reverseRecOn with
  | nil => simp [nearest]
  | append_singleton marks last ih =>
    obtain ⟨⟨n, hn, heq⟩, hle⟩ := ih
    have hstep : nearest m (marks ++ [last]) p = min (nearest m marks p) (squaredDistance last p) := by
      rw [nearest, List.foldl_append]
      rfl
    rw [hstep, ← List.cons_append]
    refine ⟨?_, fun k hk => ?_⟩
    · rcases min_choice (nearest m marks p) (squaredDistance last p) with hmin | hmin
      · exact ⟨n, List.mem_append_left _ hn, hmin.trans heq⟩
      · exact ⟨last, List.mem_append_right _ List.mem_cons_self, hmin⟩
    · rcases List.mem_append.mp hk with hk | hk
      · exact (min_le_left _ _).trans (hle k hk)
      · rw [List.mem_singleton.mp hk]
        exact min_le_right _ _

/-- Marks are at least the radius apart, and near everything seen. -/
structure Cover (matchPx : ℚ) (seen marks : List (Detection box)) : Prop where
  apart : marks.Pairwise fun a b => (matchPx : ℝ) ≤ distance a b
  near : ∀ p ∈ seen, ∃ m ∈ marks, distance m p < matchPx

variable {seen : List (Detection box)}

theorem Cover.addMark (h : Cover matchPx seen marks) (hpos : 0 < matchPx) (p : Detection box) :
    Cover matchPx (seen ++ [p]) (addMark matchPx marks p) := by
  unfold BaselineMarks.addMark
  split
  next hany =>
    obtain ⟨m, hm, hd⟩ := List.any_eq_true.mp hany
    refine ⟨h.apart, fun q hq => ?_⟩
    rcases List.mem_append.mp hq with hq | hq
    · exact h.near q hq
    · rw [List.mem_singleton.mp hq]
      exact ⟨m, hm, shorter_iff_distance.mp (of_decide_eq_true hd)⟩
  next hany =>
    have hfar : ∀ m ∈ marks, (matchPx : ℝ) ≤ distance m p := by
      intro m hm
      by_contra hlt
      exact hany (List.any_eq_true.mpr ⟨m, hm, decide_eq_true (shorter_iff_distance.mpr (not_le.mp hlt))⟩)
    refine ⟨List.pairwise_append.mpr ⟨h.apart, List.pairwise_singleton _ _, fun m hm q hq => ?_⟩, fun q hq => ?_⟩
    · rw [List.mem_singleton.mp hq]
      exact hfar m hm
    · rcases List.mem_append.mp hq with hq | hq
      · obtain ⟨m, hm, hd⟩ := h.near q hq
        exact ⟨m, List.mem_append_left _ hm, hd⟩
      · -- what opens a mark lies on it
        rw [List.mem_singleton.mp hq]
        refine ⟨p, List.mem_append_right _ List.mem_cons_self, ?_⟩
        rw [distance_self]
        exact_mod_cast hpos

theorem Cover.addMarks (h : Cover matchPx seen marks) (hpos : 0 < matchPx) (pts : List (Detection box)) :
    Cover matchPx (seen ++ pts) (pts.foldl (BaselineMarks.addMark matchPx) marks) := by
  induction pts generalizing seen marks with
  | nil => simpa using h
  | cons p pts ih => simpa using ih (h.addMark hpos p)

theorem Cover.frames (h : Cover matchPx seen marks) (hpos : 0 < matchPx) (frames : List (List (Detection box))) :
    Cover matchPx (seen ++ frames.flatten)
      (frames.foldl (fun marks pts => pts.foldl (BaselineMarks.addMark matchPx) marks) marks) := by
  induction frames generalizing seen marks with
  | nil => simpa using h
  | cons pts frames ih => simpa using ih (h.addMarks hpos pts)

private theorem cover_baselineMarks (frames : List (List (Detection box))) (hpos : 0 < matchPx) :
    Cover matchPx frames.flatten (baselineMarks frames matchPx) := by
  have hnil : Cover matchPx ([] : List (Detection box)) [] := ⟨.nil, fun p hp => by cases hp⟩
  exact hnil.frames hpos frames

/-- A Detection within the radius of a mark. -/
def Suppressed (marks : List (Detection box)) (matchPx : ℚ) (p : Detection box) : Prop := ∃ m ∈ marks, distance m p < matchPx

theorem within_nearest_iff (hpos : 0 < matchPx) :
    Within (nearest m marks p) matchPx ↔ Suppressed (m :: marks) matchPx p := by
  obtain ⟨⟨n, hn, heq⟩, hle⟩ := nearest_spec m marks p
  constructor
  · intro h
    exact ⟨n, hn, (within_iff).mp (heq ▸ h)⟩
  · rintro ⟨k, hk, hd⟩
    exact ⟨hpos, (hle k hk).trans_lt ((within_iff).mpr hd).2⟩

private theorem survivors_eq (m : Detection box) (marks pts : List (Detection box)) (matchPx : ℚ) :
    (stripPreExisting pts (m :: marks) matchPx).1 = pts.filter fun p => ¬ Within (nearest m marks p) matchPx := by
  simp only [stripPreExisting]
  induction pts with
  | nil => rfl
  | cons p pts ih =>
    by_cases h : Within (nearest m marks p) matchPx
    · simpa [h] using ih
    · simpa [h] using ih

private theorem residuals_eq (m : Detection box) (marks pts : List (Detection box)) (matchPx : ℚ) :
    (stripPreExisting pts (m :: marks) matchPx).2 =
      (pts.filter fun p => Within (nearest m marks p) matchPx).map (nearest m marks) := by
  simp only [stripPreExisting, List.filter_map]
  rfl

/-- How far a suppressed Detection is from the mark nearest to it. -/
def IsResidual (marks : List (Detection box)) (p : Detection box) (square : ℚ) : Prop :=
  ∃ m ∈ marks, distance m p = √(square : ℝ) ∧ ∀ n ∈ marks, distance m p ≤ distance n p

private theorem isResidual_nearest (m : Detection box) (marks : List (Detection box)) (p : Detection box) :
    IsResidual (m :: marks) p (nearest m marks p) := by
  obtain ⟨⟨n, hn, heq⟩, hle⟩ := nearest_spec m marks p
  refine ⟨n, hn, by rw [distance_eq, heq], fun k hk => ?_⟩
  rw [distance_eq, distance_eq]
  exact Real.sqrt_le_sqrt (by exact_mod_cast heq ▸ hle k hk)

/-- Survivors are the Detections no mark is near, and each of the others leaves its residual. -/
theorem strip_splits (hpos : 0 < matchPx) (marks pts : List (Detection box)) :
    ∃ suppressed, ((stripPreExisting pts marks matchPx).1 ++ suppressed).Perm pts ∧
      List.Forall₂ (IsResidual marks) suppressed (stripPreExisting pts marks matchPx).2 ∧
      (∀ p ∈ suppressed, Suppressed marks matchPx p) ∧
      ∀ p ∈ (stripPreExisting pts marks matchPx).1, p ∈ pts ∧ ¬ Suppressed marks matchPx p := by
  cases marks with
  | nil =>
    refine ⟨[], by simp [stripPreExisting], .nil, ?_, fun p hp => ⟨hp, ?_⟩⟩
    · intro p hp
      cases hp
    · rintro ⟨m, hm, -⟩
      cases hm
  | cons m marks =>
    rw [survivors_eq, residuals_eq]
    refine ⟨pts.filter fun p => Within (nearest m marks p) matchPx, ?_, ?_, fun p hp => ?_, fun p hp => ?_⟩
    · have hsplit := List.filter_append_perm (fun p => decide ¬ Within (nearest m marks p) matchPx) pts
      simpa using hsplit
    · rw [List.forall₂_map_right_iff, List.forall₂_same]
      exact fun p _ => isResidual_nearest m marks p
    · exact (within_nearest_iff hpos).mp (of_decide_eq_true (List.mem_filter.mp hp).2)
    · obtain ⟨hp, hw⟩ := List.mem_filter.mp hp
      exact ⟨hp, fun h => of_decide_eq_true hw ((within_nearest_iff hpos).mpr h)⟩

/-- Nothing a baseline Look saw is reported: its place is within the radius of a mark. -/
theorem baseline_suppresses (frames : List (List (Detection box))) (pts : List (Detection box)) (matchPx : ℚ)
    (hpos : 0 < matchPx) :
    let marks := baselineMarks frames matchPx
    let survivors := (stripPreExisting pts marks matchPx).1
    let residuals := (stripPreExisting pts marks matchPx).2
    (marks.Pairwise fun a b => (matchPx : ℝ) ≤ distance a b) ∧
    (∀ look ∈ frames, ∀ p ∈ look, ∃ m ∈ marks, distance m p < matchPx) ∧
    (∀ p, (∃ look ∈ frames, ∃ q ∈ look, q 0 = p 0 ∧ q 1 = p 1) → p ∉ survivors) ∧
    (∀ p ∈ survivors, ∀ m ∈ marks, (matchPx : ℝ) ≤ distance m p) ∧
    ∃ suppressed, (survivors ++ suppressed).Perm pts ∧ List.Forall₂ (IsResidual marks) suppressed residuals ∧
      survivors.length + residuals.length = pts.length ∧ ∀ p ∈ suppressed, Suppressed marks matchPx p := by
  intro marks survivors residuals
  have hcover := cover_baselineMarks frames hpos
  obtain ⟨suppressed, hperm, hresiduals, hnear, hfar⟩ := strip_splits hpos marks pts
  have hseen : ∀ look ∈ frames, ∀ p ∈ look, ∃ m ∈ marks, distance m p < matchPx :=
    fun look hl p hp => hcover.near p (List.mem_flatten.mpr ⟨look, hl, hp⟩)
  refine ⟨hcover.apart, hseen, ?_, fun p hp m hm => ?_, suppressed, hperm, hresiduals, ?_, hnear⟩
  · rintro p ⟨look, hl, q, hq, hx, hy⟩ hp
    obtain ⟨m, hm, hd⟩ := hseen look hl q hq
    refine (hfar p hp).2 ⟨m, hm, ?_⟩
    rwa [distance, hx, hy] at hd
  · by_contra hlt
    exact (hfar p hp).2 ⟨m, hm, not_le.mp hlt⟩
  · have hlength := hperm.length_eq
    rw [List.length_append, hresiduals.length_eq] at hlength
    exact hlength

theorem baseline_suppresses_twoLooks : (0 : ℚ) < 3 ∧
    (![0, 4] : Detection 0) ∉ (stripPreExisting [![0, 4]] (baselineMarks [[![0, 0]], [![2, 0], ![0, 4]]] 3) 3).1 := by
  obtain ⟨-, -, hdrops, -⟩ :=
    baseline_suppresses [[![0, 0]], [![2, 0], ![0, 4]]] [(![0, 4] : Detection 0)] 3 (by norm_num)
  exact ⟨by norm_num, hdrops _ ⟨[![2, 0], ![0, 4]], by simp, ![0, 4], by simp, rfl, rfl⟩⟩

end Kanat.BaselineMarks
