import Kanat.LabelExports
import Kanat.MarkMatching
import Mathlib.Data.Finset.Card

/-! # Deriving the new Bullet Holes from two exports (tools/evaluate.py: derive_new_holes)

`norm` and `maxWeightMatching` are those of `match`, whose pairs are taken by their indices here. -/
namespace Kanat.TruthDerivation
open LabelExports MarkMatching TextLines WeightedMatching

variable {R : Type} [Field R] [LinearOrder R]

/-- What the two photographs give: their sizes, the registration of one onto the other, and what OpenCV fits to pairs, a
similarity with how many are its inliers. -/
structure Photographs (R : Type) where
  beforeSize : R × R
  afterSize : R × R
  register : R × R → R × R
  correlation : R
  reach : R
  estimateAffinePartial2D : List (R × R) → List (R × R) → Option ((R × R → R × R) × ℕ)

abbrev Pair (R : Type) := ℕ × ℕ × R

structure Derived (R : Type) where
  lines : List Text
  beforeLines : List Text
  new : List ℕ
  preExisting : List ℕ
  onlyBefore : List ℕ
  correlation : R
  tolerancePx : R
  refitted : Bool
  distances : List R
deriving DecidableEq

def MIN_REFIT_PAIRS : ℕ := 4

/-- Normalised centres in the pixels of a photograph of the size. -/
def inPx (size : R × R) (centres : List (R × R)) : List (R × R) := centres.map fun p => p * size

/-- `_unmatched` -/
def unmatched (pairs : List (Pair R)) (count : ℕ) : List ℕ :=
  (List.range count).filter fun i => i ∉ pairs.map fun p => p.1

def keepRefit (pairs refitPairs : List (Pair R)) : Bool :=
  refitPairs.length > pairs.length ∨
    (refitPairs.map fun p => (p.1, p.2.1)).toFinset = (pairs.map fun p => (p.1, p.2.1)).toFinset

def refitOnMatchedMarks (photographs : Photographs R) (beforePhotoPx after : List (R × R)) (pairs : List (Pair R)) :
    Option (List (R × R)) :=
  if pairs.length < MIN_REFIT_PAIRS then none
  else
    match photographs.estimateAffinePartial2D (pairs.map fun p => beforePhotoPx.getD p.2.1 0)
      (pairs.map fun p => after.getD p.1 0) with
    | none => none
    | some (M, inliers) => if inliers < MIN_REFIT_PAIRS then none else some (beforePhotoPx.map M)

section
variable (norm : R × R → R) (maxWeightMatching : (V : Type) → [DecidableEq V] → WeightedGraph V R → List (V × V))

/-- `match`, and the truth it misses. -/
def matched (truth found : List (R × R)) (tolerance : R) : List (Pair R) × List ℕ :=
  let all := matchMarks norm maxWeightMatching truth found tolerance
  (all.pairs.map fun p => (p.1.val, p.2.1.val, p.2.2), all.missed.map fun j => j.val)

/-- The pairs and the before-marks left over, and whether by a second registration. -/
def registered (photographs : Photographs R) (beforePx after : List (R × R)) : (List (Pair R) × List ℕ) × Bool :=
  let first := matched norm maxWeightMatching (beforePx.map photographs.register) after photographs.reach
  match refitOnMatchedMarks photographs beforePx after first.1 with
  | none => (first, false)
  | some refit =>
    let second := matched norm maxWeightMatching refit after photographs.reach
    if keepRefit first.1 second.1 then (second, true) else (first, false)

def deriveNewHoles (float : Text → Option R) (abspath : String → File) (files : Files)
    (beforeLabels afterLabels : String) (photographs : Except Raised (Photographs R)) : Except Raised (Derived R) :=
  (readExport float abspath files afterLabels).bind fun after =>
    (readExport float abspath files beforeLabels).bind fun before =>
      photographs.map fun photographs =>
        let after' := inPx photographs.afterSize after.2
        let beforePx := inPx photographs.beforeSize before.2
        let found := registered norm maxWeightMatching photographs beforePx after'
        { lines := after.1
          beforeLines := before.1
          new := unmatched found.1.1 after'.length
          preExisting := (found.1.1.map fun p => p.1).insertionSort (· ≤ ·)
          onlyBefore := found.1.2
          correlation := photographs.correlation
          tolerancePx := photographs.reach
          refitted := found.2
          distances := (found.1.1.map fun p => p.2.2).insertionSort (· ≤ ·) }

end

/-- Each after-mark is in one pair at most, and so is each before-mark. -/
structure Paired (count : ℕ) (pairs : List (Pair R)) : Prop where
  within : ∀ p ∈ pairs, p.1 < count
  found : (pairs.map fun p => p.1).Nodup
  truth : (pairs.map fun p => p.2.1).Nodup

/-- What is used of networkx: it gives a matching. -/
def Matches (maxWeightMatching : (V : Type) → [DecidableEq V] → WeightedGraph V R → List (V × V)) : Prop :=
  ∀ (V : Type) [DecidableEq V] (graph : WeightedGraph V R), Simple graph → Matching graph (maxWeightMatching V graph)

variable {norm : R × R → R} {maxWeightMatching : (V : Type) → [DecidableEq V] → WeightedGraph V R → List (V × V)}
  {pairs : List (Pair R)} {count : ℕ}

theorem paired_matched (norm : R × R → R) (hmatches : Matches maxWeightMatching) (truth found : List (R × R))
    (tolerance : R) :
    Paired found.length (matched norm maxWeightMatching truth found tolerance).1 := by
  have hsimple : Simple (reach norm truth found tolerance) := simple_reach
  have hmatching := hmatches _ _ hsimple
  have hpairing := pairing_decode hmatching
  have hperm := matchMarks_pairs hmatching
  have hfound : ((matchMarks norm maxWeightMatching truth found tolerance).pairs.map fun p => p.1).Nodup := by
    rw [(hperm.map _).nodup_iff, List.map_map]
    exact hpairing.found
  have htruth : ((matchMarks norm maxWeightMatching truth found tolerance).pairs.map fun p => p.2.1).Nodup := by
    rw [(hperm.map _).nodup_iff, List.map_map]
    exact hpairing.truth
  refine ⟨fun p hp => ?_, ?_, ?_⟩
  · obtain ⟨q, -, rfl⟩ := List.mem_map.mp hp
    exact q.1.isLt
  · have h := hfound.map Fin.val_injective
    rw [List.map_map] at h
    exact (congrArg List.Nodup (List.map_map ..)).mpr h
  · have h := htruth.map Fin.val_injective
    rw [List.map_map] at h
    exact (congrArg List.Nodup (List.map_map ..)).mpr h

theorem paired_registered (norm : R × R → R) (hmatches : Matches maxWeightMatching) (photographs : Photographs R)
    (beforePx after : List (R × R)) :
    Paired after.length (registered norm maxWeightMatching photographs beforePx after).1.1 := by
  simp only [registered]
  cases refitOnMatchedMarks photographs beforePx after
      (matched norm maxWeightMatching (beforePx.map photographs.register) after photographs.reach).1 with
  | none => exact paired_matched norm hmatches _ _ _
  | some refit =>
    simp only
    split_ifs
    · exact paired_matched norm hmatches _ _ _
    · exact paired_matched norm hmatches _ _ _

omit [Field R] [LinearOrder R] in
/-- A refit is kept that pairs no fewer. -/
theorem length_le_of_keepRefit {refitPairs : List (Pair R)} {count' : ℕ} (hpairs : Paired count pairs)
    (hrefit : Paired count' refitPairs) (h : keepRefit pairs refitPairs) : pairs.length ≤ refitPairs.length := by
  have hcard : ∀ {count : ℕ} {ps : List (Pair R)}, Paired count ps →
      (ps.map fun p => (p.1, p.2.1)).toFinset.card = ps.length := by
    intro count ps hps
    have hnodup : (ps.map fun p => (p.1, p.2.1)).Nodup := by
      refine List.Nodup.of_map Prod.fst ?_
      rw [List.map_map]
      exact hps.found
    rw [List.toFinset_card_of_nodup hnodup, List.length_map]
  rcases of_decide_eq_true h with hmore | hsame
  · exact hmore.le
  · rw [← hcard hpairs, ← hcard hrefit, hsame]

theorem length_le_registered (norm : R × R → R) (hmatches : Matches maxWeightMatching) (photographs : Photographs R)
    (beforePx after : List (R × R)) :
    (matched norm maxWeightMatching (beforePx.map photographs.register) after photographs.reach).1.length ≤
      (registered norm maxWeightMatching photographs beforePx after).1.1.length := by
  simp only [registered]
  cases refitOnMatchedMarks photographs beforePx after
      (matched norm maxWeightMatching (beforePx.map photographs.register) after photographs.reach).1 with
  | none => exact le_rfl
  | some refit =>
    simp only
    split_ifs with hkeep
    · exact length_le_of_keepRefit (paired_matched norm hmatches _ _ _) (paired_matched norm hmatches _ _ _) hkeep
    · exact le_rfl

/-- Two parts of the first `count` numbers, each in order. -/
structure Parts (count : ℕ) (new preExisting : List ℕ) : Prop where
  newInOrder : new.Pairwise (· < ·)
  preExistingInOrder : preExisting.Pairwise (· < ·)
  all : (new ++ preExisting).Perm (List.range count)

omit [Field R] [LinearOrder R] in
private theorem perm_paired (h : Paired count pairs) :
    ((List.range count).filter fun i => i ∈ pairs.map fun p => p.1).Perm (pairs.map fun p => p.1) := by
  refine (List.perm_ext_iff_of_nodup (List.nodup_range.filter _) h.found).mpr fun i => ?_
  rw [List.mem_filter, decide_eq_true_eq, List.mem_range, and_iff_right_iff_imp]
  intro hi
  obtain ⟨p, hp, rfl⟩ := List.mem_map.mp hi
  exact h.within p hp

omit [Field R] [LinearOrder R] in
theorem parts_unmatched (h : Paired count pairs) :
    Parts count (unmatched pairs count) ((pairs.map fun p => p.1).insertionSort (· ≤ ·)) where
  newInOrder := List.pairwise_lt_range.filter _
  preExistingInOrder := by
    have hsorted := List.pairwise_insertionSort (· ≤ ·) (pairs.map fun p => p.1)
    have hnodup := (List.perm_insertionSort (· ≤ ·) (pairs.map fun p => p.1)).nodup_iff.mpr h.found
    exact (hsorted.and hnodup).imp fun hle => lt_of_le_of_ne hle.1 hle.2
  all := by
    refine (List.Perm.append_left _ ((List.perm_insertionSort _ _).trans (perm_paired h).symm)).trans ?_
    refine List.perm_append_comm.trans ?_
    have hnot : unmatched pairs count = (List.range count).filter fun i => !decide (i ∈ pairs.map fun p => p.1) := by
      simp only [unmatched, decide_not]
    rw [hnot]
    exact List.filter_append_perm _ _

omit [Field R] [LinearOrder R] in
theorem length_unmatched (h : Paired count pairs) : (unmatched pairs count).length + pairs.length = count := by
  have hlength := (parts_unmatched h).all.length_eq
  rwa [List.length_append, List.length_insertionSort, List.length_map, List.length_range] at hlength

/-- The pairs of the first registration. -/
def firstPairs (norm : R × R → R) (maxWeightMatching : (V : Type) → [DecidableEq V] → WeightedGraph V R → List (V × V))
    (float : Text → Option R) (photographs : Photographs R) (result : Derived R) : List (Pair R) :=
  let after := inPx photographs.afterSize (result.lines.map (centre float))
  let beforePx := inPx photographs.beforeSize (result.beforeLines.map (centre float))
  (matched norm maxWeightMatching (beforePx.map photographs.register) after photographs.reach).1

variable {float : Text → Option R} {abspath : String → File} {files : Files} {beforeLabels afterLabels : String}
  {photographs : Photographs R} {result : Derived R}

/-- Both exports are read, the after export's lines are parted, and no refit leaves more of them new. -/
theorem deriveNewHoles_ok (hmatches : Matches maxWeightMatching)
    (h : deriveNewHoles norm maxWeightMatching float abspath files beforeLabels afterLabels (.ok photographs) =
      .ok result) :
    (∃ text, files (abspath afterLabels) = some text ∧ result.lines = nonblank text ∧
      ∀ l ∈ result.lines, Readable float l) ∧
    (∃ text, files (abspath beforeLabels) = some text) ∧ Parts result.lines.length result.new result.preExisting ∧
    (firstPairs norm maxWeightMatching float photographs result).length ≤ result.preExisting.length ∧
    result.new.length ≤
      (unmatched (firstPairs norm maxWeightMatching float photographs result) result.lines.length).length := by
  unfold deriveNewHoles at h
  cases hafter : readExport float abspath files afterLabels with
  | error e => rw [hafter] at h; cases h
  | ok after =>
    cases hbefore : readExport float abspath files beforeLabels with
    | error e => rw [hafter, hbefore] at h; cases h
    | ok before =>
      obtain ⟨lines, centres⟩ := after
      obtain ⟨beforeLines, beforeCentres⟩ := before
      rw [hafter, hbefore] at h
      obtain rfl := Except.ok.inj h
      obtain ⟨text, htext, hlines, hreadable, rfl⟩ := readExport_ok hafter
      obtain ⟨beforeText, hbeforeText, -, -, rfl⟩ := readExport_ok hbefore
      have hcount : (inPx photographs.afterSize (lines.map (centre float))).length = lines.length := by
        rw [inPx, List.length_map, List.length_map]
      have hpaired := paired_registered norm hmatches photographs (inPx photographs.beforeSize
        (beforeLines.map (centre float))) (inPx photographs.afterSize (lines.map (centre float)))
      have hfirst := paired_matched norm hmatches ((inPx photographs.beforeSize (beforeLines.map (centre float))).map
        photographs.register) (inPx photographs.afterSize (lines.map (centre float))) photographs.reach
      have hle := length_le_registered norm hmatches photographs (inPx photographs.beforeSize
        (beforeLines.map (centre float))) (inPx photographs.afterSize (lines.map (centre float)))
      have hparts := parts_unmatched hpaired
      have hnew := length_unmatched hpaired
      have hold := length_unmatched hfirst
      rw [hcount] at hparts hnew hold
      refine ⟨⟨text, htext, hlines, hreadable⟩, ⟨beforeText, hbeforeText⟩, ?_, ?_, ?_⟩
      · simp only [hcount]
        exact hparts
      · simpa only [firstPairs, List.length_insertionSort, List.length_map] using hle
      · simp only [hcount, firstPairs]
        omega

end Kanat.TruthDerivation
