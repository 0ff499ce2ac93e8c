import Kanat.MarkMatching
import Mathlib.Analysis.Real.Sqrt
import Mathlib.Data.List.MinMax
import Mathlib.Data.Rat.Defs

/-! # A run's score, and what its false positives come from (tools/evaluate.py: score, attribute)

Over a matching taken as a parameter. The counts are lengths of lists that the matching splits; truth out of scope is
appended to both, and each false positive then has one cause. -/
namespace Kanat.Scores
open WeightedMatching MarkMatching

variable {R : Type} [Field R] [LinearOrder R]

structure Score (n m : ℕ) (R : Type) where
  tp : ℕ
  fp : ℤ
  fn : ℕ
  precision : ℚ
  recallRate : ℚ
  f1 : ℚ
  pairs : List (Fin n × Fin m × R)
  missed : List (Fin m)
  outOfScopePairs : List (Fin n × Fin m × R)

/-- `marks[places]`. -/
def rows (marks : List (R × R)) (places : List (Fin marks.length)) : List (R × R) := places.map marks.get

def inScope (truth : List (R × R)) (outOfScope : List ℕ) : List (Fin truth.length) :=
  (List.finRange truth.length).filter fun j => (j : ℕ) ∉ outOfScope

def beyondScope (truth : List (R × R)) (outOfScope : List ℕ) : List (Fin truth.length) :=
  (List.finRange truth.length).filter fun j => (j : ℕ) ∈ outOfScope

section
variable (norm : R × R → R) (maxWeightMatching : (V : Type) → [DecidableEq V] → WeightedGraph V R → List (V × V))
  (truth found : List (R × R))

def subset (tolerance : R) (labels : List (Fin truth.length)) (dets : List (Fin found.length)) :
    Matched found.length truth.length R :=
  let matched := matchMarks norm maxWeightMatching (rows truth labels) (rows found dets) tolerance
  { pairs := matched.pairs.map fun (i, j, d) =>
      (dets.get (i.cast (List.length_map _)), labels.get (j.cast (List.length_map _)), d)
    missed := matched.missed.map fun j => labels.get (j.cast (List.length_map _)) }

def score (tolerance : R) (outOfScope : List ℕ) : Score found.length truth.length R :=
  let matched := subset norm maxWeightMatching truth found tolerance (inScope truth outOfScope) (List.finRange _)
  let claimed := matched.pairs.map fun p => p.1
  let beyond := subset norm maxWeightMatching truth found tolerance (beyondScope truth outOfScope)
    ((List.finRange _).filter fun i => i ∉ claimed)
  let tp := matched.pairs.length
  let fp : ℤ := found.length - tp - beyond.pairs.length
  let fn := matched.missed.length
  { tp := tp
    fp := fp
    fn := fn
    precision := if tp + fp ≠ 0 then (tp / (tp + fp) : ℚ) else 0
    recallRate := if tp + fn ≠ 0 then (tp / (tp + fn) : ℚ) else 0
    f1 := if tp ≠ 0 then (2 * tp / (2 * tp + fp + fn) : ℚ) else 0
    pairs := matched.pairs
    missed := matched.missed
    outOfScopePairs := beyond.pairs.insertionSort Before }

end

inductive Cause where
  | displacement
  | detector
  | unknown
deriving DecidableEq

def UNKNOWN_FACTOR : R := 2

/-- A distance of `⊤` is Python's infinity. -/
def attributed (norm : R × R → R) {m : ℕ} (found : List (R × R)) (pairs : List (Fin found.length × Fin m × R))
    (baseline : List (R × R)) (tolerance : R) : List (Fin found.length × Cause × WithTop R) :=
  let credited := pairs.map fun p => p.1
  ((List.finRange found.length).filter fun i => i ∉ credited).map fun i =>
    let distance := (baseline.map fun mark => norm (mark - found.get i)).minimum
    let cause := if distance ≤ tolerance then .displacement
      else if (UNKNOWN_FACTOR * tolerance : R) < distance then .detector else .unknown
    (i, cause, distance)

variable {norm : R × R → R} {maxWeightMatching : (V : Type) → [DecidableEq V] → WeightedGraph V R → List (V × V)}
  {truth found : List (R × R)} {tolerance : R}

/-- The detections that a matching of `marks` with those at `dets` claims. -/
def claims (norm : R × R → R) (maxWeightMatching : (V : Type) → [DecidableEq V] → WeightedGraph V R → List (V × V))
    (found : List (R × R)) (tolerance : R) (marks : List (R × R)) (dets : List (Fin found.length)) :
    List (Fin found.length) :=
  (matchMarks norm maxWeightMatching marks (rows found dets) tolerance).pairs.map fun p =>
    dets.get (p.1.cast (List.length_map _))

theorem subset_claims (labels : List (Fin truth.length)) (dets : List (Fin found.length)) :
    ((subset norm maxWeightMatching truth found tolerance labels dets).pairs.map fun p => p.1) =
      claims norm maxWeightMatching found tolerance (rows truth labels) dets := by
  unfold subset claims
  rw [List.map_map]
  rfl

variable [IsStrictOrderedRing R]

theorem nodup_claims (hcorrect : Correct maxWeightMatching) {dets : List (Fin found.length)} (hdets : dets.Nodup)
    (marks : List (R × R)) : (claims norm maxWeightMatching found tolerance marks dets).Nodup := by
  have hfound := (matchMarks_optimal norm hcorrect marks (rows found dets) tolerance).pairing.found
  rw [List.map_map] at hfound
  refine List.pairwise_map.mpr ((List.pairwise_map.mp hfound).imp fun {p q} hne heq => hne ?_)
  have hinj := (List.nodup_iff_injective_get.mp hdets) heq
  exact Fin.cast_injective _ hinj

omit [IsStrictOrderedRing R] in
private theorem claims_subset {dets : List (Fin found.length)} {marks : List (R × R)} :
    claims norm maxWeightMatching found tolerance marks dets ⊆ dets := by
  intro i hi
  obtain ⟨p, -, rfl⟩ := List.mem_map.mp hi
  exact List.get_mem _ _

/-- More marks to match never claim fewer detections. -/
theorem length_claims_append (hcorrect : Correct maxWeightMatching) (marks extra : List (R × R))
    (dets : List (Fin found.length)) :
    (claims norm maxWeightMatching found tolerance marks dets).length ≤
      (claims norm maxWeightMatching found tolerance (marks ++ extra) dets).length := by
  have hsmall := matchMarks_optimal norm hcorrect marks (rows found dets) tolerance
  have hlarge := matchMarks_optimal norm hcorrect (marks ++ extra) (rows found dets) tolerance
  have hle : marks.length ≤ (marks ++ extra).length := by
    rw [List.length_append]
    exact Nat.le_add_right _ _
  have hpairing : Pairing norm (marks ++ extra) (rows found dets) tolerance
      ((matchMarks norm maxWeightMatching marks (rows found dets) tolerance).pairs.map
        fun p => (p.1, p.2.1.castLE hle)) := by
    refine ⟨fun p hp => ?_, ?_, ?_⟩
    · obtain ⟨q, hq, rfl⟩ := List.mem_map.mp hp
      have hwithin := hsmall.pairing.within _ (List.mem_map_of_mem hq)
      unfold distance at hwithin ⊢
      rw [List.get_eq_getElem, List.get_eq_getElem] at hwithin ⊢
      simp only [Fin.val_castLE]
      rwa [List.getElem_append_left]
    · have hnodup := hsmall.pairing.found
      rw [List.map_map] at hnodup ⊢
      exact hnodup
    · have hnodup := hsmall.pairing.truth
      rw [List.map_map] at hnodup ⊢
      exact List.pairwise_map.mpr ((List.pairwise_map.mp hnodup).imp fun hne heq => hne (Fin.castLE_injective hle heq))
  have hmost := hlarge.most _ hpairing
  rw [List.length_map] at hmost
  rwa [claims, claims, List.length_map, List.length_map]

/-- Every label is found or missed. -/
theorem length_claims_add_missed (hcorrect : Correct maxWeightMatching) (marks : List (R × R))
    (dets : List (Fin found.length)) :
    (claims norm maxWeightMatching found tolerance marks dets).length +
      (matchMarks norm maxWeightMatching marks (rows found dets) tolerance).missed.length = marks.length := by
  rw [claims, List.length_map, add_comm]
  exact (matchMarks_optimal norm hcorrect marks (rows found dets) tolerance).length_missed

omit [Field R] [LinearOrder R] [IsStrictOrderedRing R] in
theorem rows_filter (truth : List (R × R)) (q : ℕ → Bool) :
    rows truth ((List.finRange truth.length).filter fun j => q j) =
      (truth.zipIdx.filter fun p => q p.2).map Prod.fst := by
  have hzip : truth.zipIdx = (List.finRange truth.length).map fun j => (truth.get j, (j : ℕ)) :=
    List.ext_getElem (by simp) fun j _ _ => by simp
  rw [hzip, List.filter_map, List.map_map]
  rfl

/-- `extra` is truth beyond the old, all of it out of scope. -/
structure Appended (truth extra : List (R × R)) (outOfScope outOfScope' : List ℕ) : Prop where
  same : ∀ j < truth.length, j ∈ outOfScope' ↔ j ∈ outOfScope
  beyond : ∀ j, truth.length ≤ j → j < (truth ++ extra).length → j ∈ outOfScope'

variable {extra : List (R × R)} {outOfScope outOfScope' : List ℕ}

omit [Field R] [LinearOrder R] [IsStrictOrderedRing R] in
theorem rows_filter_append (extra : List (R × R)) (q q' : ℕ → Bool) (h : ∀ j < truth.length, q' j = q j) :
    rows (truth ++ extra) ((List.finRange (truth ++ extra).length).filter fun j => q' j) =
      rows truth ((List.finRange truth.length).filter fun j => q j) ++
        ((extra.zipIdx truth.length).filter fun p => q' p.2).map Prod.fst := by
  have hsame : truth.zipIdx.filter (fun p => q' p.2) = truth.zipIdx.filter fun p => q p.2 :=
    List.filter_congr fun p hp => h p.2 (List.snd_lt_of_mem_zipIdx hp)
  rw [rows_filter, rows_filter, List.zipIdx_append, List.filter_append, List.map_append, Nat.zero_add, hsame]

omit [Field R] [LinearOrder R] [IsStrictOrderedRing R] in
theorem Appended.mem (h : Appended truth extra outOfScope outOfScope') {p : (R × R) × ℕ}
    (hp : p ∈ extra.zipIdx truth.length) : p.2 ∈ outOfScope' := by
  refine h.beyond p.2 (List.le_snd_of_mem_zipIdx hp) ?_
  rw [List.length_append]
  exact (List.snd_lt_of_mem_zipIdx hp).trans_eq (Nat.add_comm _ _)

omit [Field R] [LinearOrder R] [IsStrictOrderedRing R] in
theorem rows_inScope_append (h : Appended truth extra outOfScope outOfScope') :
    rows (truth ++ extra) (inScope (truth ++ extra) outOfScope') = rows truth (inScope truth outOfScope) := by
  have hnone : (extra.zipIdx truth.length).filter (fun p => decide (p.2 ∉ outOfScope')) = [] :=
    List.filter_eq_nil_iff.mpr fun p hp => by simpa using h.mem hp
  have hrows := rows_filter_append extra (fun j => decide (j ∉ outOfScope)) (fun j => decide (j ∉ outOfScope'))
    fun j hj => decide_eq_decide.mpr (not_congr (h.same j hj))
  rw [hnone] at hrows
  exact hrows.trans (List.append_nil _)

omit [Field R] [LinearOrder R] [IsStrictOrderedRing R] in
private theorem rows_beyondScope_append (h : Appended truth extra outOfScope outOfScope') :
    rows (truth ++ extra) (beyondScope (truth ++ extra) outOfScope') =
      rows truth (beyondScope truth outOfScope) ++ extra := by
  have hall : (extra.zipIdx truth.length).filter (fun p => decide (p.2 ∈ outOfScope')) = extra.zipIdx truth.length :=
    List.filter_eq_self.mpr fun p hp => decide_eq_true (h.mem hp)
  have hrows := rows_filter_append extra (fun j => decide (j ∈ outOfScope)) (fun j => decide (j ∈ outOfScope'))
    fun j hj => decide_eq_decide.mpr (h.same j hj)
  rw [hall, List.zipIdx_map_fst] at hrows
  exact hrows

/-- The detections left for the truth beyond scope. -/
def remaining (norm : R × R → R) (maxWeightMatching : (V : Type) → [DecidableEq V] → WeightedGraph V R → List (V × V))
    (truth found : List (R × R)) (tolerance : R) (outOfScope : List ℕ) : List (Fin found.length) :=
  (List.finRange found.length).filter fun i =>
    i ∉ claims norm maxWeightMatching found tolerance (rows truth (inScope truth outOfScope)) (List.finRange _)

omit [IsStrictOrderedRing R] in
theorem score_pairs : ((score norm maxWeightMatching truth found tolerance outOfScope).pairs.map fun p => p.1) =
    claims norm maxWeightMatching found tolerance (rows truth (inScope truth outOfScope)) (List.finRange _) :=
  subset_claims _ _

omit [IsStrictOrderedRing R] in
theorem score_outOfScopePairs :
    ((score norm maxWeightMatching truth found tolerance outOfScope).outOfScopePairs.map fun p => p.1).Perm
      (claims norm maxWeightMatching found tolerance (rows truth (beyondScope truth outOfScope))
        (remaining norm maxWeightMatching truth found tolerance outOfScope)) := by
  refine ((List.perm_insertionSort _ _).map _).trans (.of_eq ?_)
  rw [subset_claims, subset_claims]
  rfl

/-- No detection is claimed twice. -/
theorem nodup_credited (hcorrect : Correct maxWeightMatching) :
    ((score norm maxWeightMatching truth found tolerance outOfScope).pairs.map (fun p => p.1) ++
      (score norm maxWeightMatching truth found tolerance outOfScope).outOfScopePairs.map fun p => p.1).Nodup := by
  have hrange := List.nodup_finRange found.length
  refine ((List.Perm.append_left _ score_outOfScopePairs).nodup_iff).mpr (List.nodup_append.mpr ⟨?_, ?_, ?_⟩)
  · rw [score_pairs]
    exact nodup_claims hcorrect hrange _
  · exact nodup_claims hcorrect (hrange.filter _) _
  · intro i hi i' hi' heq
    have hleft := of_decide_eq_true (List.mem_filter.mp (claims_subset hi')).2
    rw [score_pairs] at hi
    exact hleft (heq ▸ hi)

omit [IsStrictOrderedRing R] in
theorem score_tp : (score norm maxWeightMatching truth found tolerance outOfScope).tp =
    (claims norm maxWeightMatching found tolerance (rows truth (inScope truth outOfScope))
      (List.finRange _)).length := by
  rw [← score_pairs, List.length_map]
  rfl

omit [IsStrictOrderedRing R] in
theorem score_fn : (score norm maxWeightMatching truth found tolerance outOfScope).fn =
    (matchMarks norm maxWeightMatching (rows truth (inScope truth outOfScope)) (rows found (List.finRange _))
      tolerance).missed.length :=
  List.length_map _

omit [IsStrictOrderedRing R] in
theorem score_fp : (score norm maxWeightMatching truth found tolerance outOfScope).fp =
    found.length - (score norm maxWeightMatching truth found tolerance outOfScope).tp -
      (score norm maxWeightMatching truth found tolerance outOfScope).outOfScopePairs.length := by
  have hlength : (score norm maxWeightMatching truth found tolerance outOfScope).outOfScopePairs.length = _ :=
    (List.perm_insertionSort _ _).length_eq
  rw [hlength]
  rfl

private theorem score_tp_add_fn (hcorrect : Correct maxWeightMatching) :
    (score norm maxWeightMatching truth found tolerance outOfScope).tp +
      (score norm maxWeightMatching truth found tolerance outOfScope).fn = (inScope truth outOfScope).length := by
  rw [score_tp, score_fn, length_claims_add_missed hcorrect]
  exact List.length_map _

/-- More truth out of scope finds and misses no other label, and takes no detection but a false positive. -/
theorem score_append (hcorrect : Correct maxWeightMatching) (h : Appended truth extra outOfScope outOfScope') :
    (score norm maxWeightMatching (truth ++ extra) found tolerance outOfScope').tp =
        (score norm maxWeightMatching truth found tolerance outOfScope).tp ∧
      (score norm maxWeightMatching (truth ++ extra) found tolerance outOfScope').fn =
        (score norm maxWeightMatching truth found tolerance outOfScope).fn ∧
      (score norm maxWeightMatching (truth ++ extra) found tolerance outOfScope').fp ≤
        (score norm maxWeightMatching truth found tolerance outOfScope).fp := by
  have htp : (score norm maxWeightMatching (truth ++ extra) found tolerance outOfScope').tp =
      (score norm maxWeightMatching truth found tolerance outOfScope).tp := by
    rw [score_tp, score_tp, rows_inScope_append h]
  refine ⟨htp, by rw [score_fn, score_fn, rows_inScope_append h], ?_⟩
  have hold : (score norm maxWeightMatching truth found tolerance outOfScope).outOfScopePairs.length =
      (claims norm maxWeightMatching found tolerance (rows truth (beyondScope truth outOfScope))
        (remaining norm maxWeightMatching truth found tolerance outOfScope)).length := by
    rw [← score_outOfScopePairs.length_eq, List.length_map]
  have hnew : (score norm maxWeightMatching (truth ++ extra) found tolerance outOfScope').outOfScopePairs.length =
      (claims norm maxWeightMatching found tolerance (rows truth (beyondScope truth outOfScope) ++ extra)
        (remaining norm maxWeightMatching truth found tolerance outOfScope)).length := by
    rw [← rows_beyondScope_append h, ← List.length_map (fun p => p.1), score_outOfScopePairs.length_eq, remaining,
      rows_inScope_append h, remaining]
  have hle := hold.trans_le ((length_claims_append hcorrect _ extra _).trans_eq hnew.symm)
  rw [score_fp, score_fp, htp]
  omega

omit [IsStrictOrderedRing R] in
theorem attributed_found (norm : R × R → R) {m : ℕ} (pairs : List (Fin found.length × Fin m × R))
    (baseline : List (R × R)) (tolerance : R) :
    ((attributed norm found pairs baseline tolerance).map fun c => c.1) =
      (List.finRange found.length).filter fun i => i ∉ pairs.map fun p => p.1 := by
  unfold attributed
  rw [List.map_map]
  exact List.map_id _

/-- One cause for each detection that no pair credits, as many as the false positives counted. -/
theorem length_attributed (hcorrect : Correct maxWeightMatching) (baseline : List (R × R)) :
    ((attributed norm found ((score norm maxWeightMatching truth found tolerance outOfScope).pairs ++
      (score norm maxWeightMatching truth found tolerance outOfScope).outOfScopePairs) baseline tolerance).length : ℤ) =
        (score norm maxWeightMatching truth found tolerance outOfScope).fp := by
  have hnodup : ((score norm maxWeightMatching truth found tolerance outOfScope).pairs.map (fun p => p.1) ++ _).Nodup :=
    nodup_credited hcorrect
  rw [← List.map_append] at hnodup
  have hcount := length_filter_notMem hnodup
  rw [← attributed_found norm _ baseline tolerance, List.length_map, List.length_map, List.length_append] at hcount
  have htp : (score norm maxWeightMatching truth found tolerance outOfScope).tp =
    (score norm maxWeightMatching truth found tolerance outOfScope).pairs.length := rfl
  rw [score_fp, htp]
  omega

/-- Matching is optimal, the counts add up, truth out of scope excuses only, and each false positive has one cause. -/
theorem score_honest (norm : R × R → R) (hcorrect : Correct maxWeightMatching) (truth found : List (R × R))
    (outOfScope : List ℕ) (tolerance : R) :
    Optimal norm truth found tolerance (matchMarks norm maxWeightMatching truth found tolerance) ∧
      let s := score norm maxWeightMatching truth found tolerance outOfScope
      s.tp + s.fn = (inScope truth outOfScope).length ∧
      s.tp + s.fp + s.outOfScopePairs.length = found.length ∧
      (∀ extra outOfScope', Appended truth extra outOfScope outOfScope' →
        let s' := score norm maxWeightMatching (truth ++ extra) found tolerance outOfScope'
        s'.tp = s.tp ∧ s'.fn = s.fn ∧ s'.fp ≤ s.fp) ∧
      ∀ baseline, let causes := attributed norm found (s.pairs ++ s.outOfScopePairs) baseline tolerance
        (causes.map fun c => c.1) =
            (List.finRange found.length).filter (fun i => i ∉ (s.pairs ++ s.outOfScopePairs).map fun p => p.1) ∧
          (causes.length : ℤ) = s.fp := by
  refine ⟨matchMarks_optimal norm hcorrect truth found tolerance, score_tp_add_fn hcorrect, ?_,
    fun _ _ => score_append hcorrect, fun baseline => ⟨attributed_found norm _ baseline tolerance, ?_⟩⟩
  · rw [score_fp]
    ring
  · exact length_attributed hcorrect baseline

/-- Two labels 10 apart, and two detections that each reach the first. -/
theorem score_honest_twoLabels :
    let norm : ℝ × ℝ → ℝ := fun v => √(v.1 ^ 2 + v.2 ^ 2)
    let truth : List (ℝ × ℝ) := [(0, 0), (10, 0)]
    let found : List (ℝ × ℝ) := [(4, 0), (-5, 0)]
    let s := score norm (fun _ _ => bestMatching) truth found 7 [1]
    Optimal norm truth found 7 (matchMarks norm (fun _ _ => bestMatching) truth found 7) ∧
      s.tp + s.fn = (inScope truth [1]).length ∧ s.tp + s.fp + s.outOfScopePairs.length = found.length ∧
      ((attributed norm found (s.pairs ++ s.outOfScopePairs) [(-5, 1)] 7).length : ℤ) = s.fp := by
  intro norm truth found s
  obtain ⟨hoptimal, hscope, hfound, -, hcauses⟩ :=
    score_honest norm (fun _ _ graph _ => bestMatching_best graph) truth found [1] 7
  exact ⟨hoptimal, hscope, hfound, (hcauses [(-5, 1)]).2⟩

end Kanat.Scores
