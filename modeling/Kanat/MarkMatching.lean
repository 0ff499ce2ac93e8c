import Kanat.WeightedMatching
import Mathlib.Data.List.FinRange
import Mathlib.Data.List.Sort
import Mathlib.Data.Rat.Floor

/-! # Detections matched with truth (tools/evaluate.py: match)

`norm` is numpy's norm of a vector, and `maxWeightMatching` networkx's matching of the most pairs, then the most weight. -/
namespace Kanat.MarkMatching
open WeightedMatching

variable {R : Type} [Field R] [LinearOrder R]

/-- A detection or a label, by its place in its list. -/
inductive Node (n m : ℕ) where
  | found (i : Fin n)
  | truth (j : Fin m)
deriving DecidableEq

/-- What networkx documents. -/
def Correct (maxWeightMatching : (V : Type) → [DecidableEq V] → WeightedGraph V R → List (V × V)) : Prop :=
  ∀ (V : Type) [DecidableEq V] (graph : WeightedGraph V R), Simple graph → Best graph (maxWeightMatching V graph)

structure Matched (n m : ℕ) (R : Type) where
  pairs : List (Fin n × Fin m × R)
  missed : List (Fin m)

section
variable (norm : R × R → R) (maxWeightMatching : (V : Type) → [DecidableEq V] → WeightedGraph V R → List (V × V))
  (truth found : List (R × R)) (tolerance : R)

def distance (p : Fin found.length × Fin truth.length) : R := norm (truth.get p.2 - found.get p.1)

/-- The graph of the pairs in reach. -/
def reach : WeightedGraph (Node found.length truth.length) R :=
  (List.finRange found.length).flatMap fun i => (List.finRange truth.length).filterMap fun j =>
    let d := distance norm truth found (i, j)
    if d ≤ tolerance then some ((.found i, .truth j), tolerance + 1 - d) else none

/-- The pair's detection and label, whichever comes first. -/
def decode {n m : ℕ} : Node n m × Node n m → Option (Fin n × Fin m)
  | (.found i, .truth j) => some (i, j)
  | (.truth j, .found i) => some (i, j)
  | _ => none

/-- `owner[j] = i`. -/
def credit {n m : ℕ} (owner : Fin m → Option (Fin n)) (p : Fin n × Fin m) : Fin m → Option (Fin n) :=
  Function.update owner p.2 (some p.1)

/-- Tuples in Python's order. -/
def Before {n m : ℕ} (p q : Fin n × Fin m × R) : Prop := toLex (p.1, toLex p.2) ≤ toLex (q.1, toLex q.2)

instance {n m : ℕ} : DecidableRel (Before (R := R) (n := n) (m := m)) := fun _ _ => inferInstanceAs (Decidable (_ ≤ _))

def matchMarks : Matched found.length truth.length R :=
  let matching := maxWeightMatching _ (reach norm truth found tolerance)
  let owner := (matching.filterMap decode).foldl credit fun _ => none
  { pairs := ((List.finRange truth.length).filterMap fun j =>
      (owner j).map fun i => (i, j, distance norm truth found (i, j))).insertionSort Before
    missed := (List.finRange truth.length).filter fun j => owner j = none }

/-- A pairing of detections and labels one to one, none farther apart than the tolerance. -/
structure Pairing (pairs : List (Fin found.length × Fin truth.length)) : Prop where
  within : ∀ p ∈ pairs, distance norm truth found p ≤ tolerance
  found : (pairs.map Prod.fst).Nodup
  truth : (pairs.map Prod.snd).Nodup

/-- As many pairs as can be, and as near as so many can be. -/
structure Optimal (matched : Matched found.length truth.length R) : Prop where
  distances : ∀ p ∈ matched.pairs, p.2.2 = distance norm truth found (p.1, p.2.1)
  pairing : Pairing norm truth found tolerance (matched.pairs.map fun p => (p.1, p.2.1))
  most : ∀ other, Pairing norm truth found tolerance other → other.length ≤ matched.pairs.length
  least : ∀ other, Pairing norm truth found tolerance other → other.length = matched.pairs.length →
    (matched.pairs.map fun p => p.2.2).sum ≤ (other.map (distance norm truth found)).sum
  missed : matched.missed = (List.finRange truth.length).filter fun j => j ∉ matched.pairs.map fun p => p.2.1

end

variable {norm : R × R → R} {maxWeightMatching : (V : Type) → [DecidableEq V] → WeightedGraph V R → List (V × V)}
  {truth found : List (R × R)} {tolerance : R}

theorem mem_reach {e : (Node found.length truth.length × Node found.length truth.length) × R} :
    e ∈ reach norm truth found tolerance ↔ ∃ p, distance norm truth found p ≤ tolerance ∧
      e = ((.found p.1, .truth p.2), tolerance + 1 - distance norm truth found p) := by
  simp only [reach, List.mem_flatMap, List.mem_filterMap, List.mem_finRange, true_and, Option.ite_none_right_eq_some,
    Option.some.injEq, Prod.exists]
  constructor
  · rintro ⟨i, j, hle, rfl⟩
    exact ⟨i, j, hle, rfl⟩
  · rintro ⟨i, j, hle, rfl⟩
    exact ⟨i, j, hle, rfl⟩

theorem simple_reach : Simple (reach norm truth found tolerance) := by
  have hnodup := List.nodup_finRange
  refine ⟨List.pairwise_flatMap.mpr ⟨fun i _ => ?_, (hnodup found.length).imp fun {i i'} hne => ?_⟩, fun e he => ?_⟩
  · refine List.pairwise_filterMap.mpr ((hnodup truth.length).imp fun {j j'} hne e he f hf => ?_)
    simp only [Option.ite_none_right_eq_some, Option.some.injEq] at he hf
    obtain ⟨-, rfl⟩ := he
    obtain ⟨-, rfl⟩ := hf
    simp [Joins, hne.symm]
  · intro e he f hf
    simp only [List.mem_filterMap, Option.ite_none_right_eq_some, Option.some.injEq] at he hf
    obtain ⟨j, -, -, rfl⟩ := he
    obtain ⟨j', -, -, rfl⟩ := hf
    simp [Joins, hne.symm]
  · obtain ⟨p, -, rfl⟩ := mem_reach.mp he
    intro hloop
    cases hloop

def encode {n m : ℕ} (p : Fin n × Fin m) : Node n m × Node n m := (.found p.1, .truth p.2)

omit [Field R] [LinearOrder R] in
theorem decode_of_joins {w : R} {n m : ℕ} {p : Fin n × Fin m} {q : Node n m × Node n m}
    (h : Joins (encode p, w) q) : decode q = some p := by
  rcases h with rfl | rfl <;> rfl

variable {pairs other : List (Fin found.length × Fin truth.length)}

theorem matching_encode (h : Pairing norm truth found tolerance pairs) :
    Matching (reach norm truth found tolerance) (pairs.map encode) where
  edges := by
    intro p hp
    obtain ⟨q, hq, rfl⟩ := List.mem_map.mp hp
    exact ⟨_, mem_reach.mpr ⟨q, h.within q hq, rfl⟩, .inl rfl⟩
  apart := by
    have hne := (List.pairwise_map.mp h.found).and (List.pairwise_map.mp h.truth)
    refine List.pairwise_map.mpr (hne.imp fun {p q} hpq => ⟨?_, nofun, nofun, ?_⟩)
    · exact fun heq => hpq.1 (Node.found.inj heq)
    · exact fun heq => hpq.2 (Node.truth.inj heq)

variable {matching : List (Node found.length truth.length × Node found.length truth.length)}

theorem exists_decode (h : Matching (reach norm truth found tolerance) matching) :
    ∀ p ∈ matching, ∃ q, decode p = some q ∧ distance norm truth found q ≤ tolerance := by
  intro p hp
  obtain ⟨e, he, hjoins⟩ := h.edges p hp
  obtain ⟨q, hle, rfl⟩ := mem_reach.mp he
  exact ⟨q, decode_of_joins hjoins, hle⟩

private theorem length_decode (h : Matching (reach norm truth found tolerance) matching) :
    (matching.filterMap decode).length = matching.length := by
  refine List.filterMap_length_eq_length.mpr fun p hp => ?_
  obtain ⟨q, hq, -⟩ := exists_decode h p hp
  rw [hq, Option.isSome_some]

omit [Field R] [LinearOrder R] in
/-- Pairs with no node in common have neither a detection nor a label in common. -/
theorem ne_of_apart {n m : ℕ} {p p' : Node n m × Node n m} {q q' : Fin n × Fin m} (h : Apart p p') (hq : decode p = some q)
    (hq' : decode p' = some q') : q.1 ≠ q'.1 ∧ q.2 ≠ q'.2 := by
  match p, p', hq, hq' with
  | (.found _, .truth _), (.found _, .truth _), rfl, rfl =>
    exact ⟨fun heq => h.1 (congrArg Node.found heq), fun heq => h.2.2.2 (congrArg Node.truth heq)⟩
  | (.found _, .truth _), (.truth _, .found _), rfl, rfl =>
    exact ⟨fun heq => h.2.1 (congrArg Node.found heq), fun heq => h.2.2.1 (congrArg Node.truth heq)⟩
  | (.truth _, .found _), (.found _, .truth _), rfl, rfl =>
    exact ⟨fun heq => h.2.2.1 (congrArg Node.found heq), fun heq => h.2.1 (congrArg Node.truth heq)⟩
  | (.truth _, .found _), (.truth _, .found _), rfl, rfl =>
    exact ⟨fun heq => h.2.2.2 (congrArg Node.found heq), fun heq => h.1 (congrArg Node.truth heq)⟩

theorem pairing_decode (h : Matching (reach norm truth found tolerance) matching) :
    Pairing norm truth found tolerance (matching.filterMap decode) where
  within := by
    intro q hq
    obtain ⟨p, hp, hdecode⟩ := List.mem_filterMap.mp hq
    obtain ⟨q', hq', hle⟩ := exists_decode h p hp
    rw [hdecode] at hq'
    exact Option.some.inj hq' ▸ hle
  found := List.pairwise_map.mpr (List.pairwise_filterMap.mpr
    (h.apart.imp fun hapart _ hq _ hq' => (ne_of_apart hapart hq hq').1))
  truth := List.pairwise_map.mpr (List.pairwise_filterMap.mpr
    (h.apart.imp fun hapart _ hq _ hq' => (ne_of_apart hapart hq hq').2))

omit [Field R] [LinearOrder R] in
theorem foldl_credit {n m : ℕ} {pairs : List (Fin n × Fin m)} (h : (pairs.map Prod.snd).Nodup)
    (owner : Fin m → Option (Fin n)) (i : Fin n) (j : Fin m) :
    pairs.foldl credit owner j = some i ↔ (i, j) ∈ pairs ∨ j ∉ pairs.map Prod.snd ∧ owner j = some i := by
  induction pairs generalizing owner with
  | nil => simp
  | cons p pairs ih =>
    obtain ⟨hnot, hnodup⟩ := List.nodup_cons.mp h
    rw [List.foldl_cons, ih hnodup, credit, List.map_cons, List.mem_cons, List.mem_cons, not_or]
    by_cases heq : j = p.2
    · subst heq
      have hmem : (i, p.2) ∉ pairs := fun hmem => hnot (List.mem_map.mpr ⟨_, hmem, rfl⟩)
      simp [hmem, hnot, Prod.ext_iff, eq_comm]
    · simp [heq, Prod.ext_iff]

/-- A pair as the code keeps it. -/
def paired (norm : R × R → R) (truth found : List (R × R)) (p : Fin found.length × Fin truth.length) :
    Fin found.length × Fin truth.length × R := (p.1, p.2, distance norm truth found p)

omit [LinearOrder R] in
/-- What `owner.items()` holds once every pair is credited. -/
theorem perm_items (h : (pairs.map Prod.snd).Nodup) :
    ((List.finRange truth.length).filterMap fun j =>
      (pairs.foldl credit (fun _ => none) j).map fun i => (i, j, distance norm truth found (i, j))).Perm
        (pairs.map (paired norm truth found)) := by
  refine (List.perm_ext_iff_of_nodup ?_ ?_).mpr fun q => ?_
  · refine List.pairwise_filterMap.mpr ((List.nodup_finRange _).imp fun {j j'} hne q hq q' hq' => ?_)
    obtain ⟨i, -, rfl⟩ := Option.map_eq_some_iff.mp hq
    obtain ⟨i', -, rfl⟩ := Option.map_eq_some_iff.mp hq'
    exact fun heq => hne (congrArg (fun q => q.2.1) heq)
  · refine List.pairwise_map.mpr ((List.pairwise_map.mp h).imp fun {p q} hne heq => ?_)
    exact hne (congrArg (fun q => q.2.1) heq)
  · simp only [List.mem_filterMap, List.mem_finRange, true_and, Option.map_eq_some_iff, foldl_credit h, List.mem_map,
      reduceCtorEq, and_false, or_false]
    constructor
    · rintro ⟨j, i, hmem, rfl⟩
      exact ⟨(i, j), hmem, rfl⟩
    · rintro ⟨p, hmem, rfl⟩
      exact ⟨p.2, p.1, hmem, rfl⟩

/-- What the code makes of a matching. -/
theorem matchMarks_pairs (h : Matching (reach norm truth found tolerance)
    (maxWeightMatching _ (reach norm truth found tolerance))) :
    (matchMarks norm maxWeightMatching truth found tolerance).pairs.Perm
      (((maxWeightMatching _ (reach norm truth found tolerance)).filterMap decode).map (paired norm truth found)) :=
  (List.perm_insertionSort _ _).trans (perm_items (pairing_decode h).truth)

theorem Pairing.perm (h : Pairing norm truth found tolerance pairs) (hperm : other.Perm pairs) :
    Pairing norm truth found tolerance other where
  within p hp := h.within p (hperm.subset hp)
  found := (hperm.map _).nodup_iff.mpr h.found
  truth := (hperm.map _).nodup_iff.mpr h.truth

def cost (norm : R × R → R) (truth found : List (R × R))
    (p : Node found.length truth.length × Node found.length truth.length) : R :=
  ((decode p).map (distance norm truth found)).getD 0

omit [LinearOrder R] in
private theorem sum_cost (matching : List (Node found.length truth.length × Node found.length truth.length)) :
    (matching.map (cost norm truth found)).sum = ((matching.filterMap decode).map (distance norm truth found)).sum := by
  induction matching with
  | nil => rfl
  | cons p matching ih =>
    rw [List.map_cons, List.sum_cons, ih, cost]
    cases hdecode : decode p with
    | none =>
      rw [List.filterMap_cons_none hdecode]
      exact zero_add _
    | some q =>
      rw [List.filterMap_cons_some hdecode, List.map_cons, List.sum_cons]
      rfl

private theorem weight_eq_of_joins {e : (Node found.length truth.length × Node found.length truth.length) × R}
    (he : e ∈ reach norm truth found tolerance) {p : Node found.length truth.length × Node found.length truth.length}
    (h : Joins e p) : weight (reach norm truth found tolerance) p = tolerance + 1 - cost norm truth found p := by
  rw [weight_of_mem simple_reach he h]
  obtain ⟨q, -, rfl⟩ := mem_reach.mp he
  rw [cost, decode_of_joins h]
  rfl

theorem matchMarks_optimal [IsStrictOrderedRing R] (norm : R × R → R) (hcorrect : Correct maxWeightMatching)
    (truth found : List (R × R)) (tolerance : R) :
    Optimal norm truth found tolerance (matchMarks norm maxWeightMatching truth found tolerance) := by
  have hbest := hcorrect _ (reach norm truth found tolerance) simple_reach
  have hperm := matchMarks_pairs hbest.toMatching
  have hpairing := pairing_decode hbest.toMatching
  have hlength : (matchMarks norm maxWeightMatching truth found tolerance).pairs.length =
      (maxWeightMatching _ (reach norm truth found tolerance)).length := by
    rw [hperm.length_eq, List.length_map, length_decode hbest.toMatching]
  refine ⟨fun p hp => ?_, hpairing.perm ?_, fun other hother => ?_, fun other hother hcount => ?_, ?_⟩
  · obtain ⟨q, -, rfl⟩ := List.mem_map.mp (hperm.subset hp)
    rfl
  · have hproj := hperm.map fun p => (p.1, p.2.1)
    rw [List.map_map] at hproj
    exact hproj.trans (.of_eq (List.map_id _))
  · have hmost := hbest.most _ (matching_encode hother)
    rw [List.length_map] at hmost
    exact hlength ▸ hmost
  · have hleast := hbest.least (matching_encode hother) (by rw [List.length_map, hcount, hlength])
      fun e he p => weight_eq_of_joins he
    rw [sum_cost, List.map_map] at hleast
    have hsum := (hperm.map fun p => p.2.2).sum_eq
    rw [List.map_map] at hsum
    exact hsum.trans_le hleast
  · refine List.filter_congr fun j _ => decide_eq_decide.mpr ?_
    have hlabels := hperm.map fun p => p.2.1
    rw [List.map_map] at hlabels
    rw [Option.eq_none_iff_forall_ne_some, ← not_exists, hlabels.mem_iff]
    refine not_congr ?_
    simp only [foldl_credit hpairing.truth, reduceCtorEq, and_false, or_false, List.mem_map]
    constructor
    · rintro ⟨i, hmem⟩
      exact ⟨(i, j), hmem, rfl⟩
    · rintro ⟨p, hmem, rfl⟩
      exact ⟨p.1, hmem⟩

omit [Field R] [LinearOrder R] in
theorem length_filter_notMem {n : ℕ} {places : List (Fin n)} (h : places.Nodup) :
    ((List.finRange n).filter fun i => i ∉ places).length + places.length = n := by
  have hperm : ((List.finRange n).filter fun i => i ∈ places).Perm places := by
    refine (List.perm_ext_iff_of_nodup ((List.nodup_finRange n).filter _) h).mpr fun i => ?_
    rw [List.mem_filter, decide_eq_true_iff, and_iff_right (List.mem_finRange i)]
  have hsplit := List.length_eq_length_filter_add (l := List.finRange n) fun i => decide (i ∈ places)
  rw [hperm.length_eq, List.length_finRange] at hsplit
  have hnot : (fun i => decide (i ∉ places)) = fun i => !decide (i ∈ places) := by
    funext i
    exact decide_not
  rw [hnot]
  omega

theorem Optimal.length_missed {matched : Matched found.length truth.length R}
    (h : Optimal norm truth found tolerance matched) : matched.missed.length + matched.pairs.length = truth.length := by
  have htruth := h.pairing.truth
  rw [List.map_map] at htruth
  have hlength := length_filter_notMem htruth
  rw [List.length_map] at hlength
  rw [h.missed]
  exact hlength

theorem Optimal.length_unpaired {matched : Matched found.length truth.length R}
    (h : Optimal norm truth found tolerance matched) :
    ((List.finRange found.length).filter fun i => i ∉ matched.pairs.map fun p => p.1).length + matched.pairs.length =
      found.length := by
  have hfound := h.pairing.found
  rw [List.map_map] at hfound
  have hlength := length_filter_notMem hfound
  rw [List.length_map] at hlength
  exact hlength

theorem Pairing.swap (hnorm : ∀ v, norm (-v) = norm v) (h : Pairing norm truth found tolerance pairs) :
    Pairing norm found truth tolerance (pairs.map Prod.swap) where
  within := by
    intro p hp
    obtain ⟨q, hq, rfl⟩ := List.mem_map.mp hp
    have hneg : -(truth.get q.2 - found.get q.1) = found.get q.1 - truth.get q.2 :=
      Prod.ext (neg_sub _ _) (neg_sub _ _)
    have hwithin := h.within q hq
    rw [distance, ← hnorm, hneg] at hwithin
    exact hwithin
  found := by
    rw [List.map_map]
    exact h.truth
  truth := by
    rw [List.map_map]
    exact h.found

theorem Optimal.length_le_swap (hnorm : ∀ v, norm (-v) = norm v) {matched : Matched found.length truth.length R}
    {swapped : Matched truth.length found.length R} (h : Optimal norm truth found tolerance matched)
    (hswapped : Optimal norm found truth tolerance swapped) : matched.pairs.length ≤ swapped.pairs.length := by
  have hmost := hswapped.most _ (h.pairing.swap hnorm)
  rwa [List.length_map, List.length_map] at hmost

/-- The nearest label is not the one to take where another detection has no other. -/
example : ((matchMarks (R := ℚ) (fun v => |v.1| + |v.2|) (fun _ _ => bestMatching) [(0, 0), (10, 0)] [(4, 0), (-5, 0)]
    7).pairs.map fun p => (p.1.val, p.2.1.val, p.2.2)) = [(0, 1, 6), (1, 0, 5)] := by
  decide +kernel

end Kanat.MarkMatching
