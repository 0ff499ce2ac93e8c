import Kanat.Numerals
import Mathlib.Algebra.BigOperators.Group.List.Basic
import Mathlib.Algebra.Order.Field.Basic
import Mathlib.Data.List.MinMax
import Mathlib.Data.List.Sublists
import Mathlib.Data.Prod.Lex
import Mathlib.Tactic.Linarith
import Mathlib.Tactic.Ring

/-! # Matchings of the most pairs, and among them of the most weight

A graph is the list of its edges with their weights, an edge taken either way round. -/
namespace Kanat.WeightedMatching

variable {V R : Type} [DecidableEq V]

abbrev WeightedGraph (V R : Type) := List ((V × V) × R)

def Joins (e : (V × V) × R) (p : V × V) : Prop := p = e.1 ∨ p = e.1.swap

instance (e : (V × V) × R) (p : V × V) : Decidable (Joins e p) := inferInstanceAs (Decidable (_ ∨ _))

/-- No two edges join the same two vertices, and none joins one to itself. -/
structure Simple (graph : WeightedGraph V R) : Prop where
  once : graph.Pairwise fun e f => ¬ Joins e f.1
  loopless : ∀ e ∈ graph, e.1.1 ≠ e.1.2

/-- The two pairs have no vertex in common. -/
def Apart (p q : V × V) : Prop := p.1 ≠ q.1 ∧ p.1 ≠ q.2 ∧ p.2 ≠ q.1 ∧ p.2 ≠ q.2

instance (p q : V × V) : Decidable (Apart p q) := inferInstanceAs (Decidable (_ ∧ _))

structure Matching (graph : WeightedGraph V R) (pairs : List (V × V)) : Prop where
  edges : ∀ p ∈ pairs, ∃ e ∈ graph, Joins e p
  apart : pairs.Pairwise Apart

section
variable [Zero R]

/-- The weight of the first edge that joins the pair. -/
def weight (graph : WeightedGraph V R) (p : V × V) : R := ((graph.find? (Joins · p)).map (·.2)).getD 0

variable [Add R]

def total (graph : WeightedGraph V R) (pairs : List (V × V)) : R := (pairs.map (weight graph)).sum

/-- No matching has more pairs, and none of as many has more weight. -/
structure Best [LE R] (graph : WeightedGraph V R) (pairs : List (V × V)) : Prop extends Matching graph pairs where
  most : ∀ other, Matching graph other → other.length ≤ pairs.length
  heaviest : ∀ other, Matching graph other → other.length = pairs.length → total graph other ≤ total graph pairs

end

variable {graph : WeightedGraph V R} {pairs other : List (V × V)} {p q : V × V} {e f : (V × V) × R}

omit [DecidableEq V] in
theorem joins_swap : Joins e p.swap ↔ Joins e p := by
  rw [Joins, Joins, Prod.swap_inj, Prod.swap_eq_iff_eq_swap, or_comm]

omit [DecidableEq V] in
theorem Joins.joins (he : Joins e p) (hf : Joins f p) : Joins e f.1 := by
  rcases hf with rfl | rfl
  · exact he
  · exact joins_swap.mp he

private theorem weight_swap [Zero R] : weight graph p.swap = weight graph p := by
  unfold weight
  simp only [joins_swap]

theorem weight_of_mem [Zero R] (hgraph : Simple graph) (he : e ∈ graph) (hjoins : Joins e p) : weight graph p = e.2 := by
  have honce := hgraph.once
  clear hgraph
  induction graph with
  | nil => cases he
  | cons f graph ih =>
    obtain ⟨hf, hgraph⟩ := List.pairwise_cons.mp honce
    rcases List.mem_cons.mp he with rfl | he
    · unfold weight
      rw [List.find?_cons, decide_eq_true hjoins]
      rfl
    · have hnot : ¬ Joins f p := fun hfp => hf e he (hfp.joins hjoins)
      unfold weight at ih ⊢
      rw [List.find?_cons, decide_eq_false hnot]
      exact ih he hgraph

section
variable [Field R] [LinearOrder R] [IsStrictOrderedRing R] {cost : V × V → R} {c : R}

omit [LinearOrder R] [IsStrictOrderedRing R] in
theorem total_eq_of_cost (h : ∀ p ∈ pairs, weight graph p = c - cost p) :
    total graph pairs = pairs.length * c - (pairs.map cost).sum := by
  unfold total
  induction pairs with
  | nil => simp
  | cons p pairs ih =>
    rw [List.map_cons, List.sum_cons, h p List.mem_cons_self, ih fun q hq => h q (List.mem_cons_of_mem _ hq),
      List.map_cons, List.sum_cons, List.length_cons]
    push_cast
    ring

/-- With each edge weighing a constant less its cost, no matching of as many pairs costs less than the best. -/
theorem Best.least (h : Best graph pairs) (hother : Matching graph other) (hlength : other.length = pairs.length)
    (hcost : ∀ e ∈ graph, ∀ p, Joins e p → weight graph p = c - cost p) :
    (pairs.map cost).sum ≤ (other.map cost).sum := by
  have hweight : ∀ {list : List (V × V)}, Matching graph list → ∀ p ∈ list, weight graph p = c - cost p := by
    intro list hlist p hp
    obtain ⟨e, he, hjoins⟩ := hlist.edges p hp
    exact hcost e he p hjoins
  have hle := h.heaviest other hother hlength
  rw [total_eq_of_cost (hweight hother), total_eq_of_cost (hweight h.toMatching), hlength] at hle
  linarith

end

omit [DecidableEq V] in
private theorem apart_symm (h : Apart p q) : Apart q p := ⟨h.1.symm, h.2.2.1.symm, h.2.1.symm, h.2.2.2.symm⟩

/-- The pair the way round its edge has it. -/
def orient (graph : WeightedGraph V R) (p : V × V) : V × V := if p ∈ graph.map Prod.fst then p else p.swap

theorem orient_cases (graph : WeightedGraph V R) (p : V × V) : orient graph p = p ∨ orient graph p = p.swap := by
  unfold orient
  split_ifs
  · exact .inl rfl
  · exact .inr rfl

private theorem weight_orient [Zero R] (p : V × V) : weight graph (orient graph p) = weight graph p := by
  rcases orient_cases graph p with h | h
  · rw [h]
  · rw [h, weight_swap]

private theorem apart_orient (h : Apart p q) : Apart (orient graph p) (orient graph q) := by
  obtain ⟨h₁, h₂, h₃, h₄⟩ := h
  rcases orient_cases graph p with hp | hp <;> rcases orient_cases graph q with hq | hq <;> rw [hp, hq]
  · exact ⟨h₁, h₂, h₃, h₄⟩
  · exact ⟨h₂, h₁, h₄, h₃⟩
  · exact ⟨h₃, h₄, h₁, h₂⟩
  · exact ⟨h₄, h₃, h₂, h₁⟩

private theorem orient_mem (h : ∃ e ∈ graph, Joins e p) : orient graph p ∈ graph.map Prod.fst := by
  unfold orient
  split_ifs with hmem
  · exact hmem
  · obtain ⟨e, he, rfl | rfl⟩ := h
    · exact absurd (List.mem_map_of_mem he) hmem
    · exact List.mem_map_of_mem he

section
variable [Field R] [LinearOrder R]

def candidates (graph : WeightedGraph V R) : List (List (V × V)) :=
  (graph.map Prod.fst).sublists.filter fun pairs => pairs.Pairwise Apart

def rank (graph : WeightedGraph V R) (pairs : List (V × V)) : ℕ ×ₗ R := toLex (pairs.length, total graph pairs)

def bestMatching (graph : WeightedGraph V R) : List (V × V) := ((candidates graph).argmax (rank graph)).getD []

omit [LinearOrder R] [Field R] in
private theorem matching_of_mem_candidates (h : pairs ∈ candidates graph) : Matching graph pairs := by
  obtain ⟨hsublist, hapart⟩ := List.mem_filter.mp h
  refine ⟨fun p hp => ?_, of_decide_eq_true hapart⟩
  obtain ⟨e, he, rfl⟩ := List.mem_map.mp ((List.mem_sublists.mp hsublist).subset hp)
  exact ⟨e, he, .inl rfl⟩

omit [LinearOrder R] in
private theorem exists_candidate (h : Matching graph other) :
    ∃ pairs ∈ candidates graph, pairs.length = other.length ∧ total graph pairs = total graph other := by
  have hapart : (other.map (orient graph)).Pairwise Apart := List.pairwise_map.mpr (h.apart.imp apart_orient)
  have hnodup : (other.map (orient graph)).Nodup := hapart.imp fun hpq heq => hpq.1 (congrArg Prod.fst heq)
  have hsubset : other.map (orient graph) ⊆ graph.map Prod.fst := by
    intro p hp
    obtain ⟨q, hq, rfl⟩ := List.mem_map.mp hp
    exact orient_mem (h.edges q hq)
  obtain ⟨pairs, hperm, hsublist⟩ := List.subperm_of_subset hnodup hsubset
  refine ⟨pairs, List.mem_filter.mpr ⟨List.mem_sublists.mpr hsublist, decide_eq_true ?_⟩, ?_, ?_⟩
  · exact (hperm.pairwise_iff apart_symm).mpr hapart
  · rw [hperm.length_eq, List.length_map]
  · rw [total, (hperm.map (weight graph)).sum_eq, List.map_map]
    exact congrArg List.sum (List.map_congr_left fun p _ => weight_orient p)

theorem bestMatching_best (graph : WeightedGraph V R) : Best graph (bestMatching graph) := by
  have hnil : [] ∈ candidates graph :=
    List.mem_filter.mpr ⟨List.mem_sublists.mpr (List.nil_sublist _), decide_eq_true .nil⟩
  unfold bestMatching
  cases hbest : (candidates graph).argmax (rank graph) with
  | none =>
    rw [List.argmax_eq_none.mp hbest] at hnil
    cases hnil
  | some best =>
    have hle : ∀ other, Matching graph other → rank graph other ≤ rank graph best := by
      intro other hother
      obtain ⟨pairs, hpairs, hlength, htotal⟩ := exists_candidate hother
      have hrank : rank graph other = rank graph pairs := by rw [rank, rank, hlength, htotal]
      rw [hrank]
      exact List.le_of_mem_argmax hpairs hbest
    refine ⟨matching_of_mem_candidates (List.argmax_mem hbest), fun other hother => ?_, fun other hother hlength => ?_⟩
    · rcases Prod.Lex.toLex_le_toLex.mp (hle other hother) with hlt | ⟨heq, -⟩
      · exact hlt.le
      · exact heq.le
    · rcases Prod.Lex.toLex_le_toLex.mp (hle other hother) with hlt | ⟨-, hle⟩
      · exact absurd hlength hlt.ne
      · exact hle

end

end Kanat.WeightedMatching
