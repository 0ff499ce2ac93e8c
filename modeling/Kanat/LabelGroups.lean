import Mathlib.Combinatorics.SimpleGraph.Connectivity.Connected
import Kanat.ExactDistance
import Kanat.GrowingSearch

/-! # The Overlay's label groups (utils/overlay.ts)

Points are in element px, a point named by its index in the list. -/
namespace Kanat.LabelGroups
open Relation ExactDistance

variable (points : List (ℚ × ℚ)) (px : ℚ)

/-- `Math.hypot(x - ox, y - oy) < px` of the points at `i` and `j`. -/
def Near (i j : Fin points.length) : Prop :=
  Shorter ((points.get i).1 - (points.get j).1) ((points.get i).2 - (points.get j).2) px

instance : DecidableRel (Near points px) := fun _ _ => inferInstanceAs (Decidable (Shorter _ _ _))

/-- `none` where some group's loop runs for more passes than there are points. -/
def labelGroups : Option (List (List (Fin points.length))) :=
  GrowingSearch.collect (List.finRange points.length) (Near points px) points.length
    (List.finRange points.length) [] []

theorem length_sub_comm (x y x' y' : ℚ) : length (x - x') (y - y') = length (x' - x) (y' - y) := by
  rw [length_eq, length_eq, sub_sq_comm x, sub_sq_comm y]

/-- The points with a link between those closer than `px`. -/
def closer : SimpleGraph (Fin points.length) where
  Adj i j := i ≠ j ∧ length ((points.get i).1 - (points.get j).1) ((points.get i).2 - (points.get j).2) < px
  symm := ⟨fun i j h => ⟨h.1.symm, by rw [length_sub_comm]; exact h.2⟩⟩
  loopless := ⟨fun _ h => h.1 rfl⟩

variable {points px} {i j : Fin points.length}

theorem near_iff :
    Near points px i j ↔ length ((points.get i).1 - (points.get j).1) ((points.get i).2 - (points.get j).2) < px := by
  rw [Near, shorter_iff, length]

private theorem near_symm (h : Near points px i j) : Near points px j i := by
  rw [near_iff] at h ⊢
  rwa [length_sub_comm]

private theorem reachable_iff : (closer points px).Reachable i j ↔ ReflTransGen (Near points px) i j := by
  rw [SimpleGraph.reachable_iff_reflTransGen]
  constructor
  · intro h
    exact ReflTransGen.mono (fun _ _ huv => near_iff.mpr huv.2) _ _ h
  · intro h
    induction h with
    | refl => exact .refl
    | @tail u v _ huv ih =>
      by_cases heq : u = v
      · exact heq ▸ ih
      · exact ih.tail ⟨heq, near_iff.mp huv⟩

/-- The groups found are the graph's connected components, each index in one group. -/
structure Components (points : List (ℚ × ℚ)) (px : ℚ) (groups : List (List (Fin points.length))) : Prop where
  component : ∀ group ∈ groups, ∃ c : (closer points px).ConnectedComponent, ∀ i, i ∈ group ↔ i ∈ c.supp
  group : ∀ c : (closer points px).ConnectedComponent, ∃ group ∈ groups, ∀ i, i ∈ group ↔ i ∈ c.supp
  apart : groups.Pairwise List.Disjoint
  increasing : ∀ group ∈ groups, group.Pairwise (· < ·)
  inOrder : groups.Pairwise fun group later => ∃ i j, group.head? = some i ∧ later.head? = some j ∧ i < j

private theorem components_of_groups {groups : List (List (Fin points.length))}
    (h : GrowingSearch.Groups (Near points px) (List.finRange points.length) groups) :
    Components points px groups := by
  have hhead : ∀ group ∈ groups, ∃ i, group.head? = some i ∧ i ∈ group := by
    intro group hgroup
    cases group with
    | nil => exact absurd hgroup h.nonempty
    | cons i rest => exact ⟨i, rfl, List.mem_cons_self⟩
  have hmem : ∀ group ∈ groups, ∀ i ∈ group, ∀ j,
      j ∈ group ↔ j ∈ ((closer points px).connectedComponentMk i).supp := by
    intro group hgroup i hi j
    rw [SimpleGraph.ConnectedComponent.mem_supp_iff, SimpleGraph.ConnectedComponent.eq, SimpleGraph.reachable_comm,
      reachable_iff]
    exact h.reached group hgroup i hi j
  refine ⟨fun group hgroup => ?_, fun c => ?_, h.apart, h.increasing, ?_⟩
  · obtain ⟨i, -, hi⟩ := hhead group hgroup
    exact ⟨(closer points px).connectedComponentMk i, hmem group hgroup i hi⟩
  · obtain ⟨i, rfl⟩ := c.exists_rep
    obtain ⟨group, hgroup, hi⟩ := (h.covers i).mp (List.mem_finRange i)
    exact ⟨group, hgroup, hmem group hgroup i hi⟩
  · refine h.inOrder.imp_of_mem fun {group later} hgroup hlater hlt => ?_
    obtain ⟨i, hi, -⟩ := hhead group hgroup
    obtain ⟨j, hj, hmem⟩ := hhead later hlater
    exact ⟨i, j, hi, hj, hlt i hi j hmem⟩

/-- A chain of three points and one apart. -/
example : labelGroups [(0, 0), (9, 0), (40, 0), (3, 4), (6, 0)] 6 = some [[0, 1, 3, 4], [2]] := by
  decide +kernel

end Kanat.LabelGroups
