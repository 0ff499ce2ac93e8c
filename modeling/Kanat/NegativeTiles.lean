import Kanat.GreedyChoice
import Mathlib.Algebra.Order.Field.Rat
import Mathlib.Data.List.Sort
import Mathlib.Tactic.Linarith
import Mathlib.Tactic.Positivity

/-! # Tiles of ground (tools/mine_negatives.py: pick_tiles)

Origins along each axis make the grid, its tiles with ground enough the candidates, and these are picked greedily,
most ground first. The picks' properties are those of a greedy choice, and of the grid. -/
namespace Kanat.NegativeTiles
open GreedyChoice

def tilePx : ℕ := 960
def minGround : ℚ := 1 / 4

/-- Tile origins along one axis, in order. -/
def starts (length size : ℕ) : List ℕ :=
  if length ≤ size then [0]
  else
    let steps := (List.range ((length - size) / (size / 2) + 1)).map (· * (size / 2))
    if length - size ∈ steps then steps else steps ++ [length - size]

/-- A rectified canvas, a row and a column to each pixel, and whether each is ground. -/
structure Canvas (Pixel : Type) where
  width : ℕ
  height : ℕ
  pixel : ℕ → ℕ → Pixel
  ground : ℕ → ℕ → Bool

structure Tile where
  x : ℕ
  y : ℕ
  fraction : ℚ
  deriving DecidableEq

variable {Pixel : Type}

def tileWidth (canvas : Canvas Pixel) (size : ℕ) : ℕ := min size canvas.width

def tileHeight (canvas : Canvas Pixel) (size : ℕ) : ℕ := min size canvas.height

def groundFraction (canvas : Canvas Pixel) (size x y : ℕ) : ℚ :=
  ((List.range (tileHeight canvas size)).map fun j =>
    (List.range (tileWidth canvas size)).countP fun i => canvas.ground (y + j) (x + i)).sum /
      ((tileWidth canvas size * tileHeight canvas size : ℕ) : ℚ)

def grid (canvas : Canvas Pixel) (size : ℕ) : List Tile :=
  (starts canvas.height size).flatMap fun y =>
    (starts canvas.width size).map fun x => ⟨x, y, groundFraction canvas size x y⟩

/-- Most ground first; equal ones stay in the grid's order. -/
def candidates (canvas : Canvas Pixel) (size : ℕ) : List Tile :=
  (grid canvas size).mergeSort fun s t => t.fraction ≤ s.fraction

def shared (width height : ℕ) (s t : Tile) : ℤ :=
  max 0 ((width : ℤ) - |(s.x : ℤ) - t.x|) * max 0 ((height : ℤ) - |(s.y : ℤ) - t.y|)

/-- Two tiles have more than half of one in common. -/
def halfOverlap (width height : ℕ) (s t : Tile) : Bool := (width * height : ℤ) < 2 * shared width height s t

def pick (minFraction : ℚ) (width height : ℕ) (picked : List Tile) : List Tile → List Tile
  | [] => picked
  | t :: tiles =>
    if t.fraction < minFraction then picked
    else if picked.all fun p => !halfOverlap width height t p then pick minFraction width height (picked ++ [t]) tiles
    else pick minFraction width height picked tiles

def pickTiles (canvas : Canvas Pixel) (size : ℕ) (minFraction : ℚ) : List Tile :=
  pick minFraction (tileWidth canvas size) (tileHeight canvas size) [] (candidates canvas size)

section

variable {length size x y width height : ℕ} {minFraction : ℚ} {canvas : Canvas Pixel} {s t : Tile}
  {picked tiles : List Tile}

theorem mem_starts (h : size < length) :
    x ∈ starts length size ↔ x = length - size ∨ ∃ k ≤ (length - size) / (size / 2), k * (size / 2) = x := by
  have hsteps : ∀ x, x ∈ (List.range ((length - size) / (size / 2) + 1)).map (· * (size / 2)) ↔
      ∃ k ≤ (length - size) / (size / 2), k * (size / 2) = x := fun x => by
    simp only [List.mem_map, List.mem_range, Nat.lt_add_one_iff]
  rw [starts, if_neg (by omega)]
  dsimp only
  split_ifs with hlast
  · rw [hsteps]
    exact ⟨.inr, by rintro (rfl | hx); exacts [(hsteps _).mp hlast, hx]⟩
  · rw [List.mem_append, hsteps, List.mem_singleton, or_comm]

/-- A tile lies within its axis. -/
theorem add_le_of_mem_starts (h : x ∈ starts length size) : x + min size length ≤ length := by
  by_cases hsize : size < length
  · rw [min_eq_left hsize.le]
    rcases (mem_starts hsize).mp h with rfl | ⟨k, hk, rfl⟩
    · omega
    · have hle : k * (size / 2) ≤ length - size := (Nat.mul_le_mul_right _ hk).trans (Nat.div_mul_le_self _ _)
      omega
  · rw [starts, if_pos (by omega), List.mem_singleton] at h
    omega

/-- Every place of the axis is in a tile. -/
theorem exists_start (hsize : 2 ≤ size) {place : ℕ} (hplace : place < length) :
    ∃ x ∈ starts length size, x ≤ place ∧ place < x + min size length := by
  by_cases hlong : size < length
  · rw [min_eq_left hlong.le]
    by_cases hlast : length - size ≤ place
    · exact ⟨length - size, (mem_starts hlong).mpr (.inl rfl), hlast, by omega⟩
    · have hmod := Nat.mod_lt place (by omega : 0 < size / 2)
      have hdiv := Nat.div_add_mod' place (size / 2)
      have hk : place / (size / 2) ≤ (length - size) / (size / 2) := Nat.div_le_div_right (by omega)
      exact ⟨place / (size / 2) * (size / 2), (mem_starts hlong).mpr (.inr ⟨_, hk, rfl⟩), by omega, by omega⟩
  · rw [starts, if_pos (by omega), min_eq_right (by omega)]
    exact ⟨0, List.mem_singleton_self 0, by omega, by omega⟩

theorem mem_candidates : t ∈ candidates canvas size ↔ t.x ∈ starts canvas.width size ∧
    t.y ∈ starts canvas.height size ∧ t.fraction = groundFraction canvas size t.x t.y := by
  rw [candidates, List.mem_mergeSort, grid, List.mem_flatMap]
  constructor
  · rintro ⟨y, hy, ht⟩
    obtain ⟨x, hx, rfl⟩ := List.mem_map.mp ht
    exact ⟨hx, hy, rfl⟩
  · rintro ⟨hx, hy, hfraction⟩
    exact ⟨t.y, hy, List.mem_map.mpr ⟨t.x, hx, by rw [← hfraction]⟩⟩

theorem candidates_pairwise (canvas : Canvas Pixel) (size : ℕ) :
    (candidates canvas size).Pairwise fun s t => t.fraction ≤ s.fraction := by
  have hsorted : (candidates canvas size).Pairwise fun s t => (t.fraction ≤ s.fraction : Bool) :=
    List.pairwise_mergeSort (fun a b c hab hbc => by simp only [decide_eq_true_eq] at *; exact hbc.trans hab)
      (fun a b => by simpa using le_total b.fraction a.fraction) (grid canvas size)
  exact hsorted.imp fun h => of_decide_eq_true h

/-- The picks are greedy choices of the candidates with ground enough. -/
theorem pick_eq_choose (picked : List Tile) (hsorted : tiles.Pairwise fun s t => t.fraction ≤ s.fraction) :
    pick minFraction width height picked tiles =
      choose (halfOverlap width height) picked (tiles.filter (minFraction ≤ ·.fraction)) := by
  induction tiles generalizing picked with
  | nil => rfl
  | cons t tiles ih =>
    obtain ⟨ht, hrest⟩ := List.pairwise_cons.mp hsorted
    rw [pick]
    by_cases hfew : t.fraction < minFraction
    · have hnone : (t :: tiles).filter (minFraction ≤ ·.fraction) = [] := by
        refine List.filter_eq_nil_iff.mpr fun s hs => ?_
        rcases List.mem_cons.mp hs with rfl | hs
        · simpa using hfew
        · simpa using (ht s hs).trans_lt hfew
      rw [if_pos hfew, hnone]
      rfl
    · rw [if_neg hfew, List.filter_cons_of_pos (by simpa using hfew), choose]
      by_cases hclash : picked.any (halfOverlap width height t)
      · have hall : (picked.all fun p => !halfOverlap width height t p) = false := by
          rw [List.all_eq_not_any_not]
          simpa using hclash
        rw [if_pos hclash, hall, ih picked hrest]
        rfl
      · have hall : (picked.all fun p => !halfOverlap width height t p) = true := by
          rw [List.all_eq_not_any_not]
          simpa using hclash
        rw [if_neg hclash, hall, if_pos rfl, ih _ hrest]

theorem pickTiles_eq (canvas : Canvas Pixel) (size : ℕ) (minFraction : ℚ) :
    pickTiles canvas size minFraction = choose (halfOverlap (tileWidth canvas size) (tileHeight canvas size)) []
      ((candidates canvas size).filter (minFraction ≤ ·.fraction)) :=
  pick_eq_choose [] (candidates_pairwise canvas size)

theorem mem_pickTiles (h : t ∈ pickTiles canvas size minFraction) :
    t ∈ candidates canvas size ∧ minFraction ≤ t.fraction := by
  rw [pickTiles_eq] at h
  obtain ⟨more, heq, hsub⟩ := choose_eq_append [] ((candidates canvas size).filter (minFraction ≤ ·.fraction))
  rw [heq, List.nil_append] at h
  obtain ⟨hmem, hfraction⟩ := List.mem_filter.mp (hsub.subset h)
  exact ⟨hmem, of_decide_eq_true hfraction⟩

theorem pickTiles_pairwise (canvas : Canvas Pixel) (size : ℕ) (minFraction : ℚ) :
    (pickTiles canvas size minFraction).Pairwise fun s t =>
      t.fraction ≤ s.fraction ∧ ¬halfOverlap (tileWidth canvas size) (tileHeight canvas size) t s := by
  rw [pickTiles_eq]
  refine List.Pairwise.and ?_ (choose_pairwise List.Pairwise.nil _)
  obtain ⟨more, heq, hsub⟩ := choose_eq_append [] ((candidates canvas size).filter (minFraction ≤ ·.fraction))
  rw [heq, List.nil_append]
  exact ((candidates_pairwise canvas size).filter _).sublist hsub

private theorem tile_pos {x y : ℕ} (h : 0 < groundFraction canvas size x y) :
    0 < tileWidth canvas size ∧ 0 < tileHeight canvas size := by
  by_contra hnone
  have harea : tileWidth canvas size * tileHeight canvas size = 0 := by
    rw [not_and_or, not_lt, not_lt, Nat.le_zero, Nat.le_zero] at hnone
    exact Nat.mul_eq_zero.mpr hnone
  rw [groundFraction, harea, Nat.cast_zero, div_zero] at h
  exact lt_irrefl 0 h

private theorem halfOverlap_same (hwidth : 0 < width) (hheight : 0 < height) (hx : s.x = t.x) (hy : s.y = t.y) :
    halfOverlap width height t s := by
  have hpos : (0 : ℤ) < width * height := by positivity
  have hshared : shared width height t s = width * height := by
    rw [shared, hx, hy, sub_self, sub_self, abs_zero, sub_zero, sub_zero, max_eq_right (by positivity),
      max_eq_right (by positivity)]
  rw [halfOverlap, hshared]
  exact decide_eq_true (by linarith)

/-- Two picks are not in one place. -/
theorem picks_apart (canvas : Canvas Pixel) (size : ℕ) (hmin : 0 < minFraction) :
    (pickTiles canvas size minFraction).Pairwise fun s t => ¬(s.x = t.x ∧ s.y = t.y) := by
  refine (pickTiles_pairwise canvas size minFraction).imp_of_mem fun {s t} _ ht hapart hplace => hapart.2 ?_
  obtain ⟨hmem, hfraction⟩ := mem_pickTiles ht
  rw [(mem_candidates.mp hmem).2.2] at hfraction
  obtain ⟨hwidth, hheight⟩ := tile_pos (hmin.trans_le hfraction)
  exact halfOverlap_same hwidth hheight hplace.1 hplace.2

/-- The picks of any canvas: each lies within it, with ground enough, and none shares more than half with another. A
grid's tile with ground enough that is not picked shares more than half with one that has as much; and the grid's
tiles are all over the canvas. -/
theorem picks_cover (canvas : Canvas Pixel) {size : ℕ} (hsize : 2 ≤ size) (minFraction : ℚ) :
    let picks := pickTiles canvas size minFraction
    let width := tileWidth canvas size
    let height := tileHeight canvas size
    (∀ t ∈ picks, minFraction ≤ t.fraction ∧ t.fraction = groundFraction canvas size t.x t.y ∧
      t.x + width ≤ canvas.width ∧ t.y + height ≤ canvas.height) ∧
    picks.Pairwise (fun s t => t.fraction ≤ s.fraction ∧ ¬halfOverlap width height t s) ∧
    (∀ t ∈ grid canvas size, minFraction ≤ t.fraction →
      t ∈ picks ∨ ∃ s ∈ picks, halfOverlap width height t s ∧ t.fraction ≤ s.fraction) ∧
    ∀ x < canvas.width, ∀ y < canvas.height, ∃ t ∈ grid canvas size,
      t.x ≤ x ∧ x < t.x + width ∧ t.y ≤ y ∧ y < t.y + height := by
  refine ⟨fun t ht => ?_, pickTiles_pairwise canvas size minFraction, fun t ht hfraction => ?_, fun x hx y hy => ?_⟩
  · obtain ⟨hmem, hfraction⟩ := mem_pickTiles ht
    obtain ⟨hx, hy, hground⟩ := mem_candidates.mp hmem
    exact ⟨hfraction, hground, add_le_of_mem_starts hx, add_le_of_mem_starts hy⟩
  · rw [pickTiles_eq]
    have hmem : t ∈ (candidates canvas size).filter (minFraction ≤ ·.fraction) :=
      List.mem_filter.mpr ⟨List.mem_mergeSort.mpr ht, decide_eq_true hfraction⟩
    exact choose_maximal nofun ((candidates_pairwise canvas size).filter _) hmem
  · obtain ⟨s, hs, hsx⟩ := exists_start hsize hx
    obtain ⟨r, hr, hry⟩ := exists_start hsize hy
    have hmem : ⟨s, r, groundFraction canvas size s r⟩ ∈ grid canvas size :=
      List.mem_mergeSort.mp (mem_candidates.mpr ⟨hs, hr, rfl⟩)
    exact ⟨_, hmem, hsx.1, hsx.2, hry.1, hry.2⟩

/-- The tile flush with the end shares three columns of four with the first. -/
theorem picks_cover_fiveColumns :
    let canvas : Canvas Unit := ⟨5, 4, fun _ _ => (), fun _ x => x < 4⟩
    ∀ t ∈ grid canvas 4, minGround ≤ t.fraction → t ∈ pickTiles canvas 4 minGround ∨
      ∃ s ∈ pickTiles canvas 4 minGround, halfOverlap 4 4 t s ∧ t.fraction ≤ s.fraction := by
  intro canvas
  exact (picks_cover canvas (by decide : 2 ≤ 4) minGround).2.2.1

end

end Kanat.NegativeTiles
