import Kanat.KeyedCollections
import Kanat.SampleStatistics

/-! # Group statistics: the Detection Service's groups and the WebApp's grouping

Over exact reals. -/
namespace Kanat.Groups
open InsertionOrderDict KeyedCollections SampleStatistics
open scoped List

/-- A reported Bullet Hole: on a Target, with its millimetres from that Target's centre, or a Miss with neither. -/
structure BulletHole where
  target : Option ℤ
  mm : Option Point
  positioned : target.isSome = mm.isSome

noncomputable section

namespace Detection

structure Stats where
  n : ℕ
  mpi : Point
  cep : Option ℝ
  meanRadius : Option ℝ
  rmsRadius : Option ℝ
  extremeSpread : Option ℝ

def group (pts : List Point) : Stats :=
  let n := pts.length
  let mpi := ((pts.map Prod.fst).sum / n, (pts.map Prod.snd).sum / n)
  let stats : Stats := ⟨n, mpi, none, none, none, none⟩
  if 2 ≤ n then
    let r := pts.map fun p => distance p mpi
    { stats with
      cep := some (median r), meanRadius := some (mean r), rmsRadius := some (√(mean (r.map fun d => d * d))),
      extremeSpread := some (greatest ((pairs pts).map fun p => distance p.1 p.2)) }
  else stats

/-- What is in the dictionary after one more hole. -/
def addHole (byTarget : Dict ℤ (List Point)) (hole : BulletHole) : Dict ℤ (List Point) :=
  if h : hole.target.isSome then add byTarget (hole.target.get h, hole.mm.get (hole.positioned ▸ h)) else byTarget

def groups (holes : List BulletHole) : Dict ℤ Stats × ℕ :=
  let byTarget := holes.foldl addHole []
  let misses := holes.countP fun hole => hole.target = none
  ((sorted byTarget).map fun entry => (entry.1, group entry.2), misses)

end Detection

namespace WebApp

inductive Source | model | manual deriving DecidableEq

/-- A row of the Session's Bullet Holes. -/
structure Row where
  targetIndex : Option ℤ
  xMm : Option ℝ
  yMm : Option ℝ
  source : Source

structure Group where
  targetIndex : ℤ
  n : ℕ
  mpiXMm : ℝ
  mpiYMm : ℝ
  cepMm : Option ℝ := none
  meanRadiusMm : Option ℝ := none
  rmsRadiusMm : Option ℝ := none
  extremeSpreadMm : Option ℝ := none

structure Grouping where
  groups : List Group
  misses : ℕ
  withoutPosition : ℕ

def group (targetIndex : ℤ) (pts : List Point) : Group :=
  let n := pts.length
  let mpi := ((pts.map Prod.fst).sum / n, (pts.map Prod.snd).sum / n)
  let group : Group := { targetIndex, n, mpiXMm := mpi.1, mpiYMm := mpi.2 }
  if 2 ≤ n then
    let r := pts.map fun p => distance p mpi
    { group with
      cepMm := some (median r), meanRadiusMm := some (mean r), rmsRadiusMm := some (√(mean (r.map fun d => d * d))),
      extremeSpreadMm := some (greatest ((pairs pts).map fun p => distance p.1 p.2)) }
  else group

/-- The loop's three variables. -/
structure Tally where
  byTarget : Dict ℤ (List Point)
  misses : ℕ
  withoutPosition : ℕ

def tally (acc : Tally) (hole : Row) : Tally :=
  match hole.targetIndex, hole.xMm, hole.yMm with
  | some t, some x, some y => { acc with byTarget := add acc.byTarget (t, (x, y)) }
  | none, _, _ =>
    if hole.source = .model then { acc with misses := acc.misses + 1 }
    else { acc with withoutPosition := acc.withoutPosition + 1 }
  | some _, _, _ => { acc with withoutPosition := acc.withoutPosition + 1 }

def grouping (holes : List Row) : Grouping :=
  let acc := holes.foldl tally ⟨[], 0, 0⟩
  ⟨(sorted acc.byTarget).map fun entry => group entry.1 entry.2, acc.misses, acc.withoutPosition⟩

end WebApp

/-- The row a detected Bullet Hole is recorded as. -/
def BulletHole.row (hole : BulletHole) : WebApp.Row :=
  ⟨hole.target, hole.mm.map Prod.fst, hole.mm.map Prod.snd, .model⟩

/-- The hole, elsewhere on its Target. -/
def BulletHole.translated (v : Point) (hole : BulletHole) : BulletHole :=
  ⟨hole.target, hole.mm.map (shift v), by rw [Option.isSome_map]; exact hole.positioned⟩

def Detection.Stats.translated (v : Point) (stats : Detection.Stats) : Detection.Stats :=
  { stats with mpi := shift v stats.mpi }

/-- A Target's statistics as the WebApp shows them. -/
def Detection.Stats.shown (t : ℤ) (stats : Detection.Stats) : WebApp.Group :=
  ⟨t, stats.n, stats.mpi.1, stats.mpi.2, stats.cep, stats.meanRadius, stats.rmsRadius, stats.extremeSpread⟩

/-- Its Target and its millimetres there. -/
def BulletHole.place (hole : BulletHole) : Option (ℤ × Point) :=
  if h : hole.target.isSome then some (hole.target.get h, hole.mm.get (hole.positioned ▸ h)) else none

def places (holes : List BulletHole) : List (ℤ × Point) := holes.filterMap BulletHole.place

variable {holes holes' : List BulletHole} {hole : BulletHole} {t : ℤ} {p v : Point} {pts pts' : List Point}

theorem BulletHole.cases (hole : BulletHole) :
    (∃ t p, hole.target = some t ∧ hole.mm = some p ∧ hole.place = some (t, p)) ∨
      hole.target = none ∧ hole.mm = none ∧ hole.place = none := by
  obtain ⟨target, mm, h⟩ := hole
  cases target with
  | some t =>
    cases mm with
    | some p => exact .inl ⟨t, p, rfl, rfl, rfl⟩
    | none => cases h
  | none =>
    cases mm with
    | some p => cases h
    | none => exact .inr ⟨rfl, rfl, rfl⟩

private theorem addHole_eq (d : Dict ℤ (List Point)) (hole : BulletHole) :
    Detection.addHole d hole = hole.place.elim d (add d) := by
  rw [Detection.addHole, BulletHole.place]
  split <;> rfl

private theorem foldl_addHole (holes : List BulletHole) (d : Dict ℤ (List Point)) :
    holes.foldl Detection.addHole d = (places holes).foldl add d := by
  induction holes generalizing d with
  | nil => rfl
  | cons hole holes ih =>
    rw [List.foldl_cons, ih, addHole_eq, places, places, List.filterMap_cons]
    cases hole.place with
    | none => rfl
    | some entry => rfl

private theorem tally_row (acc : WebApp.Tally) (hole : BulletHole) :
    WebApp.tally acc hole.row = ⟨hole.place.elim acc.byTarget (add acc.byTarget),
      acc.misses + (if hole.target = none then 1 else 0), acc.withoutPosition⟩ := by
  rcases hole.cases with ⟨t, p, ht, hm, hp⟩ | ⟨ht, hm, hp⟩
  · simp [WebApp.tally, BulletHole.row, ht, hm, hp]
  · simp [WebApp.tally, BulletHole.row, ht, hm, hp]

private theorem foldl_tally (holes : List BulletHole) (acc : WebApp.Tally) :
    (holes.map BulletHole.row).foldl WebApp.tally acc = ⟨(places holes).foldl add acc.byTarget,
      acc.misses + holes.countP (fun hole => hole.target = none), acc.withoutPosition⟩ := by
  induction holes generalizing acc with
  | nil => rfl
  | cons hole holes ih =>
    rw [List.map_cons, List.foldl_cons, ih, tally_row, places, places, List.filterMap_cons, List.countP_cons]
    cases hole.place with
    | none => simp [Nat.add_assoc, Nat.add_comm]
    | some entry => simp [Nat.add_assoc, Nat.add_comm]

/-- Every Target with a hole, in order, with the statistics of its holes. -/
theorem groups_eq (holes : List BulletHole) :
    Detection.groups holes = ((keysOf (places holes)).map fun t => (t, Detection.group (valuesOf t (places holes))),
      holes.countP fun hole => hole.target = none) := by
  rw [Detection.groups, foldl_addHole]
  change ((sorted (collect _)).map _, _) = _
  rw [sorted_collect, List.map_map]
  rfl

private theorem grouping_eq (holes : List BulletHole) :
    WebApp.grouping (holes.map BulletHole.row) =
      ⟨(keysOf (places holes)).map fun t => WebApp.group t (valuesOf t (places holes)),
        holes.countP fun hole => hole.target = none, 0⟩ := by
  rw [WebApp.grouping, foldl_tally]
  change WebApp.Grouping.mk ((sorted (collect _)).map _) _ _ = _
  rw [sorted_collect, List.map_map, Nat.zero_add]
  rfl

/-- Below two holes there is no spread. -/
def ofTwo (pts : List Point) (x : ℝ) : Option ℝ := if 2 ≤ pts.length then some x else none

theorem group_eq (pts : List Point) :
    Detection.group pts = ⟨pts.length, centroid pts, ofTwo pts (median (distances pts)), ofTwo pts (mean (distances pts)),
      ofTwo pts (√(mean ((distances pts).map fun d => d * d))), ofTwo pts (extreme pts)⟩ := by
  have hc : centroid pts = ((pts.map Prod.fst).sum / pts.length, (pts.map Prod.snd).sum / pts.length) := by
    rw [centroid, mean, mean, List.length_map, List.length_map]
  by_cases h : 2 ≤ pts.length
  · simp only [Detection.group, ofTwo, if_pos h, distances, extreme, hc]
  · simp only [Detection.group, ofTwo, if_neg h, hc]

private theorem group_shown (t : ℤ) (pts : List Point) : WebApp.group t pts = (Detection.group pts).shown t := by
  by_cases h : 2 ≤ pts.length
  · simp only [WebApp.group, Detection.group, if_pos h, Detection.Stats.shown]
  · simp only [WebApp.group, Detection.group, if_neg h, Detection.Stats.shown]

private theorem group_perm (h : pts ~ pts') : Detection.group pts = Detection.group pts' := by
  have hd := distances_perm h
  simp only [group_eq, ofTwo, h.length_eq, centroid_perm h, median_perm hd, mean_perm hd, mean_perm (hd.map _),
    extreme_perm h]

private theorem group_shift (h : pts ≠ []) (v : Point) :
    Detection.group (pts.map (shift v)) = (Detection.group pts).translated v := by
  simp only [group_eq, ofTwo, List.length_map, centroid_shift h, distances_shift h, extreme_shift,
    Detection.Stats.translated]

private theorem mem_keysOf_places : t ∈ keysOf (places holes) ↔ ∃ hole ∈ holes, hole.target = some t := by
  rw [mem_keysOf, List.mem_map]
  constructor
  · rintro ⟨entry, he, rfl⟩
    obtain ⟨hole, hm, hp⟩ := List.mem_filterMap.mp he
    rcases hole.cases with ⟨t, p, ht, -, hp'⟩ | ⟨-, -, hp'⟩
    · obtain rfl := Option.some.inj (hp.symm.trans hp')
      exact ⟨hole, hm, ht⟩
    · cases hp.symm.trans hp'
  · rintro ⟨hole, hm, ht⟩
    rcases hole.cases with ⟨t', p, ht', -, hp⟩ | ⟨ht', -, -⟩
    · obtain rfl := Option.some.inj (ht.symm.trans ht')
      exact ⟨(t, p), List.mem_filterMap.mpr ⟨hole, hm, hp⟩, rfl⟩
    · cases ht.symm.trans ht'

private theorem length_valuesOf_places (t : ℤ) (holes : List BulletHole) :
    (valuesOf t (places holes)).length = holes.countP fun hole => hole.target = some t := by
  induction holes with
  | nil => rfl
  | cons hole holes ih =>
    rw [length_valuesOf, places] at ih ⊢
    rw [List.countP_cons, ← ih, List.filterMap_cons]
    rcases hole.cases with ⟨t', p, ht, -, hp⟩ | ⟨ht, -, hp⟩
    · simp [ht, hp, List.countP_cons]
    · simp [ht, hp]

private theorem length_places (holes : List BulletHole) :
    (places holes).length + holes.countP (fun hole => hole.target = none) = holes.length := by
  induction holes with
  | nil => rfl
  | cons hole holes ih =>
    rw [places] at ih ⊢
    rw [List.countP_cons, List.filterMap_cons, List.length_cons, ← ih]
    rcases hole.cases with ⟨t, p, ht, -, hp⟩ | ⟨ht, -, hp⟩
    · simp [ht, hp, Nat.add_right_comm]
    · simp [ht, hp, Nat.add_assoc]

def move (t : ℤ) (v : Point) (hole : BulletHole) : BulletHole :=
  if hole.target = some t then hole.translated v else hole

private theorem target_move (t : ℤ) (v : Point) (hole : BulletHole) : (move t v hole).target = hole.target := by
  rw [move]
  split <;> rfl

private theorem place_move (t : ℤ) (v : Point) (hole : BulletHole) :
    (move t v hole).place = hole.place.map fun entry => (entry.1, if entry.1 = t then shift v entry.2 else entry.2) := by
  obtain ⟨target, mm, h⟩ := hole
  cases target with
  | none =>
    cases mm with
    | none => simp [move, BulletHole.place]
    | some p => cases h
  | some t' =>
    cases mm with
    | none => cases h
    | some p =>
      by_cases ht : t' = t
      · subst ht
        simp [move, BulletHole.translated, BulletHole.place]
      · simp [move, BulletHole.place, ht]

theorem places_move (t : ℤ) (v : Point) (holes : List BulletHole) :
    places (holes.map (move t v)) =
      (places holes).map fun entry => (entry.1, if entry.1 = t then shift v entry.2 else entry.2) := by
  rw [places, List.filterMap_map, places, List.map_filterMap]
  exact List.filterMap_congr fun hole _ => place_move t v hole

private theorem group_move (t : ℤ) (v : Point) {t' : ℤ} (h : t' ∈ keysOf (places holes)) :
    Detection.group (valuesOf t' (places (holes.map (move t v)))) =
      if t' = t then (Detection.group (valuesOf t' (places holes))).translated v
      else Detection.group (valuesOf t' (places holes)) := by
  have hne : valuesOf t' (places holes) ≠ [] := fun hn => valuesOf_eq_nil.mp hn (mem_keysOf.mp h)
  rw [places_move, valuesOf_map fun entry : ℤ × Point => if entry.1 = t then shift v entry.2 else entry.2]
  by_cases ht : t' = t
  · simp only [if_pos ht]
    exact group_shift hne v
  · simp only [if_neg ht, List.map_id']

private theorem groups_move (t : ℤ) (v : Point) (holes : List BulletHole) :
    Detection.groups (holes.map (move t v)) =
      ((Detection.groups holes).1.map fun entry => (entry.1, if entry.1 = t then entry.2.translated v else entry.2),
        (Detection.groups holes).2) := by
  have hk : keysOf (places (holes.map (move t v))) = keysOf (places holes) := by
    refine keysOf_congr fun k => ?_
    rw [places_move, List.map_map]
    rfl
  have hm : ((holes.map (move t v)).countP fun hole => hole.target = none) = holes.countP fun hole => hole.target = none := by
    rw [List.countP_map]
    exact List.countP_congr fun hole _ => by simp [target_move]
  rw [groups_eq, groups_eq, hk, hm, List.map_map]
  refine Prod.ext (List.map_congr_left fun t' ht' => ?_) rfl
  exact Prod.ext rfl (group_move t v ht')

theorem grouping_groups (holes : List BulletHole) :
    WebApp.grouping (holes.map BulletHole.row) =
      ⟨(Detection.groups holes).1.map fun entry => entry.2.shown entry.1, (Detection.groups holes).2, 0⟩ := by
  rw [grouping_eq, groups_eq, List.map_map]
  congr 1
  exact List.map_congr_left fun t _ => group_shown t _

theorem groups_perm (h : holes ~ holes') : Detection.groups holes = Detection.groups holes' := by
  have hp : places holes ~ places holes' := h.filterMap _
  rw [groups_eq, groups_eq, keysOf_perm hp, h.countP_eq]
  simp only [group_perm (valuesOf_perm hp _)]

theorem keys_groups (holes : List BulletHole) : (Detection.groups holes).1.keys = keysOf (places holes) := by
  rw [groups_eq, Dict.keys, List.map_map]
  exact List.map_id _

/-- One Group for every Target with a hole, which counts that Target's holes; the rest are Misses. -/
theorem counted (holes : List BulletHole) :
    (Detection.groups holes).1.keys.Nodup ∧
      (∀ t, t ∈ (Detection.groups holes).1.keys ↔ ∃ hole ∈ holes, hole.target = some t) ∧
      (∀ entry ∈ (Detection.groups holes).1, entry.2.n = holes.countP fun hole => hole.target = some entry.1) ∧
      ((Detection.groups holes).2 = holes.countP fun hole => hole.target = none) ∧
      ((Detection.groups holes).1.map fun entry => entry.2.n).sum + (Detection.groups holes).2 = holes.length := by
  have hn (pts : List Point) : (Detection.group pts).n = pts.length := by rw [group_eq]
  refine ⟨?_, fun t => ?_, fun entry he => ?_, ?_, ?_⟩
  · rw [keys_groups]
    exact nodup_keysOf _
  · rw [keys_groups]
    exact mem_keysOf_places
  · rw [groups_eq] at he
    obtain ⟨t, -, rfl⟩ := List.mem_map.mp he
    exact (hn _).trans (length_valuesOf_places t holes)
  · rw [groups_eq]
  · rw [groups_eq, List.map_map]
    simp only [Function.comp_def, hn]
    rw [sum_length_valuesOf, length_places]

theorem summarised_alike (holes : List BulletHole) :
    (WebApp.grouping (holes.map BulletHole.row) =
      ⟨(Detection.groups holes).1.map fun entry => entry.2.shown entry.1, (Detection.groups holes).2, 0⟩) ∧
      (∀ holes', holes ~ holes' → Detection.groups holes = Detection.groups holes' ∧
        WebApp.grouping (holes.map BulletHole.row) = WebApp.grouping (holes'.map BulletHole.row)) ∧
      ((Detection.groups holes).1.keys.Nodup ∧
        (∀ t, t ∈ (Detection.groups holes).1.keys ↔ ∃ hole ∈ holes, hole.target = some t) ∧
        (∀ entry ∈ (Detection.groups holes).1, entry.2.n = holes.countP fun hole => hole.target = some entry.1) ∧
        ((Detection.groups holes).2 = holes.countP fun hole => hole.target = none) ∧
        ((Detection.groups holes).1.map fun entry => entry.2.n).sum + (Detection.groups holes).2 = holes.length) ∧
      ∀ t v, Detection.groups (holes.map (move t v)) =
        ((Detection.groups holes).1.map fun entry => (entry.1, if entry.1 = t then entry.2.translated v else entry.2),
          (Detection.groups holes).2) := by
  refine ⟨grouping_groups holes, fun holes' h => ⟨groups_perm h, ?_⟩, counted holes, fun t v => groups_move t v holes⟩
  rw [grouping_groups, grouping_groups, groups_perm h]

end

end Kanat.Groups
