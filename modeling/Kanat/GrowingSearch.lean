import Mathlib.Data.List.Sort
import Mathlib.Logic.Relation

/-! # Groups found by walking a list that grows

From each vertex in turn that is in no group yet, the vertices near one of its group's are added to the group's end,
until the walk along it has come there. -/
namespace Kanat.GrowingSearch
open Relation

variable {V : Type} [LinearOrder V]

/-- What is in some group, and the group that grows. -/
structure Search (V : Type) where
  grouped : List V
  group : List V

section
variable (vertices : List V) (near : V → V → Prop) [DecidableRel near]

def add (u : V) (s : Search V) (v : V) : Search V :=
  if v ∉ s.grouped ∧ near u v then ⟨v :: s.grouped, s.group ++ [v]⟩ else s

/-- One pass for each place of the group from `k` on, `fuel` passes at most. -/
def walk (fuel k : ℕ) (s : Search V) : Option (Search V) :=
  match s.group[k]? with
  | none => some s
  | some u =>
    match fuel with
    | 0 => none
    | fuel + 1 => walk fuel (k + 1) (vertices.foldl (add near u) s)

def collect (fuel : ℕ) : List V → List V → List (List V) → Option (List (List V))
  | [], _, groups => some groups
  | first :: rest, grouped, groups =>
    if first ∈ grouped then collect fuel rest grouped groups
    else (walk vertices near fuel 0 ⟨first :: grouped, [first]⟩).bind fun s =>
      collect fuel rest s.grouped (groups ++ [s.group.insertionSort (· ≤ ·)])

end

variable {vertices : List V} {near : V → V → Prop} [DecidableRel near] {taken : List V} {first u v : V}
  {s : Search V}

/-- The group holds vertices reached from its first, none of them in another group. -/
structure Found (near : V → V → Prop) (taken : List V) (first : V) (s : Search V) : Prop where
  grouped : ∀ v, v ∈ s.grouped ↔ v ∈ taken ∨ v ∈ s.group
  nodup : s.group.Nodup
  apart : ∀ v ∈ s.group, v ∉ taken
  reached : ∀ v ∈ s.group, ReflTransGen near first v
  first : first ∈ s.group

omit [LinearOrder V] [DecidableRel near] in
private theorem found_start (h : first ∉ taken) : Found near taken first ⟨first :: taken, [first]⟩ where
  grouped v := by
    rw [List.mem_cons, List.mem_singleton]
    exact or_comm
  nodup := List.nodup_singleton _
  apart v hv := by rwa [List.mem_singleton.mp hv]
  reached v hv := by rw [List.mem_singleton.mp hv]
  first := List.mem_singleton_self _

theorem Found.add (h : Found near taken first s) (hu : u ∈ s.group) (v : V) :
    Found near taken first (GrowingSearch.add near u s v) := by
  unfold GrowingSearch.add
  split_ifs with hnew
  · have hnot : v ∉ taken ∧ v ∉ s.group := by
      rw [h.grouped, not_or] at hnew
      exact hnew.1
    refine ⟨fun w => ?_, ?_, ?_, ?_, List.mem_append_left _ h.first⟩
    · simp only [List.mem_cons, List.mem_append, h.grouped]
      tauto
    · refine List.nodup_append.mpr ⟨h.nodup, List.nodup_singleton _, fun x hx y hy => ?_⟩
      rw [List.mem_singleton.mp hy]
      exact fun heq => hnot.2 (heq ▸ hx)
    · intro w hw
      rcases List.mem_append.mp hw with hw | hw
      · exact h.apart w hw
      · rw [List.mem_singleton.mp hw]
        exact hnot.1
    · intro w hw
      rcases List.mem_append.mp hw with hw | hw
      · exact h.reached w hw
      · rw [List.mem_singleton.mp hw]
        exact (h.reached u hu).tail hnew.2
  · exact h

theorem group_prefix_add (u : V) (s : Search V) (v : V) : s.group <+: (add near u s v).group := by
  unfold add
  split_ifs
  · exact List.prefix_append _ _
  · exact List.prefix_rfl

private theorem mem_grouped_add {w : V} (h : w ∈ s.grouped) (u v : V) : w ∈ (add near u s v).grouped := by
  unfold add
  split_ifs
  · exact List.mem_cons_of_mem _ h
  · exact h

private theorem mem_grouped_add_of_near (s : Search V) (h : near u v) : v ∈ (add near u s v).grouped := by
  unfold add
  split_ifs with hnew
  · exact List.mem_cons_self
  · by_contra hnot
    exact hnew ⟨hnot, h⟩

/-- After one pass. -/
structure Passed (near : V → V → Prop) (vertices : List V) (u : V) (s s' : Search V) : Prop where
  longer : s.group <+: s'.group
  more : ∀ w ∈ s.grouped, w ∈ s'.grouped
  near : ∀ v ∈ vertices, near u v → v ∈ s'.grouped

private theorem passed_foldl (vertices : List V) (u : V) (s : Search V) :
    Passed near vertices u s (vertices.foldl (add near u) s) := by
  induction vertices generalizing s with
  | nil => exact ⟨List.prefix_rfl, fun _ h => h, nofun⟩
  | cons v vertices ih =>
    have hrest := ih (add near u s v)
    refine ⟨(group_prefix_add u s v).trans hrest.longer, fun w hw => hrest.more w (mem_grouped_add hw u v), ?_⟩
    intro w hw hnear
    rcases List.mem_cons.mp hw with rfl | hw
    · exact hrest.more _ (mem_grouped_add_of_near s hnear)
    · exact hrest.near w hw hnear

theorem Found.foldl (h : Found near taken first s) (hu : u ∈ s.group) (vertices : List V) :
    Found near taken first (vertices.foldl (GrowingSearch.add near u) s) := by
  induction vertices generalizing s with
  | nil => exact h
  | cons v vertices ih => exact ih (h.add hu v) ((group_prefix_add u s v).subset hu)

theorem walk_of_none {fuel k : ℕ} (h : s.group[k]? = none) : walk vertices near fuel k s = some s := by
  unfold walk
  rw [h]

private theorem walk_of_some {fuel k : ℕ} (h : s.group[k]? = some u) :
    walk vertices near (fuel + 1) k s = walk vertices near fuel (k + 1) (vertices.foldl (add near u) s) := by
  rw [walk.eq_def]
  simp only [h]

/-- All that is near what the walk has passed is taken. -/
def Closed (near : V → V → Prop) (passed grouped : List V) : Prop := ∀ u ∈ passed, ∀ v, near u v → v ∈ grouped

/-- A walk ends within as many passes as there are vertices. -/
theorem walk_ends (hall : ∀ v, v ∈ vertices) {fuel k : ℕ} (hfuel : vertices.length ≤ fuel + k)
    (h : Found near taken first s) (hclosed : Closed near (s.group.take k) s.grouped) :
    ∃ s', walk vertices near fuel k s = some s' ∧ Found near taken first s' ∧ Closed near s'.group s'.grouped := by
  induction fuel generalizing k s with
  | zero =>
    have hlength : s.group.length ≤ k := by
      have hle := (List.subperm_of_subset h.nodup fun v _ => hall v).length_le
      omega
    rw [List.take_of_length_le hlength] at hclosed
    exact ⟨s, walk_of_none (List.getElem?_eq_none hlength), h, hclosed⟩
  | succ fuel ih =>
    cases hnext : s.group[k]? with
    | none =>
      rw [List.take_of_length_le (List.getElem?_eq_none_iff.mp hnext)] at hclosed
      exact ⟨s, walk_of_none hnext, h, hclosed⟩
    | some u =>
      have hpassed : Passed near vertices u s (vertices.foldl (add near u) s) := passed_foldl vertices u s
      rw [walk_of_some hnext]
      refine ih (by omega) (h.foldl (List.mem_of_getElem? hnext) vertices) fun w hw v hnear => ?_
      obtain ⟨more, hmore⟩ := hpassed.longer
      have hlt : k < s.group.length := (List.getElem?_eq_some_iff.mp hnext).1
      rw [← hmore, List.take_append_of_le_length hlt, List.take_add_one, hnext] at hw
      rcases List.mem_append.mp hw with hw | hw
      · exact hpassed.more v (hclosed w hw v hnear)
      · rw [Option.toList_some, List.mem_singleton] at hw
        exact hpassed.near v (hall v) (hw ▸ hnear)

omit [LinearOrder V] [DecidableRel near] in
/-- What a finished walk found is all that is reached, where nothing near what was taken before is left. -/
theorem Found.mem_iff (h : Found near taken first s) (hnear : ∀ u v, near u v → near v u)
    (htaken : Closed near taken taken)
    (hclosed : Closed near s.group s.grouped) : v ∈ s.group ↔ ReflTransGen near first v := by
  refine ⟨h.reached v, fun hv => ?_⟩
  induction hv with
  | refl => exact h.first
  | tail _ hvw ih =>
    rcases (h.grouped _).mp (hclosed _ ih _ hvw) with hold | hnew
    · exact absurd (htaken _ hold _ (hnear _ _ hvw)) (h.apart _ ih)
    · exact hnew

/-- The groups hold what is grouped, each all that any of its vertices reaches, sorted, in the order of their firsts. -/
structure Groups (near : V → V → Prop) (grouped : List V) (groups : List (List V)) : Prop where
  covers : ∀ v, v ∈ grouped ↔ ∃ group ∈ groups, v ∈ group
  reached : ∀ group ∈ groups, ∀ u ∈ group, ∀ v, v ∈ group ↔ ReflTransGen near u v
  nonempty : [] ∉ groups
  increasing : ∀ group ∈ groups, group.Pairwise (· < ·)
  apart : groups.Pairwise List.Disjoint
  inOrder : groups.Pairwise fun group later => ∀ u ∈ group.head?, ∀ v ∈ later, u < v

theorem sorted_insertionSort {group : List V} (h : group.Nodup) : (group.insertionSort (· ≤ ·)).Pairwise (· < ·) := by
  have hnodup : (group.insertionSort (· ≤ ·)).Pairwise (· ≠ ·) := (List.perm_insertionSort _ group).nodup_iff.mpr h
  exact ((List.pairwise_insertionSort _ group).and hnodup).imp fun h => lt_of_le_of_ne h.1 h.2

/-- The least of a group comes first once it is sorted. -/
theorem head_insertionSort {group : List V} (hfirst : first ∈ group) (hleast : ∀ v ∈ group, first ≤ v) :
    (group.insertionSort (· ≤ ·)).head? = some first := by
  have hsorted := List.pairwise_insertionSort (· ≤ ·) group
  have hmem : ∀ v, v ∈ group.insertionSort (· ≤ ·) ↔ v ∈ group := fun v => List.mem_insertionSort _
  cases hsort : group.insertionSort (· ≤ ·) with
  | nil =>
    rw [← hmem, hsort] at hfirst
    cases hfirst
  | cons v rest =>
    rw [hsort] at hsorted hmem
    rw [← hmem] at hfirst
    have hle : v ≤ first := by
      rcases List.mem_cons.mp hfirst with rfl | hrest
      · exact le_rfl
      · exact (List.pairwise_cons.mp hsorted).1 first hrest
    rw [List.head?_cons, hle.antisymm (hleast v ((hmem v).mp List.mem_cons_self))]

omit [LinearOrder V] [DecidableRel near] in
theorem reflTransGen_comm (hnear : ∀ u v, near u v → near v u) : ReflTransGen near u v → ReflTransGen near v u := by
  intro h
  induction h with
  | refl => exact .refl
  | tail _ hvw ih => exact .head (hnear _ _ hvw) ih

/-- What the loop over the vertices has done when it comes to `rest`. -/
structure Collecting (near : V → V → Prop) (vertices rest grouped : List V) (groups : List (List V)) : Prop where
  sound : Groups near grouped groups
  closed : Closed near grouped grouped
  passed : ∃ done, vertices = done ++ rest ∧ (∀ v ∈ done, v ∈ grouped) ∧
    ∀ group ∈ groups, ∀ u ∈ group.head?, u ∈ done

variable {rest grouped : List V} {groups : List (List V)}

omit [DecidableRel near] in
theorem Collecting.skip (h : Collecting near vertices (first :: rest) grouped groups) (hfirst : first ∈ grouped) :
    Collecting near vertices rest grouped groups where
  sound := h.sound
  closed := h.closed
  passed := by
    obtain ⟨done, hdone, hgrouped, hheads⟩ := h.passed
    refine ⟨done ++ [first], by rw [hdone, List.append_assoc]; rfl, fun v hv => ?_, fun group hgroup u hu => ?_⟩
    · rcases List.mem_append.mp hv with hv | hv
      · exact hgrouped v hv
      · exact List.mem_singleton.mp hv ▸ hfirst
    · exact List.mem_append_left _ (hheads group hgroup u hu)

omit [DecidableRel near] in
/-- What is not taken yet comes from `first` on. -/
theorem Collecting.later (h : Collecting near vertices (first :: rest) grouped groups)
    (hall : ∀ v, v ∈ vertices) (hv : v ∉ grouped) : v ∈ first :: rest := by
  obtain ⟨done, hdone, hgrouped, -⟩ := h.passed
  have hin := hdone ▸ hall v
  exact (List.mem_append.mp hin).resolve_left fun hold => hv (hgrouped v hold)

omit [DecidableRel near] in
/-- One more group in the order of their firsts. -/
theorem Groups.append (h : Groups near grouped groups) {group : List V} {taken : List V}
    (hgrouped : ∀ v, v ∈ taken ↔ v ∈ grouped ∨ v ∈ group)
    (hreached : ∀ u ∈ group, ∀ v, v ∈ group ↔ ReflTransGen near u v)
    (hnonempty : group ≠ []) (hincreasing : group.Pairwise (· < ·)) (hapart : ∀ v ∈ group, v ∉ grouped)
    (hlater : ∀ old ∈ groups, ∀ u ∈ old.head?, ∀ v ∈ group, u < v) : Groups near taken (groups ++ [group]) where
  covers v := by
    rw [hgrouped, h.covers]
    constructor
    · rintro (⟨old, hold, hv⟩ | hv)
      · exact ⟨old, List.mem_append_left _ hold, hv⟩
      · exact ⟨group, List.mem_append_right _ (List.mem_singleton_self _), hv⟩
    · rintro ⟨some, hsome, hv⟩
      rcases List.mem_append.mp hsome with hold | hnew
      · exact .inl ⟨some, hold, hv⟩
      · exact .inr (List.mem_singleton.mp hnew ▸ hv)
  reached := by
    intro some hsome
    rcases List.mem_append.mp hsome with hold | hnew
    · exact h.reached some hold
    · rw [List.mem_singleton.mp hnew]
      exact hreached
  nonempty := by
    intro hsome
    rcases List.mem_append.mp hsome with hold | hnew
    · exact h.nonempty hold
    · exact hnonempty (List.mem_singleton.mp hnew).symm
  increasing := by
    intro some hsome
    rcases List.mem_append.mp hsome with hold | hnew
    · exact h.increasing some hold
    · rw [List.mem_singleton.mp hnew]
      exact hincreasing
  apart := by
    refine List.pairwise_append.mpr ⟨h.apart, List.pairwise_singleton _ _, fun old hold some hnew v hv hv' => ?_⟩
    rw [List.mem_singleton.mp hnew] at hv'
    exact hapart v hv' ((h.covers v).mpr ⟨old, hold, hv⟩)
  inOrder := by
    refine List.pairwise_append.mpr ⟨h.inOrder, List.pairwise_singleton _ _, fun old hold some hnew u hu v hv => ?_⟩
    rw [List.mem_singleton.mp hnew] at hv
    exact hlater old hold u hu v hv

omit [DecidableRel near] in
/-- The loop goes on from a vertex in no group with a group more. -/
theorem Collecting.found (h : Collecting near vertices (first :: rest) grouped groups)
    (hnear : ∀ u v, near u v → near v u) (hsorted : vertices.Pairwise (· < ·)) (hall : ∀ v, v ∈ vertices)
    (hs : Found near grouped first s) (hclosed : Closed near s.group s.grouped) :
    Collecting near vertices rest s.grouped (groups ++ [s.group.insertionSort (· ≤ ·)]) := by
  obtain ⟨done, hdone, hgrouped, hheads⟩ := h.passed
  have hmem : ∀ v, v ∈ s.group.insertionSort (· ≤ ·) ↔ v ∈ s.group := fun v => List.mem_insertionSort _
  have hreached : ∀ v, v ∈ s.group ↔ ReflTransGen near first v := fun v => hs.mem_iff hnear h.closed hclosed
  have hlater : ∀ v ∈ s.group, v ∈ first :: rest := fun v hv => h.later hall (hs.apart v hv)
  rw [hdone] at hsorted
  obtain ⟨-, hrest, hbefore⟩ := List.pairwise_append.mp hsorted
  have hleast : ∀ v ∈ s.group, first ≤ v := by
    intro v hv
    rcases List.mem_cons.mp (hlater v hv) with rfl | hv
    · exact le_rfl
    · exact ((List.pairwise_cons.mp hrest).1 v hv).le
  have hhead := head_insertionSort hs.first hleast
  refine ⟨h.sound.append ?_ ?_ ?_ (sorted_insertionSort hs.nodup) ?_ ?_, ?_, done ++ [first], ?_, ?_, ?_⟩
  · intro v
    rw [hs.grouped, hmem]
  · intro u hu v
    have hu' := (hreached u).mp ((hmem u).mp hu)
    rw [hmem, hreached]
    exact ⟨(reflTransGen_comm hnear hu').trans, hu'.trans⟩
  · intro hnil
    rw [hnil] at hhead
    cases hhead
  · exact fun v hv => hs.apart v ((hmem v).mp hv)
  · exact fun old hold u hu v hv => hbefore u (hheads old hold u hu) v (hlater v ((hmem v).mp hv))
  · intro u hu v huv
    rcases (hs.grouped u).mp hu with hold | hnew
    · exact (hs.grouped v).mpr (.inl (h.closed u hold v huv))
    · exact hclosed u hnew v huv
  · rw [hdone, List.append_assoc]
    rfl
  · intro v hv
    rcases List.mem_append.mp hv with hv | hv
    · exact (hs.grouped v).mpr (.inl (hgrouped v hv))
    · rw [List.mem_singleton.mp hv]
      exact (hs.grouped first).mpr (.inr hs.first)
  · intro group hgroup u hu
    rcases List.mem_append.mp hgroup with hold | hnew
    · exact List.mem_append_left _ (hheads group hold u hu)
    · rw [List.mem_singleton.mp hnew, hhead] at hu
      exact List.mem_append_right _ (List.mem_singleton.mpr (Option.mem_some.mp hu).symm)

private theorem collect_collecting (hnear : ∀ u v, near u v → near v u) (hsorted : vertices.Pairwise (· < ·))
    (hall : ∀ v, v ∈ vertices) {fuel : ℕ} (hfuel : vertices.length ≤ fuel)
    (h : Collecting near vertices rest grouped groups) :
    ∃ taken found, collect vertices near fuel rest grouped groups = some found ∧
      Collecting near vertices [] taken found := by
  induction rest generalizing grouped groups with
  | nil => exact ⟨grouped, groups, rfl, h⟩
  | cons first rest ih =>
    unfold collect
    split_ifs with hfirst
    · exact ih (h.skip hfirst)
    · have hstart : Closed near (([first] : List V).take 0) (first :: grouped) := nofun
      obtain ⟨s, hwalk, hs, hclosed⟩ := walk_ends hall (by omega) (found_start hfirst) hstart
      rw [hwalk]
      exact ih (h.found hnear hsorted hall hs hclosed)

/-- The search ends with every vertex in the one group of all that it reaches. -/
theorem collect_groups (hnear : ∀ u v, near u v → near v u) (hsorted : vertices.Pairwise (· < ·))
    (hall : ∀ v, v ∈ vertices) :
    ∃ groups, collect vertices near vertices.length vertices [] [] = some groups ∧ Groups near vertices groups := by
  have hstart : Collecting near vertices vertices [] [] :=
    ⟨⟨by simp, by simp, by simp, by simp, .nil, .nil⟩, nofun, [], rfl, nofun, nofun⟩
  obtain ⟨taken, groups, hcollect, h⟩ := collect_collecting hnear hsorted hall le_rfl hstart
  obtain ⟨done, hdone, hgrouped, -⟩ := h.passed
  have htaken : ∀ v, v ∈ taken ↔ v ∈ vertices := by
    intro v
    rw [List.append_nil] at hdone
    exact ⟨fun _ => hall v, fun hv => hgrouped v (hdone ▸ hv)⟩
  exact ⟨groups, hcollect, { h.sound with covers := fun v => (htaken v).symm.trans (h.sound.covers v) }⟩

end Kanat.GrowingSearch
