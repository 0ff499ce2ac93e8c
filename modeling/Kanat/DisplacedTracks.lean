import Kanat.CandidateStructure
import Mathlib.Logic.Relation

/-! # Folding displaced sightings into earlier Bullet Holes

`merge_displaced_tracks`. Tracks are told apart by identity; two objects are here two values. -/
namespace Kanat.DisplacedTracks
open ExactDistance
open Persistence (Hole)

variable {box : ℕ}

/-- A Bullet Hole as `end` reports it, by identity: first seen in the earliest frame that saw it. -/
structure Track (box : ℕ) where
  id : ℕ
  hole : Hole box
  first_mem : hole.firstFrame ∈ hole.seen
  first_le : ∀ i ∈ hole.seen, hole.firstFrame ≤ i
  deriving DecidableEq

namespace Track

def firstFrame (t : Track box) : ℕ := t.hole.firstFrame

/-- `max(seen)` -/
def lastFrame (t : Track box) : ℕ := t.hole.seen.max?.getD 0

def pos (t : Track box) : Fin 2 → ℚ := t.hole.pos

end Track

/-- What `end` reports of a run is first seen in its earliest frame. -/
theorem reported_first {P : Persistence.Settings} {events : List (Persistence.Event box)} {processed : ℕ} {live : Bool}
    {holes : List (Hole box)} (hw : 0 < P.window) (hs : Persistence.Scheduled P 0 [] events)
    (h : (Persistence.run P events).end P processed live = .ok holes) :
    ∀ hole ∈ holes, hole.firstFrame ∈ hole.seen ∧ ∀ i ∈ hole.seen, hole.firstFrame ≤ i := by
  have hinv := Persistence.inv_run hs
  have hstart : Persistence.Placed P ({} : Persistence.State box) 0 := Persistence.placed_start P
  obtain ⟨hplaced, -⟩ := hstart.run hw events hs.inOrder
  rw [Persistence.end_eq hinv, Except.ok.injEq] at h
  subst h
  intro hole hm
  obtain ⟨⟨kept, id⟩, hx, hfinished⟩ := List.mem_filterMap.mp (List.mem_mergeSort.mp hm)
  set s := Persistence.run P events
  have hid : id < s.candidates.length := by
    refine (hplaced.covered id).mpr ?_
    rcases Persistence.mem_judgeDue_persisted P s processed none hx with hx | ⟨ho, -⟩
    · exact .inr (.inl (List.mem_map_of_mem hx))
    · exact .inl ho
  have hfirst : kept.firstFrame = (s.candidate id).firstIdx := by
    rcases Persistence.mem_judgeDue_persisted P s processed none hx with hx | ⟨-, verdict, hv, hf⟩
    · exact hinv.persisted_first _ hx
    · rw [hf, Persistence.verdict_firstFrame hv]
  have hreport : hole.firstFrame = kept.firstFrame ∧ hole.seen = (s.candidate id).seen := by
    simp only [Persistence.finished] at hfinished
    split_ifs at hfinished <;> cases hfinished <;> exact ⟨rfl, rfl⟩
  have hseen (i : ℕ) : i ∈ (s.candidate id).seen ↔ i ∈ (s.candidate id).seenFrameIdxs := by
    rw [Persistence.Candidate.seen, Finset.mem_sort, List.mem_toFinset]
  rw [hreport.1, hreport.2, hfirst]
  exact ⟨(hseen _).mpr (hplaced.sighted id hid).first, fun i hi => (hplaced.sighted id hid).le i ((hseen i).mp hi)⟩

abbrev Outline := List (Fin 2 → ℚ)

/-- The first Target's centre, where there is a view with a Target. -/
def centreOf (reference : Option (List Outline)) : Option (Fin 2 → ℚ) :=
  reference.bind fun targets => targets.head?.map fun outline i => (outline.map (· i)).sum / outline.length

/-- `MAX_DISPLACEMENT_FRACTION` -/
def maxDisplacementFraction : ℚ := 35 / 100

def squaredDistance (p q : Fin 2 → ℚ) : ℚ := (p 0 - q 0) ^ 2 + (p 1 - q 1) ^ 2

/-- Whether `later` passes the loop's tests against `earlier`, one `continue` a line. -/
def folds (centre : Fin 2 → ℚ) (fraction : ℚ) (later earlier : Track box) : Bool :=
  !(earlier = later || later.firstFrame ≤ earlier.firstFrame) &&
  !earlier.hole.seen.any (· ∈ later.hole.seen) &&
  !decide (earlier.lastFrame < later.lastFrame) &&
  !decide (AboveScaled fraction (squaredDistance later.pos earlier.pos) (squaredDistance later.pos centre))

/-- The tracks alive and the pairs merged so far, as (survivor, absorbed). -/
structure Merging (box : ℕ) where
  alive : List (Track box)
  merged : List (Track box × Track box)

/-- One round of the outer loop. -/
def Merging.absorb (holes : List (Track box)) (centre : Fin 2 → ℚ) (fraction : ℚ) (m : Merging box)
    (later : Track box) : Merging box :=
  if later ∈ m.alive then
    let earliest := (holes.filter (· ∈ m.alive)).mergeSort fun a b => a.firstFrame ≤ b.firstFrame
    match earliest.find? (folds centre fraction later) with
    | none => m
    | some earlier => ⟨m.alive.filter (· ≠ later), m.merged ++ [(earlier, later)]⟩
  else m

/-- `(kept, merged)` -/
def mergeDisplacedTracks (holes : List (Track box)) (reference : Option (List Outline)) (fraction : ℚ) :
    List (Track box) × List (Track box × Track box) :=
  match centreOf reference with
  | none => (holes, [])
  | some centre =>
    let m := (holes.mergeSort fun a b => b.firstFrame ≤ a.firstFrame).foldl (Merging.absorb holes centre fraction) ⟨holes, []⟩
    (holes.filter (· ∈ m.alive), m.merged)

/-- Never seen in the same frame, the later one's span inside the earlier one's, and displaced by no more than the
fraction of its distance from the Target. -/
structure Displaced (centre : Fin 2 → ℚ) (fraction : ℚ) (earlier later : Track box) : Prop where
  apart : ∀ i ∈ earlier.hole.seen, i ∉ later.hole.seen
  begins : earlier.firstFrame ≤ later.firstFrame
  ends : later.lastFrame ≤ earlier.lastFrame
  near : length (later.pos 0 - earlier.pos 0) (later.pos 1 - earlier.pos 1) ≤
    fraction * length (later.pos 0 - centre 0) (later.pos 1 - centre 1)

variable {centre : Fin 2 → ℚ} {fraction : ℚ} {earlier later : Track box}

/-- Two that begin together were seen together. -/
theorem Displaced.firstFrame_lt (h : Displaced centre fraction earlier later) : earlier.firstFrame < later.firstFrame := by
  refine h.begins.lt_of_ne fun heq => h.apart _ earlier.first_mem ?_
  rw [show earlier.hole.firstFrame = later.hole.firstFrame from heq]
  exact later.first_mem

theorem near_iff : ¬ AboveScaled fraction (squaredDistance later.pos earlier.pos) (squaredDistance later.pos centre) ↔
    length (later.pos 0 - earlier.pos 0) (later.pos 1 - earlier.pos 1) ≤
      fraction * length (later.pos 0 - centre 0) (later.pos 1 - centre 1) := by
  have hnonneg (p q : Fin 2 → ℚ) : 0 ≤ squaredDistance p q := by unfold squaredDistance; positivity
  rw [aboveScaled_iff (hnonneg _ _) (hnonneg _ _), not_lt, length_eq, length_eq]
  rfl

theorem folds_iff : folds centre fraction later earlier = true ↔ Displaced centre fraction earlier later := by
  simp only [folds, Bool.and_eq_true, Bool.not_eq_true', Bool.or_eq_false_iff, decide_eq_false_iff_not,
    List.any_eq_false, decide_eq_true_eq, near_iff, not_le, not_lt]
  constructor
  · rintro ⟨⟨⟨⟨_, hfirst⟩, hapart⟩, hends⟩, hnear⟩
    exact ⟨hapart, hfirst.le, hends, hnear⟩
  · intro h
    have hlt := h.firstFrame_lt
    refine ⟨⟨⟨⟨fun heq => ?_, hlt⟩, h.apart⟩, h.ends⟩, h.near⟩
    rw [heq] at hlt
    exact lt_irrefl _ hlt

/-- After the rounds of `done`: who is alive has not been absorbed, each pair merged meets the conditions, and no one
alive could still absorb a track whose round is over. -/
structure Inv (holes : List (Track box)) (centre : Fin 2 → ℚ) (fraction : ℚ) (done : List (Track box))
    (m : Merging box) : Prop where
  alive_iff : ∀ h ∈ holes, h ∈ m.alive ↔ h ∉ m.merged.map Prod.snd
  mem : ∀ pair ∈ m.merged, pair.1 ∈ holes ∧ pair.2 ∈ holes
  once : (m.merged.map Prod.snd).Nodup
  sound : ∀ pair ∈ m.merged, Displaced centre fraction pair.1 pair.2
  irreducible : ∀ later ∈ done, later ∈ m.alive → ∀ earlier ∈ holes, earlier ∈ m.alive →
    ¬ Displaced centre fraction earlier later

variable {holes done : List (Track box)} {m : Merging box}

theorem inv_start : Inv holes centre fraction [] ⟨holes, []⟩ where
  alive_iff h hh := by simp [hh]
  mem pair hp := by cases hp
  once := .nil
  sound pair hp := by cases hp
  irreducible later hl := by cases hl

/-- Without a track that could absorb it, a round leaves everything as it was. -/
theorem Inv.passed (h : Inv holes centre fraction done m) (hnone : later ∈ m.alive →
    ∀ earlier ∈ holes, earlier ∈ m.alive → ¬ Displaced centre fraction earlier later) :
    Inv holes centre fraction (done ++ [later]) m where
  alive_iff := h.alive_iff
  mem := h.mem
  once := h.once
  sound := h.sound
  irreducible t ht := by
    rcases List.mem_append.mp ht with ht | ht
    · exact h.irreducible t ht
    · rw [List.mem_singleton.mp ht]
      exact hnone

theorem Inv.merged (h : Inv holes centre fraction done m) (hlater : later ∈ holes) (halive : later ∈ m.alive)
    (hearlier : earlier ∈ holes) (hd : Displaced centre fraction earlier later) :
    Inv holes centre fraction (done ++ [later]) ⟨m.alive.filter (· ≠ later), m.merged ++ [(earlier, later)]⟩ where
  alive_iff t ht := by
    rw [List.mem_filter, h.alive_iff t ht]
    simp
  mem pair hp := by
    rcases List.mem_append.mp hp with hp | hp
    · exact h.mem pair hp
    · rw [List.mem_singleton.mp hp]
      exact ⟨hearlier, hlater⟩
  once := by
    rw [List.map_append]
    refine List.nodup_append.mpr ⟨h.once, List.nodup_singleton _, fun a ha b hb hab => ?_⟩
    rw [hab, List.mem_singleton.mp hb] at ha
    exact (h.alive_iff later hlater).mp halive ha
  sound pair hp := by
    rcases List.mem_append.mp hp with hp | hp
    · exact h.sound pair hp
    · rw [List.mem_singleton.mp hp]
      exact hd
  irreducible t ht hta := by
    obtain ⟨hta, hne⟩ := List.mem_filter.mp hta
    intro e he hea
    rcases List.mem_append.mp ht with ht | ht
    · exact h.irreducible t ht hta e he (List.mem_filter.mp hea).1
    · simp [List.mem_singleton.mp ht] at hne

theorem Inv.absorb (h : Inv holes centre fraction done m) (hlater : later ∈ holes) :
    Inv holes centre fraction (done ++ [later]) (m.absorb holes centre fraction later) := by
  unfold Merging.absorb
  have hmem (t : Track box) : t ∈ (holes.filter (· ∈ m.alive)).mergeSort (fun a b => a.firstFrame ≤ b.firstFrame) ↔
      t ∈ holes ∧ t ∈ m.alive := by
    rw [List.mem_mergeSort, List.mem_filter, decide_eq_true_eq]
  split
  next halive =>
    dsimp only
    split
    next hnone =>
      refine h.passed fun _ earlier he hea hd => ?_
      exact List.find?_eq_none.mp hnone earlier ((hmem earlier).mpr ⟨he, hea⟩) (folds_iff.mpr hd)
    next earlier hsome =>
      obtain ⟨he, -⟩ := (hmem earlier).mp (List.mem_of_find?_eq_some hsome)
      exact h.merged hlater halive he (folds_iff.mp (List.find?_some hsome))
  next halive => exact h.passed fun ha => absurd ha halive

theorem Inv.foldl (h : Inv holes centre fraction done m) (rest : List (Track box)) (hrest : ∀ t ∈ rest, t ∈ holes) :
    Inv holes centre fraction (done ++ rest) (rest.foldl (Merging.absorb holes centre fraction) m) := by
  induction rest generalizing done m with
  | nil => simpa using h
  | cons later rest ih =>
    have hnext := ih (h.absorb (hrest later List.mem_cons_self)) fun t ht => hrest t (List.mem_cons_of_mem _ ht)
    simpa using hnext

/-- The loop at its end, every hole's round being over. -/
theorem exists_inv (holes : List (Track box)) {reference : Option (List Outline)} (fraction : ℚ)
    (hc : centreOf reference = some centre) : ∃ m, Inv holes centre fraction holes m ∧
      mergeDisplacedTracks holes reference fraction = (holes.filter (· ∈ m.alive), m.merged) := by
  set order := holes.mergeSort fun a b => b.firstFrame ≤ a.firstFrame with horder
  have hmem (t : Track box) : t ∈ order ↔ t ∈ holes := List.mem_mergeSort
  have hstart : Inv holes centre fraction [] ⟨holes, []⟩ := inv_start
  have h := hstart.foldl order fun t ht => (hmem t).mp ht
  refine ⟨order.foldl (Merging.absorb holes centre fraction) ⟨holes, []⟩, ⟨h.alive_iff, h.mem, h.once, h.sound, ?_⟩, ?_⟩
  · exact fun later hl => h.irreducible later ((hmem later).mpr hl)
  · rw [mergeDisplacedTracks, hc]

/-- Absorbed tracks, and who absorbed them. -/
def MergedInto (merged : List (Track box × Track box)) (absorbed survivor : Track box) : Prop := (survivor, absorbed) ∈ merged

/-- Survivors begin strictly earlier, so going from survivor to survivor ends, at a track that is kept. -/
theorem Inv.reaches (h : Inv holes centre fraction done m) (n : ℕ) {t : Track box} (ht : t.firstFrame = n)
    (hm : t ∈ m.merged.map Prod.snd) :
    ∃ k ∈ holes.filter (· ∈ m.alive), Relation.TransGen (MergedInto m.merged) t k := by
  induction n using Nat.strongRecOn generalizing t with
  | ind n ih =>
    obtain ⟨⟨survivor, absorbed⟩, hpair, rfl⟩ := List.mem_map.mp hm
    have hstep : MergedInto m.merged absorbed survivor := hpair
    by_cases ha : survivor ∈ m.alive
    · exact ⟨survivor, List.mem_filter.mpr ⟨(h.mem _ hpair).1, decide_eq_true ha⟩, .single hstep⟩
    · have hs : survivor ∈ m.merged.map Prod.snd := by
        by_contra hn
        exact ha ((h.alive_iff survivor (h.mem _ hpair).1).mpr hn)
      obtain ⟨k, hk, hreach⟩ := ih survivor.firstFrame (ht ▸ (h.sound _ hpair).firstFrame_lt) rfl hs
      exact ⟨k, hk, .head hstep hreach⟩

end Kanat.DisplacedTracks
