import Kanat.Announcements
import Kanat.BaselineMarks
import Kanat.BoardRegistration
import Kanat.CandidateStructure
import Kanat.DisplacedTracks
import Kanat.RecordingFrames

/-! # A Run over a Recording, from its file to its report

`process` of `new_bullet_holes.py`, opened on a Recording. The detector and what OpenCV is asked are functions of the
pictures they are handed. A Recording's Run is never finished early, so every Look opens Candidates. -/
namespace Kanat.RecordingRuns
open Persistence
open Announcer (BulletHoleConfirmed confirmed corroborates mean)
open BaselineMarks (baselineMarks stripPreExisting)
open BoardRegistration (Registration)
open BoardViews (BoardView Vision)
open DisplacedTracks (Displaced Outline Track centreOf maxDisplacementFraction mergeDisplacedTracks)
open RecordingFrames (Frame Recording due framesFrom seeked)
open SortedIndices (countBetween)

/-- What a Run detects and measures with, beside registration. -/
structure Instruments (v : Vision) (box : ℕ) where
  Canvases : Type
  sheetCanvases : BoardView v → v.Frame → Canvases
  detectSheets : BoardView v → Canvases → List (Detection box)
  /-- `change_evidence` of one point, the sheet canvases of the baseline and the Look at hand. -/
  changed : BoardView v → (baseline current : Canvases) → Detection box → Bool
  measured : BoardView v → Announcer.View
  outline : v.Contour → Outline

variable {v : Vision} {box : ℕ}

/-- One frame as the Run saw it, `none` for a Lost Look. -/
structure Look (tools : Instruments v box) where
  index : ℕ
  seen : Option (BoardView v × tools.Canvases × List (Detection box))

/-- A Bullet Hole reported. -/
structure Found (box : ℕ) where
  hole : Hole box
  corroborated : Bool
  target : Option ℕ

/-- `Run`, with what it published. -/
structure Run (box : ℕ) where
  holes : List (Found box)
  baseline : List (Detection box)
  residual : List ℚ
  lost : ℕ
  reanchors : ℕ
  persisted : List (Hole box)
  published : List BulletHoleConfirmed

/-- `frames_until`, of which none are below zero. -/
def framesUntil (source : Recording v.Frame) (stop : ℚ) : ℕ :=
  (RecordingFrames.framesUntil source.startS source.fps stop).toNat

section
variable (tools : Instruments v box) (space : BoardView v)

/-- Frame 0 is the one Board space was built from; each later one is registered. -/
def place (s : Registration v) (frame : Frame v.Frame) : Registration v × Option (BoardView v) :=
  if frame.index = 0 then (s, some space) else s.register frame.image

def look (frame : Frame v.Frame) (view : Option (BoardView v)) : Look tools where
  index := frame.index
  seen := view.map fun current =>
    let canvases := tools.sheetCanvases current frame.image
    (current, canvases, tools.detectSheets current canvases)

/-- `RegisteredFrames.looks` of the frames read, and the registration they leave. -/
def looks (s : Registration v) : List (Frame v.Frame) → Registration v × List (Look tools)
  | [] => (s, [])
  | frame :: frames =>
    let placed := place space s frame
    let rest := looks placed.1 frames
    (rest.1, look tools frame placed.2 :: rest.2)

variable {tools}

/-- The Detections of a Look, `none` for a Lost one. -/
def Look.detections (l : Look tools) : Option (List (Detection box)) := l.seen.map (·.2.2)

/-- What of a Look is new: its Detections stripped of the baseline's. -/
def Look.stripped (baseline : List (Detection box)) (matchPx : ℚ) (l : Look tools) :
    Option (List (Detection box) × List ℚ) :=
  l.detections.map fun pts => stripPreExisting pts baseline matchPx

/-- A Look as Persistence takes it. -/
def Look.new (baseline : List (Detection box)) (matchPx : ℚ) (l : Look tools) : Persistence.Look box :=
  ⟨l.index, (l.stripped baseline matchPx).map Prod.fst, true⟩

/-- The new Detections of a Look that Change Evidence saw, measured against the baseline's sheet canvases. -/
def Look.corroborating (baselineCanvases : Option tools.Canvases) (baseline : List (Detection box)) (matchPx : ℚ)
    (l : Look tools) : List (Detection box) :=
  match l.seen, baselineCanvases with
  | some (current, canvases, pts), some base =>
    (stripPreExisting pts baseline matchPx).1.filter (tools.changed current base canvases)
  | _, _ => []

end

/-- `islice(looks, baseline_frames)`, and the rest of the iterator. -/
def parted {α : Type} (baselineFrames : ℕ) (looks : List α) : List α × List α :=
  (looks.take baselineFrames, looks.drop baselineFrames)

/-- The Bullet Holes of those that persisted, each corroborated or not, and assigned a Target. -/
def found (measured : Announcer.View) (require : Bool) (corroboration : List (Detection box)) (matchPx : ℚ)
    (persisted : List (Hole box)) : List (Found box) :=
  let new := persisted.map fun hole =>
    (⟨hole, corroborates corroboration hole.box matchPx, measured.assign hole.pos⟩ : Found box)
  new.filter fun x => !require || x.corroborated

/-- The Bullet Holes as `merge_displaced_tracks` takes them, told apart by their place. -/
def tracks (new : List (Found box)) : List (Track box) :=
  new.zipIdx.filterMap fun x =>
    if h : x.1.hole.firstFrame ∈ x.1.hole.seen ∧ ∀ i ∈ x.1.hole.seen, x.1.hole.firstFrame ≤ i then
      some ⟨x.2, x.1.hole, h.1, h.2⟩
    else none

/-- Those that were folded into none, when merging is asked for. -/
def mergeDisplaced (merge : Bool) (targets : List Outline) (new : List (Found box)) : List (Found box) :=
  if merge then
    let absorbed := (mergeDisplacedTracks (tracks new) (some targets) maxDisplacementFraction).2.map fun pair => pair.2.id
    (new.zipIdx.filter fun x => x.2 ∉ absorbed).map Prod.fst
  else new

/-- At least one baseline frame. -/
def baselined (P : Settings) : Settings := { P with baselineFrames := max 1 P.baselineFrames }

/-- `process` past its opening, `P` with one baseline frame at least; `require` is whether Change Evidence is and
`merge` whether displaced tracks are merged. -/
def report (tools : Instruments v box) (P : Settings) (require merge : Bool) (wallClock : ℕ → ℤ) (last : Registration v)
    (processed : ℕ) (looks : List (Look tools)) : Except String (Run box) := do
  let (first, rest) := parted P.baselineFrames looks
  let baseline := baselineMarks (first.filterMap Look.detections) P.matchPx
  let canvases := (first.filterMap Look.seen).head?.map (·.2.1)
  let persistence := run P ((rest.map (Look.new baseline P.matchPx)).map Persistence.Look.event)
  let corroboration := rest.flatMap (Look.corroborating canvases baseline P.matchPx)
  let persisted ← persistence.end P processed false
  let measured := tools.measured last.last
  let new := found measured require corroboration P.matchPx persisted
  let new := mergeDisplaced merge (last.last.targets.map tools.outline) new
  return {
    holes := new
    baseline
    residual := rest.flatMap fun l => (l.stripped baseline P.matchPx).elim [] Prod.snd
    lost := persistence.lost.length
    reanchors := last.reanchors
    persisted
    published := new.map fun x => confirmed measured wallClock x.hole }

/-- `process` of a Recording to `stop` seconds into it, registered from Board space `space` on `base`. -/
def process (tools : Instruments v box) (P : Settings) (require merge : Bool) (wallClock : ℕ → ℤ) (space : BoardView v)
    (templateMask : v.Image) (source : Recording v.Frame) (base : v.Frame) (stop : ℚ) : Except String (Run box) :=
  let P := baselined P
  let frames := framesFrom source base (framesUntil source stop) P.stride P.baselineFrames
  let seen := looks tools space (.opened space base templateMask) frames.1
  report tools P require merge wallClock seen.1 frames.2.passed seen.2

private theorem due_append {Image : Type} (held : List Image) (stride baselineFrames first m n : ℕ) :
    due held stride baselineFrames first (m + n) =
      due held stride baselineFrames first m ++ due held stride baselineFrames (first + m) n := by
  rw [due, ← List.range'_append_1, List.filter_append, List.filterMap_append]
  rfl

section
variable {tools : Instruments v box} {space : BoardView v}

private theorem looks_append (s : Registration v) (xs ys : List (Frame v.Frame)) :
    looks tools space s (xs ++ ys) =
      ((looks tools space (looks tools space s xs).1 ys).1,
        (looks tools space s xs).2 ++ (looks tools space (looks tools space s xs).1 ys).2) := by
  induction xs generalizing s with
  | nil => rfl
  | cons x xs ih =>
    rw [List.cons_append, looks, ih]
    rfl

theorem looks_index (s : Registration v) (xs : List (Frame v.Frame)) :
    (looks tools space s xs).2.map Look.index = xs.map Frame.index := by
  induction xs generalizing s with
  | nil => rfl
  | cons x xs ih =>
    rw [looks, List.map_cons, List.map_cons, ih]
    rfl

/-- Looks in the order of their frames, each one due. -/
structure InTurn (P : Settings) (ls : List (Look tools)) : Prop where
  sorted : (ls.map Look.index).Pairwise (· < ·)
  due : ∀ l ∈ ls, P.due l.index = true

theorem InTurn.sublist {P : Settings} {ls ls' : List (Look tools)} (h : InTurn P ls) (hsub : ls'.Sublist ls) :
    InTurn P ls' :=
  ⟨h.sorted.sublist (hsub.map _), fun l hl => h.due l (hsub.subset hl)⟩

theorem InTurn.scheduled {P : Settings} {ls : List (Look tools)} (h : InTurn P ls) {next : ℕ}
    (hnext : ∀ l ∈ ls, next ≤ l.index) (baseline : List (Detection box)) (matchPx : ℚ) :
    Scheduled P next [] ((ls.map (Look.new baseline matchPx)).map Persistence.Look.event) := by
  induction ls generalizing next with
  | nil => trivial
  | cons l ls ih =>
    obtain ⟨hafter, -⟩ := List.pairwise_cons.mp h.sorted
    refine ⟨hnext l List.mem_cons_self, h.due l List.mem_cons_self, List.not_mem_nil, ?_⟩
    apply ih (h.sublist (List.sublist_cons_self l ls))
    intro l' hl'
    exact hafter l'.index (List.mem_map_of_mem hl')

end

/-- The Looks at the first `passed` frames of a file. -/
def looksTo (tools : Instruments v box) (P : Settings) (space : BoardView v) (templateMask : v.Image)
    (held : List v.Frame) (base : v.Frame) (passed : ℕ) : Registration v × List (Look tools) :=
  looks tools space (.opened space base templateMask) (due held P.stride P.baselineFrames 0 passed)

section
variable (tools : Instruments v box) (P : Settings) (space : BoardView v) (templateMask : v.Image)
  {held : List v.Frame} (base : v.Frame) {passed passed' : ℕ}

theorem looksTo_index (hpassed : passed ≤ held.length) :
    (looksTo tools P space templateMask held base passed).2.map Look.index = (List.range passed).filter P.due := by
  rw [looksTo, looks_index, RecordingFrames.due_index (by omega), List.range_eq_range']
  rfl

theorem inTurn_looksTo (hpassed : passed ≤ held.length) :
    InTurn P (looksTo tools P space templateMask held base passed).2 := by
  have hindex := looksTo_index tools P space templateMask base hpassed
  refine ⟨hindex ▸ List.pairwise_lt_range.filter _, fun l hl => ?_⟩
  have hmem : l.index ∈ (List.range passed).filter P.due := hindex ▸ List.mem_map_of_mem hl
  exact (List.mem_filter.mp hmem).2

theorem index_lt_of_looksTo (hpassed : passed ≤ held.length) :
    ∀ l ∈ (looksTo tools P space templateMask held base passed).2, l.index < passed := by
  intro l hl
  have hmem := List.mem_map_of_mem (f := Look.index) hl
  rw [looksTo_index _ _ _ _ _ hpassed] at hmem
  exact List.mem_range.mp (List.mem_filter.mp hmem).1

/-- Reading on leaves the Looks so far, and adds later ones. -/
theorem looksTo_le (h : passed ≤ passed') (hpassed : passed' ≤ held.length) : ∃ more,
    (looksTo tools P space templateMask held base passed').2 =
      (looksTo tools P space templateMask held base passed).2 ++ more ∧ ∀ l ∈ more, passed ≤ l.index := by
  obtain ⟨n, rfl⟩ := Nat.exists_eq_add_of_le h
  refine ⟨_, by rw [looksTo, due_append, looks_append]; rfl, fun l hl => ?_⟩
  have hmem := List.mem_map_of_mem (f := Look.index) hl
  rw [looks_index, RecordingFrames.due_index (by omega)] at hmem
  have hfrom := (List.mem_range'_1.mp (List.mem_filter.mp hmem).1).1
  omega

end

/-- What `process` opened on a Recording reports: of the frames it passed. -/
theorem process_eq {tools : Instruments v box} {P : Settings} {space : BoardView v} {frames : List v.Frame}
    {fps startS : ℚ} {r : Recording v.Frame} {base : v.Frame}
    (hopen : Recording.openAt frames fps startS = some (r, base)) (require merge : Bool) (wallClock : ℕ → ℤ)
    (templateMask : v.Image) (stop : ℚ) :
    let held := frames.drop (seeked fps startS)
    let passed := min (framesUntil r stop) held.length
    let seen := looksTo tools (baselined P) space templateMask held base passed
    process tools P require merge wallClock space templateMask r base stop =
      report tools (baselined P) require merge wallClock seen.1 passed seen.2 := by
  obtain ⟨hframes, hpassed⟩ :=
    RecordingFrames.framesFrom_eq hopen (framesUntil r stop) (baselined P).stride (baselined P).baselineFrames
  rw [process]
  dsimp only
  rw [hframes, hpassed]
  rfl

section
variable {tools : Instruments v box} {P : Settings}

def baselineOf (P : Settings) (ls : List (Look tools)) : List (Detection box) :=
  baselineMarks ((ls.take P.baselineFrames).filterMap Look.detections) P.matchPx

/-- The Looks past the baseline, stripped of it. -/
def newLooks (P : Settings) (ls : List (Look tools)) : List (Persistence.Look box) :=
  (ls.drop P.baselineFrames).map (Look.new (baselineOf P ls) P.matchPx)

def residualOf (P : Settings) (ls : List (Look tools)) : List ℚ :=
  (ls.drop P.baselineFrames).flatMap fun l => (l.stripped (baselineOf P ls) P.matchPx).elim [] Prod.snd

/-- The Detections of the Looks past the baseline that Change Evidence saw. -/
def corroborationOf (P : Settings) (ls : List (Look tools)) : List (Detection box) :=
  let canvases := ((ls.take P.baselineFrames).filterMap Look.seen).head?.map (·.2.1)
  (ls.drop P.baselineFrames).flatMap (Look.corroborating canvases (baselineOf P ls) P.matchPx)

/-- The Bullet Holes reported of those that persisted. -/
def reported (P : Settings) (require merge : Bool) (last : BoardView v) (ls : List (Look tools))
    (persisted : List (Hole box)) : List (Found box) :=
  mergeDisplaced merge (last.targets.map tools.outline)
    (found (tools.measured last) require (corroborationOf P ls) P.matchPx persisted)

theorem report_eq {ls : List (Look tools)} {processed : ℕ} {persisted : List (Hole box)}
    (h : (run P ((newLooks P ls).map Persistence.Look.event)).end P processed false = .ok persisted)
    (require merge : Bool) (wallClock : ℕ → ℤ) (last : Registration v) :
    let new := reported P require merge last.last ls persisted
    report tools P require merge wallClock last processed ls = .ok {
      holes := new
      baseline := baselineOf P ls
      residual := residualOf P ls
      lost := (run P ((newLooks P ls).map Persistence.Look.event)).lost.length
      reanchors := last.reanchors
      persisted
      published := new.map fun x => confirmed (tools.measured last.last) wallClock x.hole } := by
  intro new
  change (do
    let persisted ← (run P ((newLooks P ls).map Persistence.Look.event)).end P processed false
    _) = _
  rw [h]
  rfl

theorem found_sublist (measured : Announcer.View) (require : Bool) (corroboration : List (Detection box))
    (matchPx : ℚ) (persisted : List (Hole box)) :
    ((found measured require corroboration matchPx persisted).map Found.hole).Sublist persisted := by
  let new := persisted.map fun hole =>
    (⟨hole, corroborates corroboration hole.box matchPx, measured.assign hole.pos⟩ : Found box)
  have hnew : new.map Found.hole = persisted := by simp [new, Function.comp_def]
  have hsub : (new.filter fun x => !require || x.corroborated).Sublist new := List.filter_sublist
  have hmap := hsub.map Found.hole
  rwa [hnew] at hmap

variable {new : List (Found box)} {merge : Bool} {targets : List Outline}

/-- A track is the Bullet Hole at its place. -/
theorem of_mem_tracks {t : Track box} (h : t ∈ tracks new) : ∃ x, new[t.id]? = some x ∧ x.hole = t.hole := by
  obtain ⟨⟨x, id⟩, hx, hsome⟩ := List.mem_filterMap.mp h
  have hplace := List.mem_zipIdx_iff_getElem?.mp hx
  split at hsome
  · cases hsome
    exact ⟨x, hplace, rfl⟩
  · cases hsome

private theorem mem_tracks {t : Track box} {x : Found box} (h : new[t.id]? = some x) (hhole : t.hole = x.hole) :
    t ∈ tracks new := by
  obtain ⟨id, hole, hmem, hle⟩ := t
  obtain rfl : hole = x.hole := hhole
  refine List.mem_filterMap.mpr ⟨(x, id), List.mem_zipIdx_iff_getElem?.mpr h, ?_⟩
  rw [dif_pos ⟨hmem, hle⟩]

theorem mergeDisplaced_sublist (merge : Bool) (targets : List Outline) (new : List (Found box)) :
    (mergeDisplaced merge targets new).Sublist new := by
  unfold mergeDisplaced
  split
  · have hsub := (List.filter_sublist (l := new.zipIdx) (p := fun x => x.2 ∉
      (mergeDisplacedTracks (tracks new) (some targets) maxDisplacementFraction).2.map fun pair => pair.2.id)).map Prod.fst
    rwa [List.zipIdx_map_fst] at hsub
  · exact List.Sublist.refl _

/-- A Bullet Hole that merging leaves out is a displaced sighting of an earlier one. -/
theorem mergeDisplaced_left {x : Found box} (hx : x ∈ new) :
    x ∈ mergeDisplaced merge targets new ∨ merge = true ∧ ∃ centre earlier later, centreOf (some targets) = some centre ∧
      earlier.hole ∈ new.map Found.hole ∧ later.hole = x.hole ∧
      Displaced centre maxDisplacementFraction earlier later := by
  cases merge with
  | false => exact .inl hx
  | true =>
    obtain ⟨i, hi⟩ := List.getElem?_of_mem hx
    by_cases habsorbed : i ∈ (mergeDisplacedTracks (tracks new) (some targets) maxDisplacementFraction).2.map
        fun pair => pair.2.id
    · refine .inr ⟨rfl, ?_⟩
      obtain ⟨⟨earlier, later⟩, hpair, rfl⟩ := List.mem_map.mp habsorbed
      cases hcentre : centreOf (some targets) with
      | none =>
        rw [mergeDisplacedTracks, hcentre] at hpair
        cases hpair
      | some centre =>
        obtain ⟨m, hinv, heq⟩ := DisplacedTracks.exists_inv (tracks new) maxDisplacementFraction hcentre
        rw [heq] at hpair
        obtain ⟨hearlier, hlater⟩ := hinv.mem _ hpair
        obtain ⟨y, hy, hyhole⟩ := of_mem_tracks hearlier
        obtain ⟨z, hz, hzhole⟩ := of_mem_tracks hlater
        obtain rfl : z = x := Option.some.inj (hz.symm.trans hi)
        exact ⟨centre, earlier, later, rfl, hyhole ▸ List.mem_map_of_mem (List.mem_of_getElem? hy), hzhole.symm,
          hinv.sound _ hpair⟩
    · refine .inl (List.mem_map.mpr ⟨(x, i), List.mem_filter.mpr ⟨?_, ?_⟩, rfl⟩)
      · exact List.mem_zipIdx_iff_getElem?.mpr hi
      · exact decide_eq_true habsorbed

/-- Merged, none is a displaced sighting of another. -/
theorem mergeDisplaced_apart {centre : Fin 2 → ℚ} (hcentre : centreOf (some targets) = some centre)
    {earlier later : Track box} (hearlier : earlier.hole ∈ (mergeDisplaced true targets new).map Found.hole)
    (hlater : later.hole ∈ (mergeDisplaced true targets new).map Found.hole) :
    ¬ Displaced centre maxDisplacementFraction earlier later := by
  obtain ⟨m, hinv, heq⟩ := DisplacedTracks.exists_inv (tracks new) maxDisplacementFraction hcentre
  have hkept (t : Track box) (ht : t.hole ∈ (mergeDisplaced true targets new).map Found.hole) :
      ∃ i, (⟨i, t.hole, t.first_mem, t.first_le⟩ : Track box) ∈ tracks new ∧
        (⟨i, t.hole, t.first_mem, t.first_le⟩ : Track box) ∈ m.alive := by
    obtain ⟨x, hx, hhole⟩ := List.mem_map.mp ht
    obtain ⟨⟨y, i⟩, hy, rfl⟩ := List.mem_map.mp hx
    obtain ⟨hplace, hleft⟩ := List.mem_filter.mp hy
    have hmem : (⟨i, t.hole, t.first_mem, t.first_le⟩ : Track box) ∈ tracks new :=
      mem_tracks (List.mem_zipIdx_iff_getElem?.mp hplace) hhole.symm
    refine ⟨i, hmem, (hinv.alive_iff _ hmem).mpr fun habsorbed => ?_⟩
    rw [heq] at hleft
    obtain ⟨pair, hpair, hsnd⟩ := List.mem_map.mp habsorbed
    exact of_decide_eq_true hleft (List.mem_map.mpr ⟨pair, hpair, congrArg Track.id hsnd⟩)
  obtain ⟨i, hi, hialive⟩ := hkept earlier hearlier
  obtain ⟨j, hj, hjalive⟩ := hkept later hlater
  intro hdisplaced
  exact hinv.irreducible _ hj hjalive _ hi hialive ⟨hdisplaced.apart, hdisplaced.begins, hdisplaced.ends, hdisplaced.near⟩

theorem reported_sublist (P : Settings) (require merge : Bool) (last : BoardView v) (ls : List (Look tools))
    (persisted : List (Hole box)) : ((reported P require merge last ls persisted).map Found.hole).Sublist persisted :=
  ((mergeDisplaced_sublist ..).map _).trans (found_sublist ..)

variable {ls : List (Look tools)}

theorem newLooks_index : (newLooks P ls).map Persistence.Look.index = (ls.drop P.baselineFrames).map Look.index := by
  rw [newLooks, List.map_map]
  rfl

theorem past_newLooks {processed : ℕ} (h : ∀ l ∈ ls, l.index < processed) :
    Persistence.Past (newLooks P ls) processed := by
  intro x hx
  obtain ⟨l, hl, rfl⟩ := List.mem_map.mp hx
  exact h l (List.mem_of_mem_drop hl)

theorem InTurn.scheduled_newLooks (h : InTurn P ls) :
    Scheduled P 0 [] ((newLooks P ls).map Persistence.Look.event) :=
  (h.sublist (List.drop_sublist _ _)).scheduled (fun _ _ => Nat.zero_le _) _ _

variable {more : List (Look tools)}

theorem baselineOf_append (h : P.baselineFrames ≤ ls.length) : baselineOf P (ls ++ more) = baselineOf P ls := by
  rw [baselineOf, List.take_append_of_le_length h]
  rfl

/-- A baseline still short is built on; the Looks past a whole one go on. -/
theorem newLooks_append (P : Settings) (ls more : List (Look tools)) :
    ∃ after, newLooks P (ls ++ more) = newLooks P ls ++ after ∧
    ∀ x ∈ after, ∃ l ∈ more, l.index = x.index := by
  rcases Nat.lt_or_ge ls.length P.baselineFrames with hlt | hle
  · have hnone : newLooks P ls = [] := by rw [newLooks, List.drop_eq_nil_of_le hlt.le, List.map_nil]
    refine ⟨newLooks P (ls ++ more), by rw [hnone, List.nil_append], fun x hx => ?_⟩
    obtain ⟨l, hl, rfl⟩ := List.mem_map.mp hx
    rw [List.drop_append, List.drop_eq_nil_of_le hlt.le, List.nil_append] at hl
    exact ⟨l, List.mem_of_mem_drop hl, rfl⟩
  · refine ⟨more.map (Look.new (baselineOf P ls) P.matchPx), ?_, fun x hx => ?_⟩
    · rw [newLooks, List.drop_append_of_le_length hle, baselineOf_append hle, List.map_append]
      rfl
    · obtain ⟨l, hl, rfl⟩ := List.mem_map.mp hx
      exact ⟨l, hl, rfl⟩

theorem residualOf_append (h : P.baselineFrames ≤ ls.length) : residualOf P ls <+: residualOf P (ls ++ more) := by
  rw [residualOf, residualOf, List.drop_append_of_le_length h, baselineOf_append h, List.flatMap_append]
  exact List.prefix_append _ _

end

private theorem baselineFrames_le_length (tools : Instruments v box) {P : Settings} (space : BoardView v)
    (templateMask : v.Image) {held : List v.Frame} (base : v.Frame) {passed : ℕ} (h : P.baselineFrames ≤ passed)
    (hpassed : passed ≤ held.length) :
    P.baselineFrames ≤ (looksTo tools P space templateMask held base passed).2.length := by
  obtain ⟨n, rfl⟩ := Nat.exists_eq_add_of_le h
  have hbaseline : (List.range P.baselineFrames).filter P.due = List.range P.baselineFrames := by
    refine List.filter_eq_self.mpr fun i hi => ?_
    simp [Settings.due, Persistence.lookedAt, List.mem_range.mp hi]
  have hlength := congrArg List.length (looksTo_index tools P space templateMask base hpassed)
  rw [List.length_map, List.range_add, List.filter_append, hbaseline, List.length_append, List.length_range] at hlength
  omega

private theorem framesUntil_mono {r : Recording v.Frame} (hfps : 0 ≤ r.fps) {stop stop' : ℚ} (hstop : stop ≤ stop') :
    framesUntil r stop ≤ framesUntil r stop' := by
  rw [framesUntil, framesUntil, RecordingFrames.framesUntil, RecordingFrames.framesUntil, Rounding.toNat_truncate,
    Rounding.toNat_truncate]
  apply Int.toNat_le_toNat
  apply Int.floor_le_floor
  exact mul_le_mul_of_nonneg_right (by linarith) hfps

/-- To stop a Run later changes nothing of what it had judged. -/
theorem process_extends (tools : Instruments v box) (P : Settings) (require merge : Bool) (wallClock : ℕ → ℤ)
    (space : BoardView v) (templateMask : v.Image) {frames : List v.Frame} {fps startS : ℚ} {r : Recording v.Frame}
    {base : v.Frame} (hopen : Recording.openAt frames fps startS = some (r, base)) (hfps : 0 ≤ r.fps)
    {stop stop' : ℚ} (hstop : stop ≤ stop') :
    let passed := min (framesUntil r stop) (frames.drop (seeked fps startS)).length
    ∃ short long, process tools P require merge wallClock space templateMask r base stop = .ok short ∧
      process tools P require merge wallClock space templateMask r base stop' = .ok long ∧
      (short.persisted.map Hole.key).Perm ((long.persisted.filter (Hole.elapsed P passed)).map Hole.key) ∧
      (max 1 P.baselineFrames ≤ passed → long.baseline = short.baseline ∧ short.residual <+: long.residual) := by
  intro passed
  set held := frames.drop (seeked fps startS) with hheld
  set passed' := min (framesUntil r stop') held.length
  have hle : passed ≤ passed' := min_le_min_right _ (framesUntil_mono hfps hstop)
  have hpassed' : passed' ≤ held.length := min_le_right _ _
  have hpassed : passed ≤ held.length := min_le_right _ _
  set seen := looksTo tools (baselined P) space templateMask held base passed
  set seen' := looksTo tools (baselined P) space templateMask held base passed'
  obtain ⟨more, hmore, hlater⟩ : ∃ more, seen'.2 = seen.2 ++ more ∧ ∀ l ∈ more, passed ≤ l.index :=
    looksTo_le _ _ _ _ _ hle hpassed'
  obtain ⟨after, hnew, hafter⟩ := newLooks_append (baselined P) seen.2 more
  rw [← hmore] at hnew
  have hturn : InTurn (baselined P) seen'.2 := inTurn_looksTo _ _ _ _ _ hpassed'
  have hbefore : Persistence.Past (newLooks (baselined P) seen.2) passed :=
    past_newLooks (index_lt_of_looksTo _ _ _ _ _ hpassed)
  have hpast : Persistence.Past (newLooks (baselined P) seen'.2) passed' :=
    past_newLooks (index_lt_of_looksTo _ _ _ _ _ hpassed')
  have hfrom : ∀ x ∈ after, passed ≤ x.index := by
    intro x hx
    obtain ⟨l, hl, hindex⟩ := hafter x hx
    exact (hlater l hl).trans_eq hindex
  obtain ⟨short, long, hshort, hlong, hkeys⟩ :=
    Persistence.end_before (hnew ▸ hturn.scheduled_newLooks) hbefore hfrom hle (hnew ▸ hpast)
  rw [← hnew] at hlong
  refine ⟨_, _, (process_eq hopen ..).trans (report_eq hshort ..), (process_eq hopen ..).trans (report_eq hlong ..),
    hkeys, fun hbaseline => ?_⟩
  have hwhole : (baselined P).baselineFrames ≤ seen.2.length :=
    baselineFrames_le_length tools space templateMask base hbaseline hpassed
  exact ⟨by rw [hmore]; exact baselineOf_append hwhole, by rw [hmore]; exact residualOf_append hwhole⟩

/-- A camera that never moves, its frames the marks they show. -/
def fixedCamera : Vision where
  Frame := List (ℚ × ℚ)
  Image := Unit
  Contour := Unit
  Matrix := Unit
  mul _ _ := ()
  inv _ := ()
  gray _ := ()
  findTargets _ := ([], ())
  register _ _ _ := none
  boardShift _ _ _ _ := some ()
  eccWarp _ _ _ _ := some ((), .finite 1)
  centreOffset _ _ _ _ := .finite 0

def markDetector : Instruments fixedCamera 0 where
  Canvases := List (ℚ × ℚ)
  sheetCanvases _ marks := marks
  detectSheets _ marks := marks.map fun m => ![m.1, m.2]
  changed _ first current p := decide ((p 0, p 1) ∈ current ∧ (p 0, p 1) ∉ first)
  measured _ := ⟨1, 0, fun _ => none, fun _ _ => none, by norm_num⟩
  outline _ := [![0, 0]]

def flatBoard : BoardView fixedCamera := ⟨(), (), (1, 1), [], ⟨(), (), ()⟩, [], []⟩

/-- A mark on the Board from the start, and a hit before the third of nine frames. -/
def oneHit : List fixedCamera.Frame :=
  [[(9, 9)], [(9, 9)]] ++ List.replicate 7 [(3, 4), (9, 9)]

def oneHitOpened : Recording fixedCamera.Frame := { cap := ⟨oneHit, 1⟩, fps := 1, startS := 0 }

theorem openAt_oneHit : Recording.openAt oneHit 1 0 = some (oneHitOpened, [(9, 9)]) := by
  have hseeked : seeked 1 0 = 0 := by decide +kernel
  rw [Recording.openAt, hseeked]
  rfl

theorem process_extends_oneHit : ∃ short long : Run 0,
    process markDetector strideTwo true false Int.ofNat flatBoard () oneHitOpened [(9, 9)] 5 = .ok short ∧
      process markDetector strideTwo true false Int.ofNat flatBoard () oneHitOpened [(9, 9)] 9 = .ok long ∧
      (short.persisted.map Hole.key).Perm ((long.persisted.filter (Hole.elapsed strideTwo 5)).map Hole.key) := by
  have hpassed : min (framesUntil oneHitOpened 5) (oneHit.drop (seeked 1 0)).length = 5 := by decide +kernel
  obtain ⟨short, long, hshort, hlong, hkeys, -⟩ := process_extends markDetector strideTwo true false Int.ofNat flatBoard ()
    openAt_oneHit (by decide)
      (show (5 : ℚ) ≤ 9 by norm_num)
  rw [hpassed] at hkeys
  exact ⟨short, long, hshort, hlong, hkeys⟩

/-- A frame's index and a Detection in it. -/
abbrev Sighting (box : ℕ) := ℕ × Detection box

structure MadeOf (c : Candidate box) (made : List (Sighting box)) : Prop where
  seen : c.seenFrameIdxs = made.map Prod.fst
  first : (made.map Prod.fst).head? = some c.firstIdx
  pos : c.pos = mean (made.map Prod.snd)

private theorem madeOf_opened (idx : ℕ) (p : Detection box) : MadeOf ⟨p, [idx], idx⟩ [(idx, p)] where
  seen := rfl
  first := rfl
  pos := by
    funext i
    simp [mean]

theorem MadeOf.gather {c : Candidate box} {made : List (Sighting box)} (h : MadeOf c made) (idx : ℕ)
    (p : Detection box) : MadeOf (c.gather idx p) (made ++ [(idx, p)]) where
  seen := by rw [List.map_append, Candidate.gather, h.seen]; rfl
  first := by
    have hfirst := h.first
    cases made with
    | nil => cases hfirst
    | cons x made => exact hfirst
  pos := by
    funext i
    rw [List.map_append, List.map_cons, List.map_nil, Announcer.mean_concat, Candidate.gather, h.seen, h.pos,
      List.length_map, List.length_map]

theorem forall₂_modify {α β : Type} {R : α → β → Prop} {f : α → α} {g : β → β} (hR : ∀ a b, R a b → R (f a) (g b))
    {xs : List α} {ys : List β} (h : List.Forall₂ R xs ys) (k : ℕ) :
    List.Forall₂ R (xs.modify k f) (ys.modify k g) := by
  induction h generalizing k with
  | nil => cases k <;> exact .nil
  | cons hab hrest ih =>
    cases k with
    | zero => exact .cons (hR _ _ hab) hrest
    | succ k => exact .cons hab (ih k)

/-- Every Candidate is made of sightings, and each of `all` is in one. -/
def Grouped (candidates : List (Candidate box)) (all : List (Sighting box)) : Prop :=
  ∃ made, List.Forall₂ MadeOf candidates made ∧ made.flatten.Perm all

variable {candidates : List (Candidate box)} {all : List (Sighting box)}

theorem Grouped.foldOne (h : Grouped candidates all) (idx : ℕ) (matchPx : ℚ) (closed : Finset ℕ)
    (p : Detection box) : Grouped (foldOne idx matchPx true closed candidates p) (all ++ [(idx, p)]) := by
  obtain ⟨made, hmade, hperm⟩ := h
  rcases foldOne_cases idx matchPx true closed candidates p with ⟨k, hk, -, -, heq⟩ | ⟨-, heq⟩
  · refine ⟨made.modify k (· ++ [(idx, p)]), ?_, ?_⟩
    · rw [heq]
      exact forall₂_modify (fun _ _ hc => hc.gather idx p) hmade k
    · exact (perm_modify_concat (hmade.length_eq ▸ hk) (idx, p)).trans (hperm.append_right _)
  · refine ⟨made ++ [[(idx, p)]], ?_, ?_⟩
    · rw [heq, if_pos rfl]
      exact List.rel_append hmade (.cons (madeOf_opened idx p) .nil)
    · simpa using hperm.append_right [(idx, p)]

theorem Grouped.fold (h : Grouped candidates all) (idx : ℕ) (matchPx : ℚ) (closed : Finset ℕ)
    (pts : List (Detection box)) : Grouped (fold candidates idx pts matchPx true closed) (all ++ pts.map (idx, ·)) := by
  induction pts generalizing candidates all with
  | nil => simpa [Persistence.fold] using h
  | cons p pts ih =>
    have hrest := ih (h.foldOne idx matchPx closed p)
    rwa [List.append_assoc] at hrest

/-- The sightings of a Run's Looks. -/
def sightings (ls : List (Persistence.Look box)) : List (Sighting box) :=
  ls.flatMap fun l => (l.pts.getD []).map (l.index, ·)

theorem Grouped.step (P : Settings) {s : State box} (h : Grouped s.candidates all) (l : Persistence.Look box)
    (hopening : l.opening = true) :
    Grouped (s.step P l.event).candidates (all ++ (l.pts.getD []).map (l.index, ·)) := by
  obtain ⟨index, pts, opening⟩ := l
  obtain rfl : opening = true := hopening
  cases pts with
  | none => simpa [State.step, Persistence.Look.event, State.add, State.register] using h
  | some pts => exact h.fold index P.matchPx _ pts

private theorem grouped_run (P : Settings) {ls : List (Persistence.Look box)} (hopening : ∀ l ∈ ls, l.opening = true) :
    Grouped (run P (ls.map Persistence.Look.event)).candidates (sightings ls) := by
  have hfold (s : State box) (all : List (Sighting box)) (h : Grouped s.candidates all) :
      Grouped ((ls.map Persistence.Look.event).foldl (State.step P) s).candidates (all ++ sightings ls) := by
    induction ls generalizing s all with
    | nil => simpa [sightings] using h
    | cons l ls ih =>
      have hstep := h.step P l (hopening l List.mem_cons_self)
      have hrest := ih (fun l' hl' => hopening l' (List.mem_cons_of_mem _ hl')) _ _ hstep
      rwa [List.append_assoc] at hrest
  exact hfold {} [] ⟨[], .nil, .nil⟩

/-- A group reported once its window has passed: enough of the Looks tried in it registered, and enough of those saw
the group. -/
def reportOf (P : Settings) (ls : List (Persistence.Look box)) (passed : ℕ) (made : List (Sighting box)) :
    Option (Hole box) :=
  let frames := (made.map Prod.fst).toFinset
  (made.map Prod.fst).head?.bind fun first =>
    let tried := ls.filter fun l => first ≤ l.index ∧ l.index < first + P.window
    let registered := tried.countP fun l => l.pts.isSome
    let hits := (frames.filter fun i => first ≤ i ∧ i < first + P.window).card
    if first + P.window ≤ passed ∧ 0 < registered ∧ P.persist * tried.length ≤ registered ∧
        P.persist * registered ≤ hits then
      some {
        pos := centre (mean (made.map Prod.snd))
        box := mean (made.map Prod.snd)
        firstFrame := first
        seen := frames.sort (· ≤ ·)
        persistence := hits / registered }
    else none

/-- The frames of a Run's Looks, by whether they registered. -/
theorem run_looks (P : Settings) (ls : List (Persistence.Look box)) :
    (run P (ls.map Persistence.Look.event)).lookedAt = (ls.filter fun l => l.pts.isSome).map (·.index) ∧
      (run P (ls.map Persistence.Look.event)).lost = (ls.filter fun l => l.pts.isNone).map (·.index) := by
  have hfold (s : State box) :
      ((ls.map Persistence.Look.event).foldl (State.step P) s).lookedAt =
          s.lookedAt ++ (ls.filter fun l => l.pts.isSome).map (·.index) ∧
        ((ls.map Persistence.Look.event).foldl (State.step P) s).lost =
          s.lost ++ (ls.filter fun l => l.pts.isNone).map (·.index) := by
    induction ls generalizing s with
    | nil => simp
    | cons l ls ih =>
      obtain ⟨hlooked, hlost⟩ := ih (s.step P l.event)
      rw [List.map_cons, List.foldl_cons, hlooked, hlost]
      cases hpts : l.pts <;> simp [hpts, State.step, Persistence.Look.event, State.add, State.register]
  exact hfold {}

theorem countBetween_map (p : Persistence.Look box → Bool) (ls : List (Persistence.Look box)) (lo hi : ℕ) :
    countBetween ((ls.filter p).map (·.index)) lo hi =
      (ls.filter fun l => lo ≤ l.index ∧ l.index < hi).countP p := by
  rw [countBetween, List.countP_map, List.countP_filter, List.countP_filter]
  exact List.countP_congr fun l _ => by simp [and_comm]

private theorem length_eq_countP (ls : List (Persistence.Look box)) :
    ls.length = ls.countP (fun l => l.pts.isSome) + ls.countP fun l => l.pts.isNone := by
  rw [List.length_eq_countP_add_countP fun l : Persistence.Look box => l.pts.isSome]
  exact congrArg _ (List.countP_congr fun l _ => by cases l.pts <;> simp)

/-- A Candidate is reported as the group it is made of. -/
theorem windowReport_eq {P : Settings} {ls : List (Persistence.Look box)} {passed id : ℕ} {made : List (Sighting box)}
    (h : MadeOf ((run P (ls.map Persistence.Look.event)).candidate id) made) :
    windowReport P (run P (ls.map Persistence.Look.event)) passed id = reportOf P ls passed made := by
  set s := run P (ls.map Persistence.Look.event)
  obtain ⟨hlooked, hlost⟩ := run_looks P ls
  obtain ⟨f, hf⟩ : ∃ f, (s.candidate id).firstIdx = f := ⟨_, rfl⟩
  set tried := ls.filter fun l => f ≤ l.index ∧ l.index < f + P.window with htried
  have hspan : countBetween s.lookedAt f (f + P.window) = tried.countP fun l => l.pts.isSome := by
    rw [hlooked, countBetween_map]
  have hmissed : countBetween s.lost f (f + P.window) = tried.countP fun l => l.pts.isNone := by
    rw [hlost, countBetween_map]
  have hhits : Persistence.hits P.window (s.candidate id) =
      ((made.map Prod.fst).toFinset.filter fun i => f ≤ i ∧ i < f + P.window).card := by
    rw [Persistence.hits, h.seen, hf]
  have hlength : (tried.countP fun l => l.pts.isSome) + (tried.countP fun l => l.pts.isNone) = tried.length :=
    (length_eq_countP tried).symm
  simp only [windowReport, windowVerdict, reportOf, h.first, Option.bind_some, State.windowEnd, Candidate.seen, hf,
    ← htried]
  rw [hspan, hmissed, hhits, hlength, h.seen, h.pos]
  by_cases hw : f + P.window ≤ passed
  · by_cases hbar : 0 < (tried.countP fun l => l.pts.isSome) ∧
        P.persist * tried.length ≤ (tried.countP fun l => l.pts.isSome : ℕ) ∧
        P.persist * (tried.countP fun l => l.pts.isSome : ℕ) ≤
          (((made.map Prod.fst).toFinset.filter fun i => f ≤ i ∧ i < f + P.window).card : ℕ)
    · rw [if_pos hw, if_pos hbar, if_pos ⟨hw, hbar⟩]
    · rw [if_pos hw, if_neg hbar, if_neg fun hall => hbar hall.2]
  · rw [if_neg hw, if_neg fun hall => hw hall.1]

private theorem filterMap_range_getD {α β : Type} (f : α → Option β) (xs : List α) (d : α) :
    ((List.range xs.length).filterMap fun i => f (xs.getD i d)) = xs.filterMap f := by
  have hids : (List.range xs.length).map (fun i => xs.getD i d) = xs := by
    refine List.ext_getElem (by simp) fun i hi hi' => ?_
    simp [List.getElem?_eq_getElem hi']
  calc (List.range xs.length).filterMap (fun i => f (xs.getD i d))
      = ((List.range xs.length).map fun i => xs.getD i d).filterMap f := by rw [List.filterMap_map]; rfl
    _ = xs.filterMap f := by rw [hids]

private theorem pairwise_firstFrame (holes : List (Hole box)) :
    (holes.mergeSort fun a b => a.firstFrame ≤ b.firstFrame).Pairwise fun a b => a.firstFrame ≤ b.firstFrame := by
  let le (a b : Hole box) : Bool := a.firstFrame ≤ b.firstFrame
  have htrans (a b c : Hole box) : le a b → le b c → le a c := by
    simp only [le, decide_eq_true_eq]
    omega
  have htotal (a b : Hole box) : le a b || le b a := by
    simp only [le, Bool.or_eq_true, decide_eq_true_eq]
    omega
  have hsorted := List.pairwise_mergeSort htrans htotal holes
  exact hsorted.imp fun h => of_decide_eq_true h

/-- What `end` reports of a Run are the groups of its sightings that meet the bar, by first frame. -/
theorem end_groups {P : Settings} {ls : List (Persistence.Look box)} {passed : ℕ}
    (hopening : ∀ l ∈ ls, l.opening = true) (hsched : Scheduled P 0 [] (ls.map Persistence.Look.event))
    (hpast : Persistence.Past ls passed) :
    ∃ holes made, (run P (ls.map Persistence.Look.event)).end P passed false = .ok holes ∧
      List.Perm (List.flatten made) (sightings ls) ∧
      (holes.map Hole.undated).Perm (made.filterMap (reportOf P ls passed)) ∧
      holes.Pairwise fun a b => a.firstFrame ≤ b.firstFrame := by
  obtain ⟨q, hq, hinv, hsim⟩ := simulates_run hsched
  obtain ⟨holes, hend, hperm⟩ := end_perm_windowReport hinv hsim (hq passed hpast)
  obtain ⟨made, hmade, hall⟩ := grouped_run P hopening
  refine ⟨holes, made, hend, hall, hperm.trans (.of_eq ?_), ?_⟩
  · rw [← filterMap_range_getD _ made [], ← hmade.length_eq]
    refine List.filterMap_congr fun id hid => ?_
    have hlt := List.mem_range.mp hid
    have hof := hmade.get hlt (hmade.length_eq ▸ hlt)
    apply windowReport_eq
    simpa [State.candidate, candidateAt, List.getD_eq_getElem?_getD, hlt, hmade.length_eq ▸ hlt] using hof
  · rw [end_eq hinv, Except.ok.injEq] at hend
    rw [← hend]
    exact pairwise_firstFrame _

theorem le_getElem_of_increasing {xs : List ℕ} (h : xs.Pairwise (· < ·)) (i : ℕ) (hi : i < xs.length) : i ≤ xs[i] := by
  induction i with
  | zero => exact Nat.zero_le _
  | succ i ih =>
    have hbefore := ih (by omega)
    have hstep := List.pairwise_iff_getElem.mp h i (i + 1) (by omega) hi (Nat.lt_succ_self i)
    omega

/-- The Looks past the baseline are those of the frames past it. -/
theorem baselineFrames_le_index {tools : Instruments v box} {P : Settings} {space : BoardView v}
    {templateMask : v.Image} {held : List v.Frame} {base : v.Frame} {passed : ℕ} (hpassed : passed ≤ held.length) :
    ∀ l ∈ (looksTo tools P space templateMask held base passed).2.drop P.baselineFrames,
      P.baselineFrames ≤ l.index := by
  intro l hl
  obtain ⟨i, hi, rfl⟩ := List.mem_iff_getElem.mp hl
  have hsorted := (inTurn_looksTo tools P space templateMask base hpassed).sorted
  rw [List.length_drop] at hi
  have hle := le_getElem_of_increasing hsorted (P.baselineFrames + i) (by rw [List.length_map]; omega)
  rw [List.getElem_map] at hle
  rw [List.getElem_drop]
  omega

/-- A sighting that counts: of a Look past the baseline, clear of every Baseline Mark. -/
theorem sightings_new {tools : Instruments v box} {P : Settings} {ls : List (Look tools)} (hmatch : 0 < P.matchPx) :
    ∀ x ∈ sightings (newLooks P ls), ∃ l ∈ ls.drop P.baselineFrames, l.index = x.1 ∧
      (∃ pts, l.detections = some pts ∧ x.2 ∈ pts) ∧
      ∀ m ∈ baselineOf P ls, (P.matchPx : ℝ) ≤ BaselineMarks.distance m x.2 := by
  intro x hx
  obtain ⟨new, hnew, hx⟩ := List.mem_flatMap.mp hx
  obtain ⟨l, hl, rfl⟩ := List.mem_map.mp hnew
  obtain ⟨p, hp, rfl⟩ := List.mem_map.mp hx
  refine ⟨l, hl, rfl, ?_⟩
  cases hpts : l.detections with
  | none => simp [Look.new, Look.stripped, hpts] at hp
  | some pts =>
    obtain ⟨_, -, -, -, hclear⟩ := BaselineMarks.strip_splits hmatch (baselineOf P ls) pts
    simp only [Look.new, Look.stripped, hpts, Option.map_some, Option.getD_some] at hp
    refine ⟨⟨pts, rfl, (hclear p hp).1⟩, fun m hm => ?_⟩
    by_contra hlt
    exact (hclear p hp).2 ⟨m, hm, not_le.mp hlt⟩

/-- The sighting Change Evidence saw on a Bullet Hole kept for it. -/
theorem found_seen {tools : Instruments v box} {P : Settings} {ls : List (Look tools)} {measured : Announcer.View}
    {persisted : List (Hole box)} :
    ∀ x ∈ found measured true (corroborationOf P ls) P.matchPx persisted, ∃ y ∈ sightings (newLooks P ls),
      sameBulletHole y.2 x.hole.box P.matchPx = true ∧ ∃ l ∈ ls, l.index = y.1 ∧ ∃ current first canvases pts,
        l.seen = some (current, canvases, pts) ∧ tools.changed current first canvases y.2 = true := by
  intro x hx
  obtain ⟨hmem, hkept⟩ := List.mem_filter.mp hx
  obtain ⟨hole, -, rfl⟩ := List.mem_map.mp hmem
  obtain ⟨p, hp, hsame⟩ := List.any_eq_true.mp (show corroborates _ hole.box P.matchPx = true from by simpa using hkept)
  obtain ⟨l, hl, hp⟩ := List.mem_flatMap.mp hp
  unfold Look.corroborating at hp
  split at hp
  · next current canvases pts first hseen _ =>
    obtain ⟨hp, hchanged⟩ := List.mem_filter.mp hp
    refine ⟨(l.index, p), ?_, hsame, l, List.mem_of_mem_drop hl, rfl, current, first, canvases, pts, hseen, hchanged⟩
    refine List.mem_flatMap.mpr ⟨l.new (baselineOf P ls) P.matchPx, List.mem_map_of_mem hl, ?_⟩
    simpa [Look.new, Look.stripped, Look.detections, hseen] using hp
  · cases hp

private theorem found_all (measured : Announcer.View) (corroboration : List (Detection box)) (matchPx : ℚ)
    (persisted : List (Hole box)) :
    (found measured false corroboration matchPx persisted).map Found.hole = persisted := by
  simp [found, Function.comp_def]

/-- A Bullet Hole that persisted and is not reported was not seen by Change Evidence, or is displaced. -/
theorem reported_left {tools : Instruments v box} {P : Settings} {require merge : Bool} {last : BoardView v}
    {ls : List (Look tools)} {persisted : List (Hole box)} {hole : Hole box} (hhole : hole ∈ persisted) :
    hole ∈ (reported P require merge last ls persisted).map Found.hole ∨
      (require = true ∧ corroborates (corroborationOf P ls) hole.box P.matchPx = false) ∨
      merge = true ∧ ∃ centre earlier later, centreOf (some (last.targets.map tools.outline)) = some centre ∧
        earlier.hole ∈ persisted ∧ later.hole = hole ∧ Displaced centre maxDisplacementFraction earlier later := by
  by_cases hseen : require = true ∧ corroborates (corroborationOf P ls) hole.box P.matchPx = false
  · exact .inr (.inl hseen)
  · have hfound : (⟨hole, corroborates (corroborationOf P ls) hole.box P.matchPx,
        (tools.measured last).assign hole.pos⟩ : Found box) ∈
        found (tools.measured last) require (corroborationOf P ls) P.matchPx persisted := by
      refine List.mem_filter.mpr ⟨List.mem_map_of_mem hhole, ?_⟩
      cases require with
      | false => rfl
      | true => simpa using hseen
    rcases mergeDisplaced_left hfound with hkept | ⟨hmerge, centre, earlier, later, hcentre, hearlier, hlater, hdisplaced⟩
    · exact .inl (List.mem_map_of_mem hkept)
    · exact .inr (.inr ⟨hmerge, centre, earlier, later, hcentre, (found_sublist ..).subset hearlier, hlater, hdisplaced⟩)

/-- No group meets the bar of a window with no Look in it. -/
theorem reportOf_eq_none {P : Settings} (hwindow : P.window = 0) (ls : List (Persistence.Look box)) (passed : ℕ)
    (made : List (Sighting box)) : reportOf P ls passed made = none := by
  rw [reportOf]
  cases (made.map Prod.fst).head? with
  | none => rfl
  | some first =>
    have htried : (ls.filter fun l => first ≤ l.index ∧ l.index < first + P.window) = [] := by
      refine List.filter_eq_nil_iff.mpr fun l _ => ?_
      simp [hwindow]
    simp only [Option.bind_some]
    rw [htried, List.countP_nil, if_neg fun h => absurd h.2.1 (Nat.lt_irrefl 0)]

/-- A Bullet Hole that persisted is first seen in the earliest frame that saw it. -/
theorem seen_first {P : Settings} {ls : List (Persistence.Look box)} {passed : ℕ} {holes : List (Hole box)}
    {made : List (List (Sighting box))} (hsched : Scheduled P 0 [] (ls.map Persistence.Look.event))
    (hend : (run P (ls.map Persistence.Look.event)).end P passed false = .ok holes)
    (hreported : (holes.map Hole.undated).Perm (made.filterMap (reportOf P ls passed))) :
    ∀ hole ∈ holes, hole.firstFrame ∈ hole.seen ∧ ∀ i ∈ hole.seen, hole.firstFrame ≤ i := by
  rcases Nat.eq_zero_or_pos P.window with hzero | hpos
  · have hnone : made.filterMap (reportOf P ls passed) = [] :=
      List.filterMap_eq_nil_iff.mpr fun group _ => reportOf_eq_none hzero ls passed group
    rw [hnone, List.perm_nil, List.map_eq_nil_iff] at hreported
    simp [hreported]
  · exact DisplacedTracks.reported_first hpos hsched hend

/-- A Run groups what is new in its Looks, each sighting in one group, and reports the groups that meet the bar, but for
those Change Evidence did not see, and displaced ones. -/
theorem process_reports (tools : Instruments v box) (P : Settings) (require merge : Bool) (wallClock : ℕ → ℤ)
    (space : BoardView v) (templateMask : v.Image) (hmatch : 0 < P.matchPx) {frames : List v.Frame} {fps startS : ℚ}
    {r : Recording v.Frame} {base : v.Frame} (hopen : Recording.openAt frames fps startS = some (r, base)) (stop : ℚ) :
    let held := frames.drop (seeked fps startS)
    let passed := min (framesUntil r stop) held.length
    let seen := looksTo tools (baselined P) space templateMask held base passed
    let ls := seen.2
    let new := newLooks (baselined P) ls
    let targets := seen.1.last.targets.map tools.outline
    ∃ out made, process tools P require merge wallClock space templateMask r base stop = .ok out ∧
      List.Perm (List.flatten made) (sightings new) ∧
      (out.persisted.map Hole.undated).Perm (made.filterMap (reportOf P new passed)) ∧
      (out.persisted.Pairwise fun a b => a.firstFrame ≤ b.firstFrame) ∧
      (∀ hole ∈ out.persisted, hole.firstFrame ∈ hole.seen ∧ ∀ i ∈ hole.seen, hole.firstFrame ≤ i) ∧
      (∀ x ∈ sightings new, ∃ l ∈ ls, l.index = x.1 ∧ max 1 P.baselineFrames ≤ x.1 ∧
        (∃ pts, l.detections = some pts ∧ x.2 ∈ pts) ∧
        ∀ m ∈ out.baseline, (P.matchPx : ℝ) ≤ BaselineMarks.distance m x.2) ∧
      (out.holes.map Found.hole).Sublist out.persisted ∧
      (require = false → merge = false → out.holes.map Found.hole = out.persisted) ∧
      (require = true → ∀ x ∈ out.holes, ∃ y ∈ sightings new, sameBulletHole y.2 x.hole.box P.matchPx = true ∧
        ∃ l ∈ ls, l.index = y.1 ∧ ∃ current first canvases pts, l.seen = some (current, canvases, pts) ∧
          tools.changed current first canvases y.2 = true) ∧
      (∀ hole ∈ out.persisted, hole ∈ out.holes.map Found.hole ∨
        (require = true ∧ corroborates (corroborationOf (baselined P) ls) hole.box P.matchPx = false) ∨
        merge = true ∧ ∃ centre earlier later, centreOf (some targets) = some centre ∧ earlier.hole ∈ out.persisted ∧
          later.hole = hole ∧ Displaced centre maxDisplacementFraction earlier later) ∧
      (merge = true → ∀ centre, centreOf (some targets) = some centre → ∀ earlier later : Track box,
        earlier.hole ∈ out.holes.map Found.hole → later.hole ∈ out.holes.map Found.hole →
          ¬ Displaced centre maxDisplacementFraction earlier later) ∧
      out.published.Pairwise fun a b => a.firstFrame ≤ b.firstFrame := by
  intro held passed seen ls new targets
  have hpassed : passed ≤ held.length := min_le_right _ _
  have hturn : InTurn (baselined P) ls := inTurn_looksTo _ _ _ _ _ hpassed
  have hopening : ∀ l ∈ new, l.opening = true := by
    intro l hl
    obtain ⟨_, -, rfl⟩ := List.mem_map.mp hl
    rfl
  obtain ⟨holes, made, hend, hall, hreported, hsorted⟩ := end_groups hopening hturn.scheduled_newLooks
    (past_newLooks (index_lt_of_looksTo _ _ _ _ _ hpassed))
  refine ⟨_, made, (process_eq hopen ..).trans (report_eq hend ..), hall, hreported, hsorted,
    seen_first hturn.scheduled_newLooks hend hreported, fun x hx => ?_, reported_sublist .., ?_, ?_,
    fun hole hhole => reported_left hhole, ?_, ?_⟩
  · obtain ⟨l, hl, hindex, hseen, hclear⟩ := sightings_new (P := baselined P) hmatch x hx
    have hpast := baselineFrames_le_index hpassed l hl
    exact ⟨l, List.mem_of_mem_drop hl, hindex, hindex ▸ hpast, hseen, hclear⟩
  · rintro rfl rfl
    exact found_all ..
  · rintro rfl x hx
    exact found_seen x ((mergeDisplaced_sublist ..).subset hx)
  · rintro rfl centre hcentre earlier later hearlier hlater
    exact mergeDisplaced_apart hcentre hearlier hlater
  · have hfirst := hsorted.sublist (reported_sublist (baselined P) require merge seen.1.last ls holes)
    rw [List.pairwise_map] at hfirst ⊢
    exact hfirst

theorem process_reports_oneHit :
    let ls := (looksTo markDetector strideTwo flatBoard () oneHit [(9, 9)] 9).2
    ∃ (out : Run 0) (made : List (List (Sighting 0))),
      process markDetector strideTwo true false Int.ofNat flatBoard () oneHitOpened [(9, 9)] 9 = .ok out ∧
      List.Perm (List.flatten made) (sightings (newLooks strideTwo ls)) ∧
      (out.persisted.map Hole.undated).Perm (made.filterMap (reportOf strideTwo (newLooks strideTwo ls) 9)) ∧
      (out.persisted.Pairwise fun a b => a.firstFrame ≤ b.firstFrame) ∧
      (out.holes.map Found.hole).Sublist out.persisted ∧
      (∀ x ∈ out.holes, ∃ y ∈ sightings (newLooks strideTwo ls), sameBulletHole y.2 x.hole.box 1 = true) ∧
      (∀ hole ∈ out.persisted, hole ∈ out.holes.map Found.hole ∨
        corroborates (corroborationOf strideTwo ls) hole.box 1 = false) ∧
      out.published.Pairwise fun a b => a.firstFrame ≤ b.firstFrame := by
  intro ls
  have hpassed : min (framesUntil oneHitOpened 9) (oneHit.drop (seeked 1 0)).length = 9 := by decide +kernel
  have hseeked : seeked 1 0 = 0 := by decide +kernel
  have hheld : oneHit.drop (seeked 1 0) = oneHit := by rw [hseeked, List.drop_zero]
  obtain ⟨out, made, hrun, hall, hreported, hsorted, -, -, hholes, -, hseen, hleft, -, hpublished⟩ :=
    process_reports markDetector strideTwo true false Int.ofNat flatBoard () (by decide) openAt_oneHit 9
  rw [hpassed, hheld] at hall hreported hseen hleft
  refine ⟨out, made, hrun, hall, hreported, hsorted, hholes, fun x hx => ?_, fun hole hhole => ?_, hpublished⟩
  · obtain ⟨y, hy, hsame, -⟩ := hseen rfl x hx
    exact ⟨y, hy, hsame⟩
  · rcases hleft hole hhole with hkept | ⟨-, hunseen⟩ | ⟨hmerge, -⟩
    · exact .inl hkept
    · exact .inr hunseen
    · cases hmerge

end Kanat.RecordingRuns
