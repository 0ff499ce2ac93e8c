import Kanat.ExactDistance
import Kanat.SortedIndices
import Mathlib.Data.Finset.Sort
import Mathlib.Data.Rat.Floor

/-! # The Persistence of a Run: Detections folded into Candidates and judged

A Look's Detections fold into Candidates kept by reference; a reference is here
the Candidate's index in `candidates`. Arithmetic is exact, over `ℚ`. -/
namespace Kanat.Persistence
open SortedIndices ExactDistance

/-- One row of a Look's array: `(cx, cy)` and `box` further columns, `(w, h)`
when `box` is 2. -/
abbrev Detection (box : ℕ) := Fin (box + 2) → ℚ

def dupCenterFactor : ℚ := 1 / 2
def overlapThreshold : ℚ := 1 / 2

/-- Box intersection as a fraction of the smaller box's area. -/
def overlapFraction (a b : Fin 4 → ℚ) : ℚ :=
  let dx := min (a 0 + a 2 / 2) (b 0 + b 2 / 2) - max (a 0 - a 2 / 2) (b 0 - b 2 / 2)
  let dy := min (a 1 + a 3 / 2) (b 1 + b 3 / 2) - max (a 1 - a 3 / 2) (b 1 - b 3 / 2)
  if dx ≤ 0 ∨ dy ≤ 0 then 0
  else
    let smaller := min (a 2 * a 3) (b 2 * b 3)
    if 0 < smaller then dx * dy / smaller else 0

/-- Are two Detections the same Bullet Hole? Within the floor always; beyond it
the boxes decide, when there are boxes. -/
def sameBulletHole {box : ℕ} (a b : Detection box) (floorPx : ℚ) : Bool :=
  if Shorter (a 0 - b 0) (a 1 - b 1) floorPx then true
  else if h : 4 ≤ box + 2 then
    let a' : Fin 4 → ℚ := a ∘ Fin.castLE h
    let b' : Fin 4 → ℚ := b ∘ Fin.castLE h
    if overlapThreshold < overlapFraction a' b' then true
    -- dupCenterFactor * ((diagonal a + diagonal b) / 2)
    else BelowSum (dupCenterFactor / 2) ((a 0 - b 0) ^ 2 + (a 1 - b 1) ^ 2)
      (a' 2 ^ 2 + a' 3 ^ 2) (b' 2 ^ 2 + b' 3 ^ 2)
  else false

/-- The comparisons of `sameBulletHole` are those of the real distances. -/
theorem sameBulletHole_iff {box : ℕ} (a b : Detection box) (floorPx : ℚ) :
    sameBulletHole a b floorPx = true ↔
      let distance := √(((a 0 - b 0 : ℚ) : ℝ) ^ 2 + ((a 1 - b 1 : ℚ) : ℝ) ^ 2)
      distance < floorPx ∨ ∃ h : 4 ≤ box + 2,
        let a' : Fin 4 → ℚ := a ∘ Fin.castLE h
        let b' : Fin 4 → ℚ := b ∘ Fin.castLE h
        overlapThreshold < overlapFraction a' b' ∨
          distance < dupCenterFactor * ((√((a' 2 : ℝ) ^ 2 + (a' 3 : ℝ) ^ 2) +
            √((b' 2 : ℝ) ^ 2 + (b' 3 : ℝ) ^ 2)) / 2) := by
  have hbelow (d e f : ℚ) (hd : 0 ≤ d) (he : 0 ≤ e) (hf : 0 ≤ f) :
      BelowSum (dupCenterFactor / 2) d e f ↔
        √(d : ℝ) < dupCenterFactor * ((√(e : ℝ) + √(f : ℝ)) / 2) := by
    rw [belowSum_iff (by norm_num [dupCenterFactor]) hd he hf]
    push_cast
    rw [div_mul_eq_mul_div, mul_div_assoc]
  simp only [sameBulletHole, ← shorter_iff]
  split_ifs with hfloor hbox hover
  · simp [hfloor]
  · simp only [hfloor, false_or, true_iff]
    exact ⟨by omega, Or.inl hover⟩
  · simp only [hfloor, false_or, decide_eq_true_eq]
    rw [hbelow _ _ _ (by positivity) (by positivity) (by positivity)]
    push_cast
    exact ⟨fun h => ⟨by omega, Or.inr h⟩, fun ⟨_, h⟩ => h.resolve_left hover⟩
  · simp [hfloor, hbox]

/-- `[pos, seen_frame_idxs, first_idx]`. -/
structure Candidate (box : ℕ) where
  pos : Detection box
  seenFrameIdxs : List ℕ
  firstIdx : ℕ
  deriving DecidableEq

/-- What a persisted Candidate is reported as. -/
structure Hole (box : ℕ) where
  pos : Fin 2 → ℚ
  box : Detection box
  firstFrame : ℕ
  seen : List ℕ
  persistence : ℚ
  judgedFrame : Option ℤ := none
  deriving DecidableEq

variable {box : ℕ}

/-- `pos[:2]`. -/
def centre (pos : Detection box) : Fin 2 → ℚ := pos ∘ Fin.castLE (by omega)

/-- `sorted(set(sightings))`. -/
def Candidate.seen (c : Candidate box) : List ℕ := c.seenFrameIdxs.toFinset.sort (· ≤ ·)

/-- One more Detection: the position is the running mean. -/
def Candidate.gather (c : Candidate box) (idx : ℕ) (p : Detection box) : Candidate box :=
  let n := c.seenFrameIdxs.length
  { c with
    pos := fun i => (c.pos i * n + p i) / (n + 1)
    seenFrameIdxs := c.seenFrameIdxs ++ [idx] }

/-- The first Candidate, not closed, that the Detection is a sighting of. -/
def findMatch (candidates : List (Candidate box)) (p : Detection box) (matchPx : ℚ)
    (closed : Finset ℕ) : Option ℕ :=
  (candidates.zipIdx.find? fun c =>
    decide (c.2 ∉ closed) && sameBulletHole c.1.pos p matchPx).map Prod.snd

def foldOne (idx : ℕ) (matchPx : ℚ) (opening : Bool) (closed : Finset ℕ)
    (candidates : List (Candidate box)) (p : Detection box) : List (Candidate box) :=
  match findMatch candidates p matchPx closed with
  | none => if opening then candidates ++ [⟨p, [idx], idx⟩] else candidates
  | some k => candidates.modify k (·.gather idx p)

/-- One Look's Detections into the candidates. -/
def fold (candidates : List (Candidate box)) (idx : ℕ) (pts : List (Detection box))
    (matchPx : ℚ) (opening : Bool) (closed : Finset ℕ) : List (Candidate box) :=
  pts.foldl (foldOne idx matchPx opening closed) candidates

/-- How many of `sortedIndices` fall in `[lo, hi)`: the subtraction is cut at 0. -/
def countIn (sortedIndices : List ℕ) (lo hi : ℕ) : ℕ :=
  bisectLeft sortedIndices hi - bisectLeft sortedIndices lo

/-- The persisted Candidate a candidate is, or `none`: undecided while some of its
window is `remaining`, rejected once none is. -/
def judge (c : Candidate box) (lookedAt lost : List ℕ) (persist : ℚ) (window : ℕ)
    (unseen : List ℕ) (remaining : ℤ) : Option (Hole box) :=
  let first := c.firstIdx
  let span := countIn lookedAt first (first + window)
  let tried := span + countIn lost first (first + window) + countIn unseen first (first + window)
  if span ≤ 0 ∨ (span : ℚ) < persist * ((tried + remaining : ℤ) : ℚ) then none
  else
    let hits := (c.seen.filter fun i => first ≤ i ∧ i < first + window).length
    if (hits : ℚ) / ((span + remaining : ℤ) : ℚ) < persist then none
    else some {
      pos := centre c.pos
      box := c.pos
      firstFrame := first
      seen := c.seen
      persistence := (hits : ℚ) / span }

/-- Is this frame looked at under a stride? -/
def lookedAt (index stride baselineFrames : ℕ) : Bool :=
  index < baselineFrames || index % stride == 0

/-- What a `Persistence` is built with, the persist threshold in `(0, 1]`. -/
structure Settings where
  matchPx : ℚ
  persist : ℚ
  window : ℕ
  stride : ℕ
  baselineFrames : ℕ
  persist_pos : 0 < persist
  persist_le_one : persist ≤ 1

def Settings.due (P : Settings) (i : ℕ) : Bool := lookedAt i P.stride P.baselineFrames

structure State (box : ℕ) where
  unseen : List ℕ := []
  lookedAt : List ℕ := []
  lost : List ℕ := []
  candidates : List (Candidate box) := []
  openIds : List ℕ := []
  persisted : List (Hole box × ℕ) := []
  closed : Finset ℕ := ∅

/-- The Candidate a reference stands for; every reference held is below the length. -/
def candidateAt (candidates : List (Candidate box)) (id : ℕ) : Candidate box :=
  candidates.getD id ⟨0, [], 0⟩

def State.candidate (s : State box) (id : ℕ) : Candidate box := candidateAt s.candidates id

/-- The unseen frames one `judgeDue` counts: those from the first open window on. -/
def State.unseenSlice (s : State box) : List ℕ :=
  match s.openIds with
  | [] => s.unseen
  | id :: _ => s.unseen.drop (bisectLeft s.unseen (s.candidate id).firstIdx)

/-- Due frames of the window still to come, less those already known unseen. -/
def remaining (P : Settings) (unseen : List ℕ) (processed windowEnd : ℕ) : ℤ :=
  ((List.range' processed (windowEnd - processed)).countP P.due : ℤ) -
    countIn unseen processed windowEnd

/-- The verdict on one open Candidate once `processed` frames have passed. -/
def State.verdict (P : Settings) (s : State box) (processed id : ℕ) : Option (Hole box) :=
  let c := s.candidate id
  judge c s.lookedAt s.lost P.persist P.window s.unseenSlice
    (remaining P s.unseenSlice processed (c.firstIdx + P.window))

def State.windowEnd (P : Settings) (s : State box) (id : ℕ) : ℕ :=
  (s.candidate id).firstIdx + P.window

/-- Judges every open Candidate. No verdict changes what another one reads, so the
loop is three selections from `openIds`, each in its order. -/
def State.judgeDue (P : Settings) (s : State box) (processed : ℕ) (look : Option ℕ) :
    State box × List (Hole box) :=
  let judgedFrame : ℤ := match look with
    | none => (processed : ℤ) - 1
    | some index => index
  let persisted := s.openIds.filterMap fun id =>
    (s.verdict P processed id).map fun hole => ({ hole with judgedFrame := some judgedFrame }, id)
  let undecided := s.openIds.filter fun id =>
    (s.verdict P processed id).isNone && decide (processed < s.windowEnd P id)
  let rejected := s.openIds.filter fun id =>
    (s.verdict P processed id).isNone && decide (s.windowEnd P id ≤ processed)
  ({ s with
      openIds := undecided
      persisted := s.persisted ++ persisted
      closed := s.closed ∪ rejected.toFinset }, persisted.map Prod.fst)

/-- One Look between the two judgements of `add`: its Detections folded, or `none`
for a Lost one. -/
def State.register (P : Settings) (s : State box) (index : ℕ)
    (pts : Option (List (Detection box))) (opening : Bool) : State box :=
  match pts with
  | none => { s with lost := s.lost ++ [index] }
  | some pts =>
    let made := s.candidates.length
    let candidates := fold s.candidates index pts P.matchPx opening s.closed
    { s with
      lookedAt := s.lookedAt ++ [index]
      candidates := candidates
      openIds := s.openIds ++ List.range' made (candidates.length - made) }

/-- One Look, and the Candidates that persisted at it. -/
def State.add (P : Settings) (s : State box) (index : ℕ)
    (pts : Option (List (Detection box))) (opening : Bool) : State box × List (Hole box) :=
  let judged := s.judgeDue P index (some index)
  let folded := judged.1.register P index pts opening
  let rejudged := folded.judgeDue P (index + 1) none
  (rejudged.1, judged.2 ++ rejudged.2)

/-- A persisted Candidate as `end` reports it, `none` for one it leaves out. The
error is the assertion's. -/
def State.finish (P : Settings) (s : State box) (processed : ℕ) (live : Bool)
    (hole : Hole box) (id : ℕ) : Except String (Option (Hole box)) :=
  let c := s.candidate id
  let hole := { hole with pos := centre c.pos, box := c.pos, seen := c.seen }
  if c.firstIdx + P.window ≤ processed then
    match judge c s.lookedAt s.lost P.persist P.window s.unseen 0 with
    | none => .error "an early verdict the window's end reversed"
    | some final => .ok (some { hole with persistence := final.persistence })
  else if !live then .ok none
  else .ok (some hole)

def State.finishAll (P : Settings) (s : State box) (processed : ℕ) (live : Bool) :
    List (Hole box × ℕ) → Except String (List (Hole box))
  | [] => .ok []
  | (hole, id) :: rest => do
    let done ← s.finish P processed live hole id
    let others ← s.finishAll P processed live rest
    return done.toList ++ others

/-- Every persisted Candidate once `processed` frames have passed, by first frame;
`List.mergeSort` is stable, as `sorted` is. -/
def State.end (P : Settings) (s : State box) (processed : ℕ) (live : Bool) :
    Except String (List (Hole box)) := do
  let s := (s.judgeDue P processed none).1
  let done ← s.finishAll P processed live s.persisted
  return done.mergeSort fun a b => a.firstFrame ≤ b.firstFrame

end Kanat.Persistence
