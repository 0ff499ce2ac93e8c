import Kanat.Persistence
import Kanat.Rounding
import Mathlib.Data.List.Range
import Mathlib.Data.Rat.Floor

/-! # The frames of a Recording

`Recording` and `frames_from` of `detection/new_bullet_holes.py`. -/
namespace Kanat.RecordingFrames
open Persistence (lookedAt)
open Rounding (truncate)

variable {Image : Type}

/-- A `cv2.VideoCapture` of a file, at the frame it decodes next. -/
structure Capture (Image : Type) where
  frames : List Image
  position : ℕ
  deriving DecidableEq

namespace Capture

def read (cap : Capture Image) : Option Image × Capture Image :=
  match cap.frames[cap.position]? with
  | none => (none, cap)
  | some image => (some image, { cap with position := cap.position + 1 })

/-- Skips a frame without decoding it. -/
def grab (cap : Capture Image) : Bool × Capture Image :=
  if cap.position < cap.frames.length then (true, { cap with position := cap.position + 1 }) else (false, cap)

end Capture

structure Frame (Image : Type) where
  index : ℕ
  image : Image
  deriving DecidableEq

structure Recording (Image : Type) where
  cap : Capture Image
  fps : ℚ
  startS : ℚ
  wanted : ℕ := 0
  stride : ℕ := 1
  baselineFrames : ℕ := 0
  passed : ℕ := 0
  deriving DecidableEq

/-- Where `--start` is in the file. It is not negative. -/
def seeked (fps startS : ℚ) : ℕ := ⌊startS * fps⌋.toNat

/-- `RegisteredFrames.frames_until` -/
def framesUntil (startS fps ended : ℚ) : ℤ := truncate ((ended - startS) * fps)

namespace Recording

/-- `Recording.open`: the Recording, and frame 0. -/
def openAt (frames : List Image) (fps startS : ℚ) : Option (Recording Image × Image) :=
  match Capture.read ⟨frames, seeked fps startS⟩ with
  | (none, _) => none
  | (some image, cap) => some ({ cap, fps, startS }, image)

def start (r : Recording Image) (nFrames stride baselineFrames : ℕ) : Recording Image :=
  { r with wanted := nFrames, stride, baselineFrames, passed := if 0 < nFrames then 1 else 0 }

/-- With one more frame passed. -/
def pass (r : Recording Image) (cap : Capture Image) : Recording Image := { r with cap, passed := r.passed + 1 }

def read (r : Recording Image) : Option (Frame Image) × Recording Image :=
  if r.passed < r.wanted then
    if lookedAt r.passed r.stride r.baselineFrames then
      match r.cap.read with
      | (none, cap) => (none, { r with cap })
      | (some image, cap) => (some ⟨r.passed, image⟩, r.pass cap)
    else
      match r.cap.grab with
      | (false, cap) => (none, { r with cap })
      | (true, cap) => (r.pass cap).read
  else (none, r)
  termination_by r.wanted - r.passed
  decreasing_by simp only [pass]; omega

private theorem read_some {r r' : Recording Image} {frame : Frame Image} (h : r.read = (some frame, r')) :
    r'.wanted = r.wanted ∧ r.passed < r'.passed ∧ r'.passed ≤ r'.wanted := by
  induction r using read.induct with
  | case1 r hleft hdue cap hread =>
    rw [read, if_pos hleft, if_pos hdue, hread] at h
    cases h
  | case2 r hleft hdue image cap hread =>
    rw [read, if_pos hleft, if_pos hdue, hread] at h
    cases h
    exact ⟨rfl, Nat.lt_succ_self _, hleft⟩
  | case3 r hleft hgap cap hgrab =>
    rw [read, if_pos hleft, if_neg hgap, hgrab] at h
    cases h
  | case4 r hleft hgap cap hgrab ih =>
    rw [read, if_pos hleft, if_neg hgap, hgrab] at h
    obtain ⟨hwanted, hmore, hle⟩ := ih h
    exact ⟨hwanted, (Nat.lt_succ_self _).trans hmore, hle⟩
  | case5 r hdone =>
    rw [read, if_neg hdone] at h
    cases h

/-- `iter(source.read, None)` -/
def rest (r : Recording Image) : List (Frame Image) × Recording Image :=
  match _h : r.read with
  | (none, r') => ([], r')
  | (some frame, r') => (frame :: r'.rest.1, r'.rest.2)
  termination_by r.wanted - r.passed
  decreasing_by
    have := read_some _h
    omega

end Recording

/-- The frames it yields, and the source once it has. -/
def framesFrom (source : Recording Image) (base : Image) (nFrames stride baselineFrames : ℕ) :
    List (Frame Image) × Recording Image :=
  let r := (source.start nFrames stride baselineFrames).rest
  ((if 0 < nFrames then [⟨0, base⟩] else []) ++ r.1, r.2)

/-- The due frames among `count` of the file's from index `first`. -/
def due (held : List Image) (stride baselineFrames first count : ℕ) : List (Frame Image) :=
  ((List.range' first count).filter fun i => lookedAt i stride baselineFrames).filterMap fun i =>
    held[i]?.map (Frame.mk i)

section
variable {held : List Image} {stride baselineFrames first count : ℕ} {image : Image}

theorem due_succ_of_looked (hlooked : lookedAt first stride baselineFrames) (hheld : held[first]? = some image) :
    due held stride baselineFrames first (count + 1) =
      ⟨first, image⟩ :: due held stride baselineFrames (first + 1) count := by
  simp [due, List.range'_succ, hlooked, hheld]

theorem due_succ_of_gap (hgap : ¬lookedAt first stride baselineFrames) :
    due held stride baselineFrames first (count + 1) = due held stride baselineFrames (first + 1) count := by
  simp [due, List.range'_succ, hgap]

theorem due_index (hcount : first + count ≤ held.length) :
    (due held stride baselineFrames first count).map Frame.index =
      (List.range' first count).filter fun i => lookedAt i stride baselineFrames := by
  induction count generalizing first with
  | zero => rfl
  | succ count ih =>
    have hheld : held[first]? = some held[first] := List.getElem?_eq_getElem (by omega)
    by_cases hlooked : lookedAt first stride baselineFrames
    · rw [due_succ_of_looked hlooked hheld, List.map_cons, ih (by omega), List.range'_succ]
      exact (List.filter_cons_of_pos (p := fun i => lookedAt i stride baselineFrames) hlooked).symm
    · rw [due_succ_of_gap hlooked, ih (by omega), List.range'_succ]
      exact (List.filter_cons_of_neg (p := fun i => lookedAt i stride baselineFrames) hlooked).symm

private theorem due_image {frame : Frame Image} (h : frame ∈ due held stride baselineFrames first count) :
    held[frame.index]? = some frame.image := by
  obtain ⟨i, -, hi⟩ := List.mem_filterMap.mp h
  obtain ⟨image, hheld, rfl⟩ := Option.map_eq_some_iff.mp hi
  exact hheld

end

namespace Recording
variable {r : Recording Image} {image : Image}

theorem rest_of_none {r' : Recording Image} (h : r.read = (none, r')) : r.rest = ([], r') := by
  rw [rest]
  split
  next _ hr =>
    rw [h] at hr
    cases hr
    rfl
  next _ _ hr =>
    rw [h] at hr
    cases hr

theorem rest_of_some {frame : Frame Image} {r' : Recording Image} (h : r.read = (some frame, r')) :
    r.rest = (frame :: r'.rest.1, r'.rest.2) := by
  rw [rest]
  split
  next _ hr =>
    rw [h] at hr
    cases hr
  next _ _ hr =>
    rw [h] at hr
    cases hr
    rfl

private theorem rest_of_due (hleft : r.passed < r.wanted) (hdue : lookedAt r.passed r.stride r.baselineFrames)
    (hframe : r.cap.frames[r.cap.position]? = some image) :
    let next := r.pass { r.cap with position := r.cap.position + 1 }
    r.rest = (⟨r.passed, image⟩ :: next.rest.1, next.rest.2) := by
  refine rest_of_some ?_
  rw [read, if_pos hleft, if_pos hdue, Capture.read, hframe]

private theorem rest_of_gap (hleft : r.passed < r.wanted) (hgap : ¬lookedAt r.passed r.stride r.baselineFrames)
    (hframe : r.cap.position < r.cap.frames.length) :
    r.rest = (r.pass { r.cap with position := r.cap.position + 1 }).rest := by
  have hread : r.read = (r.pass { r.cap with position := r.cap.position + 1 }).read := by
    rw [read, if_pos hleft, if_neg hgap, Capture.grab, if_pos hframe]
  match hnext : (r.pass { r.cap with position := r.cap.position + 1 }).read with
  | (none, r') => rw [rest_of_none hnext, rest_of_none (hread.trans hnext)]
  | (some frame, r') => rw [rest_of_some hnext, rest_of_some (hread.trans hnext)]

/-- Nothing is left to pass, or to pass it from. -/
theorem rest_at_end (h : r.passed < r.wanted → r.cap.frames.length ≤ r.cap.position) : r.rest = ([], r) := by
  refine rest_of_none ?_
  rw [read]
  split_ifs with hleft hdue
  · have hnone : r.cap.frames[r.cap.position]? = none := List.getElem?_eq_none (h hleft)
    simp only [Capture.read, hnone]
  · simp only [Capture.grab, if_neg (h hleft).not_gt]
  · rfl

/-- The frame to pass next is, in the file from frame 0 on, the one of its index. -/
structure InStep (held : List Image) (r : Recording Image) : Prop where
  frames : ∀ i, r.cap.frames[r.cap.position + i]? = held[r.passed + i]?
  passed : r.passed ≤ min r.wanted held.length

theorem InStep.pass {held : List Image} (h : r.InStep held) (hleft : r.passed < r.wanted)
    (hframe : r.passed < held.length) : (r.pass { r.cap with position := r.cap.position + 1 }).InStep held where
  frames i := by
    have hnext := h.frames (1 + i)
    rwa [← Nat.add_assoc, ← Nat.add_assoc] at hnext
  passed := Nat.succ_le_of_lt (lt_min hleft hframe)

/-- From any frame on, whatever the phase of the stride. -/
theorem rest_eq {held : List Image} {count : ℕ} (h : r.InStep held) (hcount : r.passed + count = min r.wanted held.length) :
    r.rest.1 = due held r.stride r.baselineFrames r.passed count ∧ r.rest.2.passed = min r.wanted held.length := by
  have hposition := h.frames 0
  rw [Nat.add_zero, Nat.add_zero] at hposition
  induction count generalizing r with
  | zero =>
    have hend : r.rest = ([], r) := by
      refine rest_at_end fun hleft => List.getElem?_eq_none_iff.mp ?_
      rw [hposition, List.getElem?_eq_none_iff]
      omega
    rw [hend]
    exact ⟨rfl, hcount⟩
  | succ count ih =>
    have hleft : r.passed < r.wanted := by omega
    have hin : r.passed < held.length := by omega
    have hheld : held[r.passed]? = some held[r.passed] := List.getElem?_eq_getElem hin
    obtain ⟨hframes, hpassed⟩ := ih (h.pass hleft hin) (by simp only [Recording.pass]; omega)
      ((h.pass hleft hin).frames 0)
    by_cases hdue : lookedAt r.passed r.stride r.baselineFrames
    · rw [rest_of_due hleft hdue (hposition.trans hheld), due_succ_of_looked hdue hheld]
      exact ⟨congrArg _ hframes, hpassed⟩
    · have hmore : r.cap.position < r.cap.frames.length := by
        by_contra hnot
        rw [List.getElem?_eq_none (not_lt.mp hnot), hheld] at hposition
        cases hposition
      rw [rest_of_gap hleft hdue hmore, due_succ_of_gap hdue]
      exact ⟨hframes, hpassed⟩

end Recording

theorem lookedAt_zero (stride baselineFrames : ℕ) : lookedAt 0 stride baselineFrames := by simp [lookedAt]

theorem openAt_eq_some {frames : List Image} {fps startS : ℚ} {r : Recording Image} {base : Image}
    (h : Recording.openAt frames fps startS = some (r, base)) :
    r.cap = ⟨frames, seeked fps startS + 1⟩ ∧ frames[seeked fps startS]? = some base := by
  unfold Recording.openAt Capture.read at h
  dsimp only at h
  cases hframe : frames[seeked fps startS]? with
  | none =>
    rw [hframe] at h
    cases h
  | some image =>
    rw [hframe] at h
    cases h
    exact ⟨rfl, rfl⟩

/-- What a Run reads of a file are its due frames. -/
theorem framesFrom_eq {frames : List Image} {fps startS : ℚ} {r : Recording Image} {base : Image}
    (hopen : Recording.openAt frames fps startS = some (r, base)) (nFrames stride baselineFrames : ℕ) :
    let held := frames.drop (seeked fps startS)
    (framesFrom r base nFrames stride baselineFrames).1 = due held stride baselineFrames 0 (min nFrames held.length) ∧
      (framesFrom r base nFrames stride baselineFrames).2.passed = min nFrames held.length := by
  intro held
  obtain ⟨hcap, hbase⟩ := openAt_eq_some hopen
  have hheld : held[0]? = some base := by rw [List.getElem?_drop, Nat.add_zero, hbase]
  have hlength : 0 < held.length := (List.getElem?_eq_some_iff.mp hheld).1
  rcases Nat.eq_zero_or_pos nFrames with rfl | hpos
  · have hend : (r.start 0 stride baselineFrames).rest = ([], r.start 0 stride baselineFrames) :=
      Recording.rest_at_end fun hleft => absurd hleft (Nat.lt_irrefl _)
    rw [framesFrom, hend, Nat.zero_min]
    exact ⟨rfl, rfl⟩
  · obtain ⟨count, hcount⟩ : ∃ count, min nFrames held.length = count + 1 := ⟨min nFrames held.length - 1, by omega⟩
    have hpassed : (r.start nFrames stride baselineFrames).passed = 1 := if_pos hpos
    have hstep : (r.start nFrames stride baselineFrames).InStep held := by
      refine ⟨fun i => ?_, ?_⟩
      · rw [hpassed, List.getElem?_drop, ← Nat.add_assoc]
        simp only [Recording.start, hcap]
      · rw [hpassed]
        exact le_min hpos hlength
    obtain ⟨hrest, hlast⟩ := Recording.rest_eq hstep (by rw [hpassed, Nat.add_comm]; exact hcount.symm)
    refine ⟨?_, hlast⟩
    rw [hcount, due_succ_of_looked (lookedAt_zero _ _) hheld, framesFrom, if_pos hpos, hrest, hpassed]
    rfl

/-- The file's frames from `--start` on are `held`. -/
theorem framesFrom_due {frames : List Image} {fps startS : ℚ} {r : Recording Image} {base : Image}
    (hopen : Recording.openAt frames fps startS = some (r, base)) (nFrames stride baselineFrames : ℕ) :
    let held := frames.drop (seeked fps startS)
    let yielded := framesFrom r base nFrames stride baselineFrames
    yielded.1.map Frame.index =
        (List.range (min nFrames held.length)).filter (fun i => lookedAt i stride baselineFrames) ∧
      (∀ frame ∈ yielded.1, held[frame.index]? = some frame.image) ∧
      (0 < nFrames → yielded.1.head? = some ⟨0, base⟩) ∧
      yielded.2.passed = min nFrames held.length := by
  intro held yielded
  obtain ⟨-, hbase⟩ := openAt_eq_some hopen
  have hheld : held[0]? = some base := by rw [List.getElem?_drop, Nat.add_zero, hbase]
  obtain ⟨hframes, hpassed⟩ := framesFrom_eq hopen nFrames stride baselineFrames
  rw [hframes, List.range_eq_range']
  refine ⟨due_index (by omega), fun frame => due_image, fun hpos => ?_, hpassed⟩
  have hlength : 0 < held.length := (List.getElem?_eq_some_iff.mp hheld).1
  obtain ⟨count, hcount⟩ : ∃ count, min nFrames held.length = count + 1 := ⟨min nFrames held.length - 1, by omega⟩
  rw [hcount, due_succ_of_looked (lookedAt_zero _ _) hheld]
  rfl

/-- A file of eight frames. -/
def eightFrames : List ℕ := [10, 11, 12, 13, 14, 15, 16, 17]

def fromThird : Recording ℕ := { cap := ⟨eightFrames, 3⟩, fps := 2, startS := 1 }

/-- From its third on, the file ends in a gap. -/
theorem framesFrom_due_ends_in_gap : (framesFrom fromThird 12 9 4 2).1.map Frame.index = [0, 1, 4] ∧
    (framesFrom fromThird 12 9 4 2).2.passed = 6 := by
  have hopen : Recording.openAt eightFrames 2 1 = some (fromThird, 12) := by decide +kernel
  obtain ⟨hindices, -, -, hpassed⟩ := framesFrom_due hopen 9 4 2
  exact ⟨hindices.trans (by decide +kernel), hpassed.trans (by decide +kernel)⟩

end Kanat.RecordingFrames
