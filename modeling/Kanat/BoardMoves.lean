import Kanat.RecordingFrames
import Mathlib.Order.Bounds.Defs
import Mathlib.Tactic.FieldSimp

/-! # Moving the Board within a Recording

`first_moved_index` and `refuse_move` of `tools/evaluate.py`, times being exact but printed to two decimals. -/
namespace Kanat.BoardMoves
open RecordingFrames (framesUntil)
open Rounding (pyRound pyRound_error truncate)
open Persistence (lookedAt)

/-- A time as printed with two decimals. -/
def printed (t : ℚ) : ℚ := pyRound (t * 100) / 100

/-- `Recording.when`, in seconds. -/
def printedAt (start fps : ℚ) (index : ℕ) : ℚ := printed (start + index / fps)

theorem abs_printed_sub (t : ℚ) : |printed t - t| ≤ 1 / 200 := by
  have h := pyRound_error (t * 100)
  rw [printed, show (pyRound (t * 100) : ℚ) / 100 - t = ((pyRound (t * 100) : ℚ) - t * 100) / 100 by ring, abs_div,
    show |(100 : ℚ)| = 100 from abs_of_pos (by norm_num)]
  linarith

/-- A frame printed before the move is less than a second after it. -/
theorem index_lt_of_printed_lt {fps : ℚ} (hfps : 0 < fps) {moveAt start : ℚ} {index : ℕ}
    (h : printedAt start fps index < moveAt) : (index : ℚ) < (moveAt + 1 - start) * fps := by
  have hclose := (abs_le.mp (abs_printed_sub (start + index / fps))).1
  rw [printedAt] at h
  have htime : (index : ℚ) / fps < moveAt + 1 - start := by linarith
  exact (div_lt_iff₀ hfps).mp htime

/-- The index the loop of `first_moved_index` ends at. -/
def stepUp {fps : ℚ} (hfps : 0 < fps) (moveAt start : ℚ) (index : ℕ) : ℕ :=
  if printedAt start fps index < moveAt then stepUp hfps moveAt start (index + 1) else index
  termination_by ⌈(moveAt + 1 - start) * fps⌉.toNat - index
  decreasing_by
    have hlt := index_lt_of_printed_lt hfps ‹_›
    have hceil : (index : ℤ) < ⌈(moveAt + 1 - start) * fps⌉ := Int.lt_ceil.mpr (by exact_mod_cast hlt)
    omega

def firstMovedIndex {fps : ℚ} (hfps : 0 < fps) (moveAt start : ℚ) : ℕ :=
  stepUp hfps moveAt start ⌊(moveAt - start - 1 / 100) * fps⌋.toNat

variable {fps moveAt start : ℚ} {hfps : 0 < fps} {index : ℕ}

private theorem le_stepUp (index : ℕ) : moveAt ≤ printedAt start fps (stepUp hfps moveAt start index) := by
  induction index using stepUp.induct hfps moveAt start with
  | case1 index hbefore ih =>
    rw [stepUp, if_pos hbefore]
    exact ih
  | case2 index hnot =>
    rw [stepUp, if_neg hnot]
    exact not_lt.mp hnot

theorem printedAt_lt_of_lt_stepUp {first : ℕ} (hfirst : first ≤ index) (h : index < stepUp hfps moveAt start first) :
    printedAt start fps index < moveAt := by
  induction first using stepUp.induct hfps moveAt start with
  | case1 first hbefore ih =>
    rw [stepUp, if_pos hbefore] at h
    rcases hfirst.eq_or_lt with rfl | hlt
    · exact hbefore
    · exact ih hlt h
  | case2 first hnot =>
    rw [stepUp, if_neg hnot] at h
    exact absurd h (not_lt.mpr hfirst)

/-- A frame before the estimate is printed before the move. -/
theorem printedAt_lt_of_lt_estimate (hfps : 0 < fps) (h : index < ⌊(moveAt - start - 1 / 100) * fps⌋.toNat) :
    printedAt start fps index < moveAt := by
  have hfloor : ((index : ℤ) : ℚ) ≤ (moveAt - start - 1 / 100) * fps :=
    Int.le_floor.mp (by omega)
  have htime : (index : ℚ) / fps ≤ moveAt - start - 1 / 100 := (div_le_iff₀ hfps).mpr (by exact_mod_cast hfloor)
  have hclose := (abs_le.mp (abs_printed_sub (start + index / fps))).2
  rw [printedAt]
  linarith

private theorem firstMovedIndex_isLeast (hfps : 0 < fps) (moveAt start : ℚ) :
    IsLeast {index : ℕ | moveAt ≤ printedAt start fps index} (firstMovedIndex hfps moveAt start) := by
  refine ⟨le_stepUp _, fun index hindex => ?_⟩
  by_contra hnot
  suffices hbefore : printedAt start fps index < moveAt from not_le.mpr hbefore hindex
  rcases Nat.lt_or_ge index ⌊(moveAt - start - 1 / 100) * fps⌋.toNat with hlt | hle
  · exact printedAt_lt_of_lt_estimate hfps hlt
  · exact printedAt_lt_of_lt_stepUp hle (not_le.mp hnot)

/-- `--move AT:DX,DY[,DEG]` -/
structure Move where
  moveAt : ℚ
  dx : ℚ
  dy : ℚ
  deg : ℚ := 0
  deriving DecidableEq

/-- `deg % 360` -/
def turn (deg : ℚ) : ℚ := deg - 360 * ⌊deg / 360⌋

/-- `[REFUSED]`, with the numbers of its text. -/
inductive Refusal where
  | movesNoPixel (dx dy deg : ℚ)
  | insideBaseline (moveAt lastFrameAt : ℚ)
  | movesNoFrameLookedAt (moveAt ended : ℚ) (stride : ℕ)
  deriving DecidableEq

/-- As `process` counts them. -/
def baselineCount (baselineFrames : ℤ) : ℕ := (max 1 baselineFrames).toNat

def refuseMove {fps : ℚ} (hfps : 0 < fps) (move : Move) (start ended : ℚ) (baselineFrames : ℤ) (stride : ℕ) :
    Except Refusal Unit :=
  if move.dx = 0 ∧ move.dy = 0 ∧ turn move.deg = 0 then .error (.movesNoPixel move.dx move.dy move.deg)
  else
    let baselineFrames := baselineCount baselineFrames
    let first := firstMovedIndex hfps move.moveAt start
    if first < baselineFrames then
      .error (.insideBaseline move.moveAt (printedAt start fps (baselineFrames - 1)))
    else
      let looked := -(-(first : ℤ) / stride) * stride
      if framesUntil start fps ended ≤ looked then .error (.movesNoFrameLookedAt move.moveAt ended stride)
      else .ok ()

/-- The first multiple of the stride from an index on. -/
theorem isLeast_looked {stride : ℕ} (hstride : 0 < stride) (first : ℕ) :
    IsLeast {n : ℤ | (first : ℤ) ≤ n ∧ (stride : ℤ) ∣ n} (-(-(first : ℤ) / stride) * stride) := by
  have hpos : (0 : ℤ) < stride := by exact_mod_cast hstride
  refine ⟨⟨?_, dvd_mul_left _ _⟩, ?_⟩
  · have hfloor := Int.ediv_mul_le (-(first : ℤ)) hpos.ne'
    linarith
  · rintro n ⟨hle, q, rfl⟩
    have hq : -(-(first : ℤ) / stride) ≤ q := by
      have hdiv : -q ≤ -(first : ℤ) / stride := (Int.le_ediv_iff_mul_le hpos).mpr (by linarith)
      linarith
    rw [mul_comm]
    exact mul_le_mul_of_nonneg_left hq hpos.le

/-- A frame from the baseline's end on is looked at where the stride falls. -/
theorem lookedAt_iff_dvd {index stride baseline : ℕ} (h : baseline ≤ index) :
    lookedAt index stride baseline ↔ stride ∣ index := by
  simp [lookedAt, not_lt.mpr h, Nat.dvd_iff_mod_eq_zero]

/-- Not by a whole number of turns. -/
def Move.Moves (move : Move) : Prop := move.dx ≠ 0 ∨ move.dy ≠ 0 ∨ ∀ turns : ℤ, move.deg ≠ 360 * turns

private theorem turn_eq_zero_iff {deg : ℚ} : turn deg = 0 ↔ ∃ turns : ℤ, deg = 360 * turns := by
  constructor
  · intro h
    exact ⟨⌊deg / 360⌋, sub_eq_zero.mp h⟩
  · rintro ⟨turns, rfl⟩
    rw [turn, mul_div_cancel_left₀ _ (by norm_num), Int.floor_intCast, sub_self]

theorem Move.moves_iff {move : Move} : move.Moves ↔ ¬(move.dx = 0 ∧ move.dy = 0 ∧ turn move.deg = 0) := by
  rw [turn_eq_zero_iff, Move.Moves]
  push Not
  tauto

/-- The first frame a move reaches is the first printed at its time or later, and the move is accepted just if every
baseline frame comes before that and one from there on is looked at. -/
theorem refuseMove_eq_ok_iff {fps : ℚ} (hfps : 0 < fps) (move : Move) (start ended : ℚ) (baselineFrames : ℤ)
    {stride : ℕ} (hstride : 0 < stride) :
    let first := firstMovedIndex hfps move.moveAt start
    let baseline := baselineCount baselineFrames
    IsLeast {index : ℕ | move.moveAt ≤ printedAt start fps index} first ∧
      (refuseMove hfps move start ended baselineFrames stride = .ok () ↔ move.Moves ∧
        (∀ index < baseline, index < first) ∧
        ∃ index : ℕ, first ≤ index ∧ (index : ℤ) < framesUntil start fps ended ∧ lookedAt index stride baseline) := by
  intro first baseline
  refine ⟨firstMovedIndex_isLeast hfps move.moveAt start, ?_⟩
  have hbaseline : (∀ index < baseline, index < first) ↔ baseline ≤ first := by
    refine ⟨fun h => ?_, fun h index hindex => hindex.trans_le h⟩
    by_contra hnot
    exact lt_irrefl first (h first (not_le.mp hnot))
  rw [Move.moves_iff, hbaseline, refuseMove]
  by_cases hstill : move.dx = 0 ∧ move.dy = 0 ∧ turn move.deg = 0
  · rw [if_pos hstill]
    exact iff_of_false nofun fun h => h.1 hstill
  rw [if_neg hstill]
  change (if first < baseline then Except.error _ else
    if framesUntil start fps ended ≤ -(-(first : ℤ) / stride) * stride then Except.error _ else Except.ok ()) = _ ↔ _
  by_cases hinside : first < baseline
  · rw [if_pos hinside]
    exact iff_of_false nofun fun h => absurd h.2.1 (not_le.mpr hinside)
  rw [if_neg hinside]
  obtain ⟨⟨hfirst, hdvd⟩, hleast⟩ := isLeast_looked hstride first
  split_ifs with hnone
  · refine iff_of_false nofun fun ⟨_, hle, index, hindex, hlt, hlooked⟩ => ?_
    have hmultiple := (lookedAt_iff_dvd (hle.trans hindex)).mp hlooked
    have hlooked := hleast ⟨Int.ofNat_le.mpr hindex, Int.natCast_dvd_natCast.mpr hmultiple⟩
    exact absurd (hnone.trans hlooked) (not_le.mpr hlt)
  · refine iff_of_true rfl ⟨hstill, not_lt.mp hinside, ?_⟩
    obtain ⟨index, hindex⟩ := Int.eq_ofNat_of_zero_le ((Int.natCast_nonneg first).trans hfirst)
    rw [hindex] at hfirst hdvd
    have hge : first ≤ index := Int.ofNat_le.mp hfirst
    refine ⟨index, hge, hindex ▸ not_le.mp hnone, ?_⟩
    exact (lookedAt_iff_dvd ((not_lt.mp hinside).trans hge)).mpr (Int.natCast_dvd_natCast.mp hdvd)

theorem firstMovedIndex_atTwenty : firstMovedIndex (by decide : (0 : ℚ) < 25) (2005 / 100) 13 = 177 := by
  rw [firstMovedIndex, show ⌊((2005 / 100 - 13 - 1 / 100) * 25 : ℚ)⌋.toNat = 176 by norm_num; rfl]
  rw [stepUp, if_pos (by norm_num [printedAt, printed, pyRound]), stepUp,
    if_neg (by norm_num [printedAt, printed, pyRound])]

/-- A move at 20.05 s in a run of 25 frames a second from 13 s: frame 180 is the first moved that is looked at. -/
theorem refuseMove_atTwenty :
    refuseMove (by decide : (0 : ℚ) < 25) ⟨2005 / 100, 80, 40, 0⟩ 13 26 10 4 = .ok () := by
  refine (refuseMove_eq_ok_iff (by decide : (0 : ℚ) < 25) ⟨2005 / 100, 80, 40, 0⟩ 13 26 10
    (by norm_num : 0 < 4)).2.mpr ⟨Or.inl (by norm_num), ?_, 180, ?_, ?_, ?_⟩
  · rw [firstMovedIndex_atTwenty]
    exact fun index hindex => lt_trans hindex (by decide)
  · rw [firstMovedIndex_atTwenty]
    decide
  · norm_num [framesUntil, truncate]
  · decide

end Kanat.BoardMoves
