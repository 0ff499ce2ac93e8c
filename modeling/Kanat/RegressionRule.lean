import Kanat.InsertionOrderDict
import Kanat.MarkMatching
import Mathlib.Data.List.MinMax

/-! # One regression result against another (tools/regression.py: compare)

`norm` is numpy's norm of a vector, `maxWeightMatching` networkx's matching, `fmt` Python's formatting of a number. -/
namespace Kanat.RegressionRule
open WeightedMatching MarkMatching InsertionOrderDict

/-- What became of a Bullet Hole of the truth: found, with its Position Error, missed, or beyond every sheet. -/
inductive Outcome (R : Type) where
  | tp (dx dy : R)
  | fn
  | outOfScope

def Outcome.name {R : Type} : Outcome R → String
  | .tp _ _ => "TP"
  | .fn => "FN"
  | .outOfScope => "out of scope"

structure Truth (R : Type) where
  truth : ℕ
  outcome : Outcome R

structure FalsePositive (R : Type) where
  found : ℕ
  x : R
  y : R

structure ShiftResult (R : Type) where
  truth : List (Truth R)
  falsePositives : List (FalsePositive R)
  unit : String
  mmPerTplPx : Option R
  device : Option String

structure Recording (R : Type) where
  window : R × R
  sha256 : Option String
  truthSha256 : Option String
  shifts : Dict String (ShiftResult R)

structure Result (R : Type) where
  stride : ℕ
  model : Option String
  modelSha256 : Option String
  recordings : Dict String (Recording R)

inductive Kind where
  | model
  | notRun
  | notComparable
  | scope
  | gained
  | lost
  | moved
  | overLimit
  | added
  | removed
deriving DecidableEq

def FAILS : List Kind := [.lost, .added, .moved, .overLimit, .notRun, .notComparable]

structure Finding where
  recording : String
  kind : Kind
  hole : String
  detail : String
  noise : Bool
  fails : Bool

def note (recording : String) (kind : Kind) (hole detail : String) (noise : Bool) : Finding :=
  ⟨recording, kind, hole, detail, noise, kind ∈ FAILS && !noise⟩

/-- How a number is written: `:g`, `:+.1f`, `:.2f`, `:.0f`, or as it is. -/
inductive Format where
  | general
  | signed
  | hundredths
  | whole
  | plain

section
variable {R : Type}

def text (s : Option String) : String := s.getD "None"

def truthOf (s : ShiftResult R) (j : ℕ) : Option (Truth R) := s.truth.find? fun t => t.truth = j

def controlRuns (r : Recording R) : List (ShiftResult R) := (r.shifts.filter fun entry => entry.1 ≠ "0").map Prod.snd

def points (falsePositives : List (FalsePositive R)) : List (R × R) := falsePositives.map fun f => (f.x, f.y)

/-- What of the two recordings is not the same, or was not recorded. -/
def differ (r n : Recording R) : List String :=
  [("recording bytes", r.sha256, n.sha256), ("truth", r.truthSha256, n.truthSha256)].filterMap fun (what, was, now) =>
    if was = none ∨ was ≠ now then some what else none

end

variable {R : Type} [Field R] [LinearOrder R]

def MOVE_MM : R := 1
def LIMIT_MM : R := 5
def MATCH_TOLERANCE_TPL : R := 40

def Over (dx dy : R) : Prop := LIMIT_MM ≤ max |dx| |dy|

instance (dx dy : R) : Decidable (Over dx dy) := inferInstanceAs (Decidable (_ ≤ _))

section
variable (norm : R × R → R) (maxWeightMatching : (V : Type) → [DecidableEq V] → WeightedGraph V R → List (V × V))
  (fmt : Format → R → String)

def movedBy (dx dy dx' dy' : R) : R := norm (dx' - dx, dy' - dy)

/-- The hole was found and has moved by more than the rule allows. -/
def MovedFrom (dx dy : R) (u : Truth R) : Prop :=
  match u.outcome with
  | .tp dx' dy' => MOVE_MM < movedBy norm dx dy dx' dy'
  | _ => False

instance (dx dy : R) (u : Truth R) : Decidable (MovedFrom norm dx dy u) := by
  unfold MovedFrom
  split <;> infer_instance

def IsOver (u : Truth R) : Prop :=
  match u.outcome with
  | .tp dx dy => Over dx dy
  | _ => False

instance (u : Truth R) : Decidable (IsOver u) := by
  unfold IsOver
  split <;> infer_instance

def Found (u : Truth R) : Prop :=
  match u.outcome with
  | .tp _ _ => True
  | _ => False

instance (u : Truth R) : Decidable (Found u) := by
  unfold Found
  split <;> infer_instance

/-- The findings on one Bullet Hole, `under` being it under the reference's shifted runs. -/
def holeFindings (name unit : String) (was t : Truth R) (under : List (Truth R)) : List Finding :=
  let hole := "truth #" ++ toString t.truth
  match was.outcome, t.outcome with
  | .outOfScope, .outOfScope => []
  | .outOfScope, _ | _, .outOfScope =>
    [note name .scope hole (was.outcome.name ++ " -> " ++ t.outcome.name) false]
  | .fn, .tp _ _ => [note name .gained hole "missed by the reference, found" false]
  | .fn, .fn => []
  | .tp _ _, .fn =>
    [note name .lost hole "found by the reference, missed" (under.any fun u => ¬ Found u)]
  | .tp dx dy, .tp dx' dy' =>
    (if MOVE_MM < movedBy norm dx dy dx' dy' then
      [note name .moved hole
        ("dX " ++ fmt .signed dx ++ " -> " ++ fmt .signed dx' ++ ", dY " ++ fmt .signed dy ++ " -> " ++
          fmt .signed dy' ++ ": moved " ++ fmt .hundredths (movedBy norm dx dy dx' dy') ++ " " ++ unit ++ ", over " ++
          fmt .general MOVE_MM)
        (under.any fun u => MovedFrom norm dx dy u)]
    else []) ++
    if Over dx' dy' then
      [note name .overLimit hole
        ("dX " ++ fmt .signed dx' ++ ", dY " ++ fmt .signed dy' ++ " " ++ unit ++ ": at or over " ++
          fmt .general LIMIT_MM)
        (under.any fun u => IsOver u)]
    else []

/-- The shifted runs are read for a hole the reference found, unless it is out of scope. -/
def readsControl (was t : Truth R) : Bool :=
  match was.outcome, t.outcome with
  | .tp _ _, .tp _ _ => true
  | .tp _ _, .fn => true
  | _, _ => false

/-- `none` where a run has no such truth: `next` raises. -/
def ruleTruth (name unit : String) (r0 : ShiftResult R) (shifted : List (ShiftResult R)) (t : Truth R) :
    Option (List Finding) :=
  (truthOf r0 t.truth).bind fun was =>
    if readsControl was t then
      (shifted.mapM fun s => truthOf s t.truth).map (holeFindings norm fmt name unit was t)
    else some (holeFindings norm fmt name unit was t [])

/-- A shifted run has a false positive within the tolerance. -/
def NearShifted (shifted : List (ShiftResult R)) (p : R × R) : Prop :=
  ∃ s ∈ shifted, ((points s.falsePositives).map fun c => norm (c - p)).minimum ≤ ((MATCH_TOLERANCE_TPL : R) : WithTop R)

instance (shifted : List (ShiftResult R)) (p : R × R) : Decidable (NearShifted norm shifted p) :=
  inferInstanceAs (Decidable (∃ s ∈ shifted, _))

def matchedPositives (r0 n0 : ShiftResult R) :
    Matched (points n0.falsePositives).length (points r0.falsePositives).length R :=
  matchMarks norm maxWeightMatching (points r0.falsePositives) (points n0.falsePositives) MATCH_TOLERANCE_TPL

/-- The new result's false positives that no reference false positive is paired with. -/
def unpaired (r0 n0 : ShiftResult R) : List (Fin (points n0.falsePositives).length) :=
  (List.finRange _).filter fun i => i ∉ (matchedPositives norm maxWeightMatching r0 n0).pairs.map fun p => p.1

def rulePositives (name : String) (r0 n0 : ShiftResult R) (shifted : List (ShiftResult R)) : List Finding :=
  ((unpaired norm maxWeightMatching r0 n0).map fun i =>
    let p := (points n0.falsePositives).get i
    note name .added ("FP found #" ++ toString (n0.falsePositives.get (i.cast (List.length_map _))).found)
      ("at template (" ++ fmt .whole p.1 ++ ", " ++ fmt .whole p.2 ++ "), no reference FP within " ++
        fmt .whole MATCH_TOLERANCE_TPL ++ " px")
      (NearShifted norm shifted p)) ++
  (matchedPositives norm maxWeightMatching r0 n0).missed.map fun j =>
    note name .removed ("reference FP found #" ++ toString (r0.falsePositives.get (j.cast (List.length_map _))).found)
      "no longer reported" false

/-- The settings of a run, as the rule compares them. -/
def settings (liftStride : Bool) (result : Result R) (r : Recording R) (zero : ShiftResult R) : String :=
  (if liftStride then "" else "stride " ++ toString result.stride ++ ", ") ++
    fmt .general r.window.1 ++ "-" ++ fmt .general r.window.2 ++ " s, device " ++ text zero.device ++ ", " ++
    text (zero.mmPerTplPx.map (fmt .plain)) ++ " mm per template px"

/-- Why a recording of both results is not ruled on. -/
def refusal (liftStride : Bool) (ref new : Result R) (r n : Recording R) (r0 n0 : ShiftResult R) : Option String :=
  if ¬ (r0.unit = "mm" ∧ n0.unit = "mm") ∨ r0.truth.length ≠ n0.truth.length then
    some (toString r0.truth.length ++ " truth in " ++ r0.unit ++ " against " ++ toString n0.truth.length ++
      " in " ++ n0.unit)
  else if differ r n ≠ [] then
    some (String.intercalate " and " (differ r n) ++ " not the reference's, or unrecorded")
  else if settings fmt liftStride ref r r0 ≠ settings fmt liftStride new n n0 then
    some (settings fmt liftStride new n n0 ++ " against " ++ settings fmt liftStride ref r r0)
  else none

/-- `none` where the reference has no run at 0 px, or a run lacks a truth. -/
def ruleRecording (liftStride : Bool) (ref new : Result R) (name : String) (r : Recording R) : Option (List Finding) :=
  match (new.recordings.get name).bind fun n => (n.shifts.get "0").map fun n0 => (n, n0) with
  | none => some [note name .notRun "-" "in the reference, not in the new result at 0 px" false]
  | some (n, n0) => (r.shifts.get "0").bind fun r0 =>
    match refusal fmt liftStride ref new r n r0 n0 with
    | some detail => some [note name .notComparable "-" detail false]
    | none =>
      (n0.truth.mapM (ruleTruth norm fmt name n0.unit r0 (controlRuns r))).map fun holes =>
        holes.flatten ++ rulePositives norm maxWeightMatching fmt name r0 n0 (controlRuns r)

def modelText (result : Result R) : String :=
  text result.model ++ " (" ++ String.ofList ((text result.modelSha256).toList.take 12) ++ ")"

/-- The findings on the results as wholes; a set's names are taken in the new result's order. -/
def resultFindings (ref new : Result R) : List Finding :=
  (if (ref.model, ref.modelSha256) ≠ (new.model, new.modelSha256) then
    [note "-" .model "-" (modelText new ++ " against " ++ modelText ref ++ ": ruled on as a change") false] else []) ++
  (new.recordings.keys.filter fun name => name ∉ ref.recordings.keys).map fun name =>
    note name .notComparable "-" "in the new result, not in the reference" false

def compare (ref new : Result R) (acrossStrides : Bool) : Option (List Finding × Bool) :=
  let liftStride := acrossStrides && ref.stride == 1
  let ruled := ref.recordings.mapM fun entry =>
    ruleRecording norm maxWeightMatching fmt liftStride ref new entry.1 entry.2
  ruled.map fun ruled =>
    let findings := resultFindings ref new ++ ruled.flatten
    (findings, !findings.any fun f => f.fails)

end

section
variable {R : Type}

def numbers (s : ShiftResult R) : List ℕ := s.truth.map fun t => t.truth

/-- A recording run at 0 px, every run of it with the same truth, each numbered once. -/
structure Recording.Ran (r : Recording R) (zero : ShiftResult R) : Prop where
  atZero : r.shifts.get "0" = some zero
  nodup : (numbers zero).Nodup
  alike : ∀ s ∈ controlRuns r, numbers s = numbers zero

structure Result.Ran (result : Result R) : Prop where
  names : (result.recordings.keys).Nodup
  ran : ∀ name r, result.recordings.get name = some r → ∃ zero, r.Ran zero

/-- Runs of one recording in both results number their truth alike, where they have as many. -/
def NumberedAlike (a b : Result R) : Prop :=
  ∀ name r n r0 n0, a.recordings.get name = some r → b.recordings.get name = some n → r.Ran r0 → n.Ran n0 →
    r0.truth.length = n0.truth.length → numbers r0 = numbers n0

theorem NumberedAlike.symm {a b : Result R} (h : NumberedAlike a b) : NumberedAlike b a :=
  fun name r n r0 n0 hr hn hr0 hn0 hlength => (h name n r n0 r0 hn hr hn0 hr0 hlength.symm).symm

variable {s zero : ShiftResult R} {j : ℕ} {t : Truth R}

private theorem find_truth {truths : List (Truth R)} (hnodup : (truths.map fun u => u.truth).Nodup) (ht : t ∈ truths) :
    (truths.find? fun u => u.truth = t.truth) = some t := by
  induction truths with
  | nil => cases ht
  | cons u rest ih =>
    obtain ⟨hnot, hrest⟩ := List.nodup_cons.mp hnodup
    rcases List.mem_cons.mp ht with rfl | hmem
    · rw [List.find?_cons, decide_eq_true rfl]
    · have hne : u.truth ≠ t.truth := fun heq => hnot (List.mem_map.mpr ⟨t, hmem, heq.symm⟩)
      rw [List.find?_cons, decide_eq_false hne]
      exact ih hrest hmem

theorem truthOf_of_mem (hnodup : (numbers s).Nodup) (ht : t ∈ s.truth) : truthOf s t.truth = some t :=
  find_truth hnodup ht

theorem truthOf_eq_some_iff (hnodup : (numbers s).Nodup) : truthOf s j = some t ↔ t ∈ s.truth ∧ t.truth = j := by
  constructor
  · intro h
    exact ⟨List.mem_of_find?_eq_some h, by simpa using List.find?_some h⟩
  · rintro ⟨ht, rfl⟩
    exact truthOf_of_mem hnodup ht

theorem exists_truthOf (h : j ∈ numbers s) : ∃ t, truthOf s j = some t := by
  obtain ⟨t, ht, rfl⟩ := List.mem_map.mp h
  exact Option.isSome_iff_exists.mp (List.find?_isSome.mpr ⟨t, ht, by simp⟩)

end

end Kanat.RegressionRule
