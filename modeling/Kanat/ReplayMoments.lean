import Mathlib.Data.List.OfFn
import Mathlib.Data.Rat.Floor
import Mathlib.Tactic.Linarith
import Mathlib.Tactic.NormNum

/-! # Where a moment can be watched (utils/recordings.ts)

Times are in microseconds since the epoch, as the backend writes them; `Date` keeps their whole milliseconds. -/
namespace Kanat.ReplayMoments

structure RecordingSpan where
  start : ℤ
  durationS : ℚ

structure CameraRecording where
  cameraAlias : String
  spans : List RecordingSpan

structure ReplayMoment where
  cameraAlias : String
  part : ℕ
  offsetS : ℚ
deriving DecidableEq

/-- `new Date(iso).getTime()` of the time `us`. -/
def getTime (us : ℤ) : ℤ := us / 1000

def RecordingSpan.startTime (s : RecordingSpan) : ℚ := getTime s.start

def RecordingSpan.spanEnd (s : RecordingSpan) : ℚ := s.startTime + s.durationS * 1000

def CONTIGUOUS_MS : ℚ := 2

/-- The span as `Date` reads it contains the moment as `Date` reads it. -/
def RecordingSpan.Contains (s : RecordingSpan) (moment : ℤ) : Prop :=
  s.startTime ≤ getTime moment ∧ getTime moment < s.spanEnd

instance (s : RecordingSpan) (moment : ℤ) : Decidable (s.Contains moment) := inferInstanceAs (Decidable (_ ∧ _))

/-- `s` goes on where `before` ends. -/
def Unbroken (before s : RecordingSpan) : Prop := |s.startTime - before.spanEnd| ≤ CONTIGUOUS_MS

instance (before s : RecordingSpan) : Decidable (Unbroken before s) := inferInstanceAs (Decidable (_ ≤ _))

/-- The part the `while` loop comes to from `part`. -/
def walkBack (spans : List RecordingSpan) (fromMs : ℚ) : (part : ℕ) → part < spans.length → Fin spans.length
  | 0, h => ⟨0, h⟩
  | part + 1, h =>
    if fromMs < spans[part + 1].startTime ∧ Unbroken spans[part] spans[part + 1] then
      walkBack spans fromMs part (by omega)
    else ⟨part + 1, h⟩

def findMoment : List CameraRecording → ℤ → ℚ → Option ReplayMoment
  | [], _, _ => none
  | recording :: recordings, moment, prerollS =>
    match recording.spans.findFinIdx? (·.Contains moment) with
    | none => findMoment recordings moment prerollS
    | some hit =>
      let fromMs := getTime moment - prerollS * 1000
      let part := walkBack recording.spans fromMs hit hit.isLt
      let offsetS := (fromMs - recording.spans[part].startTime) / 1000
      some ⟨recording.cameraAlias, part, max 0 offsetS⟩

/-- Each part from `part` to `hit` goes on in the next. -/
def PlaysOn (spans : List RecordingSpan) (part hit : ℕ) : Prop :=
  ∀ k, (h : k + 1 < spans.length) → part ≤ k → k < hit → Unbroken spans[k] spans[k + 1]

/-- `first` is where the unbroken run of parts that holds `hit` starts. -/
def RunStart (spans : List RecordingSpan) (first hit : ℕ) : Prop := IsLeast {k | k ≤ hit ∧ PlaysOn spans k hit} first

variable {spans : List RecordingSpan} {fromMs prerollS : ℚ} {moment : ℤ} {part hit first : ℕ}

theorem playsOn_self : PlaysOn spans hit hit := fun _ _ hle hlt => absurd hle (not_le.mpr hlt)

theorem PlaysOn.succ (h : part + 1 < spans.length) (hrun : PlaysOn spans first part)
    (hunbroken : Unbroken spans[part] spans[part + 1]) : PlaysOn spans first (part + 1) := by
  intro k hk hle hlt
  rcases (Nat.lt_succ_iff.mp hlt).eq_or_lt with rfl | hlt
  · exact hunbroken
  · exact hrun k hk hle hlt

private theorem exists_runStart (spans : List RecordingSpan) (hit : ℕ) : ∃ first, RunStart spans first hit := by
  classical
  have hex : ∃ k, k ≤ hit ∧ PlaysOn spans k hit := ⟨hit, le_rfl, playsOn_self⟩
  exact ⟨Nat.find hex, Nat.find_spec hex, fun _ hk => Nat.find_min' hex hk⟩

/-- The walk back stops in the run, at a part that has begun or at the run's first. -/
theorem walkBack_spec (fromMs : ℚ) (h : part < spans.length) :
    (walkBack spans fromMs part h : ℕ) ≤ part ∧ PlaysOn spans (walkBack spans fromMs part h) part ∧
      (spans[walkBack spans fromMs part h].startTime ≤ fromMs ∨
        RunStart spans (walkBack spans fromMs part h) part) := by
  induction part with
  | zero => exact ⟨le_rfl, playsOn_self, .inr ⟨⟨le_rfl, playsOn_self⟩, fun k _ => Nat.zero_le k⟩⟩
  | succ part ih =>
    unfold walkBack
    split_ifs with hback
    · obtain ⟨hle, hrun, hstop⟩ := ih (by omega)
      refine ⟨by omega, hrun.succ h hback.2, hstop.imp_right fun hstart => ?_⟩
      refine ⟨⟨by omega, hrun.succ h hback.2⟩, fun k hk => ?_⟩
      rcases hk.1.eq_or_lt with rfl | hlt
      · omega
      · exact hstart.2 ⟨by omega, fun j hj hle hlt' => hk.2 j hj hle (by omega)⟩
    · refine ⟨le_rfl, playsOn_self, ?_⟩
      rcases lt_or_ge fromMs spans[part + 1].startTime with hlt | hge
      · refine .inr ⟨⟨le_rfl, playsOn_self⟩, fun k hk => ?_⟩
        by_contra hbefore
        exact hback ⟨hlt, hk.2 part h (by simp only at hbefore ⊢; omega) (by omega)⟩
      · exact .inl hge

/-- A camera's spans in the order of their starts. -/
def InOrder (spans : List RecordingSpan) : Prop := spans.Pairwise fun s t => s.start ≤ t.start

/-- The part and offset the code returns once it has found the span that contains the moment. -/
def watchFrom (spans : List RecordingSpan) (moment : ℤ) (prerollS : ℚ) (hit : Fin spans.length) :
    Fin spans.length × ℚ :=
  let fromMs := getTime moment - prerollS * 1000
  let part := walkBack spans fromMs hit hit.isLt
  (part, max 0 ((fromMs - spans[part].startTime) / 1000))

private theorem findMoment_cons (recording : CameraRecording) (recordings : List CameraRecording) :
    findMoment (recording :: recordings) moment prerollS =
      match recording.spans.findFinIdx? (·.Contains moment) with
      | none => findMoment recordings moment prerollS
      | some hit => some ⟨recording.cameraAlias, (watchFrom recording.spans moment prerollS hit).1,
          (watchFrom recording.spans moment prerollS hit).2⟩ := rfl

private theorem startTime_mono {s t : RecordingSpan} (h : s.start ≤ t.start) : s.startTime ≤ t.startTime := by
  have hread : s.start / 1000 ≤ t.start / 1000 := Int.ediv_le_ediv (by decide) h
  exact Int.cast_le.mpr hread

/-- `Date` drops less than a millisecond. -/
theorem getTime_bounds (us : ℤ) : (getTime us : ℚ) * 1000 ≤ us ∧ (us : ℚ) < getTime us * 1000 + 1000 := by
  unfold getTime
  constructor
  · exact_mod_cast Int.ediv_mul_le us (by decide)
  · have hlt : us < us / 1000 * 1000 + 1000 := by omega
    exact_mod_cast hlt

theorem RunStart.le_iff (h : RunStart spans first hit) (hle : part ≤ hit) (hrun : PlaysOn spans part hit) :
    first ≤ part :=
  h.2 ⟨hle, hrun⟩

/-- The span at `hit` contains the moment first, and playing on from `part` reaches it. -/
structure Watchable (spans : List RecordingSpan) (moment : ℤ) (prerollS : ℚ) (hit part : Fin spans.length)
    (offsetS : ℚ) : Prop where
  contains : spans[hit].Contains moment
  firstHit : ∀ k < hit, ¬ spans[k].Contains moment
  le : part ≤ hit
  playsOn : PlaysOn spans part hit
  /-- The later of the moment less the preroll and the run's start, but for less than a millisecond. -/
  names : ∃ first : Fin spans.length, RunStart spans first hit ∧
    |spans[part].start + offsetS * 1000000 - max (moment - prerollS * 1000000) (spans[first].start : ℚ)| < 1000

/-- A part that has begun at the time sought is played from that time on. -/
theorem names_of_begun {s f : RecordingSpan} (hsf : f.startTime ≤ s.startTime)
    (hbegun : s.startTime ≤ getTime moment - prerollS * 1000) :
    |s.start + max 0 ((getTime moment - prerollS * 1000 - s.startTime) / 1000) * 1000000 -
      max (moment - prerollS * 1000000) (f.start : ℚ)| < 1000 := by
  obtain ⟨hm, hm'⟩ := getTime_bounds moment
  obtain ⟨hs, hs'⟩ := getTime_bounds s.start
  obtain ⟨hf, hf'⟩ := getTime_bounds f.start
  unfold RecordingSpan.startTime at *
  rw [max_eq_right (div_nonneg (by linarith) (by norm_num)), abs_lt]
  rcases max_cases ((moment : ℚ) - prerollS * 1000000) (f.start : ℚ) with ⟨hmax, hle⟩ | ⟨hmax, hlt⟩
  · rw [hmax]
    constructor <;> linarith
  · rw [hmax]
    constructor <;> linarith

/-- A run that starts later than the time sought is played from its start on. -/
theorem names_of_later {s : RecordingSpan} (hlater : getTime moment - prerollS * 1000 < s.startTime) :
    |s.start + max 0 ((getTime moment - prerollS * 1000 - s.startTime) / 1000) * 1000000 -
      max (moment - prerollS * 1000000) (s.start : ℚ)| < 1000 := by
  obtain ⟨hm, hm'⟩ := getTime_bounds moment
  obtain ⟨hs, hs'⟩ := getTime_bounds s.start
  unfold RecordingSpan.startTime at *
  rw [max_eq_left (div_nonpos_of_nonpos_of_nonneg (by linarith) (by norm_num)), abs_lt]
  rcases max_cases ((moment : ℚ) - prerollS * 1000000) (s.start : ℚ) with ⟨hmax, hle⟩ | ⟨hmax, hlt⟩
  · rw [hmax]
    constructor <;> linarith
  · rw [hmax]
    constructor <;> linarith

theorem watchFrom_watchable (horder : InOrder spans) {hit : Fin spans.length} (hcontains : spans[hit].Contains moment)
    (hfirst : ∀ k < hit, ¬ spans[k].Contains moment) :
    Watchable spans moment prerollS hit (watchFrom spans moment prerollS hit).1
      (watchFrom spans moment prerollS hit).2 := by
  obtain ⟨hle, hrun, hstop⟩ := walkBack_spec (getTime moment - prerollS * 1000) hit.isLt
  refine ⟨hcontains, hfirst, hle, hrun, ?_⟩
  rcases lt_or_ge (getTime moment - prerollS * 1000) spans[(watchFrom spans moment prerollS hit).1].startTime
    with hlater | hbegun
  · exact ⟨_, hstop.resolve_left (not_le.mpr hlater), names_of_later hlater⟩
  · obtain ⟨first, hstart⟩ := exists_runStart spans hit
    have hfirst : first ≤ (watchFrom spans moment prerollS hit).1 := hstart.le_iff hle hrun
    have hlt : first < spans.length := hfirst.trans_lt (Fin.isLt _)
    refine ⟨⟨first, hlt⟩, hstart, names_of_begun ?_ hbegun⟩
    rcases hfirst.eq_or_lt with heq | hbefore
    · exact le_of_eq (by simp only [Fin.getElem_fin, heq])
    · exact startTime_mono (List.pairwise_iff_getElem.mp horder _ _ hlt (Fin.isLt _) hbefore)

/-- No camera's spans contain the moment as `Date` reads them. -/
def Unrecorded (recordings : List CameraRecording) (moment : ℤ) : Prop :=
  ∀ r ∈ recordings, ∀ s ∈ r.spans, ¬ s.Contains moment

/-- `found` is in the first camera that recorded the moment. -/
structure FoundIn (recordings : List CameraRecording) (moment : ℤ) (prerollS : ℚ) (found : ReplayMoment)
    (recording : CameraRecording) : Prop where
  firstCamera : ∃ before after, recordings = before ++ recording :: after ∧ Unrecorded before moment
  cameraAlias : found.cameraAlias = recording.cameraAlias
  watchable : ∃ hit part : Fin recording.spans.length, found.part = part ∧
    Watchable recording.spans moment prerollS hit part found.offsetS

theorem unrecorded_cons {recording : CameraRecording} {recordings : List CameraRecording}
    (h : recording.spans.findFinIdx? (·.Contains moment) = none) :
    Unrecorded (recording :: recordings) moment ↔ Unrecorded recordings moment := by
  rw [List.findFinIdx?_eq_none_iff] at h
  simp only [decide_eq_true_eq] at h
  rw [Unrecorded, List.forall_mem_cons, and_iff_right h, Unrecorded]

/-- Null where no camera was recording, else a time from which playing on reaches the moment. -/
theorem findMoment_watchable (recordings : List CameraRecording) (moment : ℤ) (prerollS : ℚ)
    (horder : ∀ r ∈ recordings, InOrder r.spans) :
    (findMoment recordings moment prerollS = none ↔ Unrecorded recordings moment) ∧
      ∀ found, findMoment recordings moment prerollS = some found →
        ∃ recording, FoundIn recordings moment prerollS found recording := by
  induction recordings with
  | nil => exact ⟨iff_of_true rfl nofun, nofun⟩
  | cons recording recordings ih =>
    rw [findMoment_cons]
    cases hhit : recording.spans.findFinIdx? (·.Contains moment) with
    | none =>
      obtain ⟨hnone, hsome⟩ := ih fun r hr => horder r (List.mem_cons_of_mem _ hr)
      refine ⟨hnone.trans (unrecorded_cons hhit).symm, fun found hfound => ?_⟩
      obtain ⟨camera, ⟨before, after, hsplit, hbefore⟩, halias, hwatch⟩ := hsome found hfound
      exact ⟨camera, ⟨recording :: before, after, by rw [hsplit]; rfl, (unrecorded_cons hhit).mpr hbefore⟩,
        halias, hwatch⟩
    | some hit =>
      obtain ⟨hcontains, hfirst⟩ := List.findFinIdx?_eq_some_iff.mp hhit
      simp only [decide_eq_true_eq] at hcontains hfirst
      constructor
      · refine iff_of_false nofun fun hnone => ?_
        exact hnone recording List.mem_cons_self _ (List.getElem_mem hit.isLt) hcontains
      · intro found hfound
        cases hfound
        exact ⟨recording, ⟨[], recordings, rfl, nofun⟩, rfl, hit, _, rfl,
          watchFrom_watchable (horder recording List.mem_cons_self) hcontains hfirst⟩

/-- A moment in the second of two parts that meet, sought from 30 s before. -/
theorem findMoment_watchable_twoParts :
    (findMoment [⟨"CamA", [⟨0, 600⟩, ⟨600000000, 600⟩]⟩] 610000000 30 = none ↔
      Unrecorded [⟨"CamA", [⟨0, 600⟩, ⟨600000000, 600⟩]⟩] 610000000) ∧
      ∀ found, findMoment [⟨"CamA", [⟨0, 600⟩, ⟨600000000, 600⟩]⟩] 610000000 30 = some found →
        ∃ recording, FoundIn [⟨"CamA", [⟨0, 600⟩, ⟨600000000, 600⟩]⟩] 610000000 30 found recording :=
  findMoment_watchable _ _ _ (by simp [InOrder])

/-- The time a span ends, in microseconds. -/
def RecordingSpan.endUs (s : RecordingSpan) : ℚ := s.start + s.durationS * 1000000

/-- A span that starts later within the moment's millisecond is found to contain it. -/
theorem not_findMoment_none_iff :
    ¬ ∀ (recordings : List CameraRecording) (moment : ℤ) (prerollS : ℚ),
      (∀ r ∈ recordings, r.spans.Pairwise fun s t => s.start ≤ t.start ∧ s.endUs ≤ t.start) → 0 ≤ prerollS →
        (findMoment recordings moment prerollS = none ↔
          ∀ r ∈ recordings, ∀ s ∈ r.spans, ¬ (s.start ≤ moment ∧ moment < s.endUs)) := by
  intro hclaim
  have hnone := (hclaim [⟨"CamA", [⟨999, 600⟩]⟩] 500 0 (by simp) le_rfl).mpr (by simp)
  have hsome : findMoment [⟨"CamA", [⟨999, 600⟩]⟩] 500 0 = some ⟨"CamA", 0, 0⟩ := by decide +kernel
  rw [hsome] at hnone
  cases hnone

end Kanat.ReplayMoments
