import Kanat.LocalTime
import Kanat.Recordings
import Kanat.TimeTexts

/-! # A recording file's name and times

`_file_start` and `_file_end` of `services/recordings.py`, of a file whose last write is `mtime`, in seconds, if it is
there. MediaMTX's clocks are this PC's. -/
namespace Kanat.RecordingNames
open Rounding (pyRound pyRound_error pyRound_intCast)
open Calendar LocalTime PlainTexts TimeTexts

def RECORDING_NAME : String := "%Y-%m-%d_%H-%M-%S-%f"

/-- `RECORDING` of `camera_sync.py` -/
def recordPath : String := "./recordings/%path/%Y-%m-%d_%H-%M-%S-%f"

/-- What MediaMTX names a file that begins at an instant. It writes a year with no zeros before it. -/
def recordingName (zone : Zone) (began : ℤ) : Option (List Char) :=
  (items (rpartition '/' recordPath.toList).2).bind fun fmt =>
    (DateTime.ofMicros (clock zone began)).map fun naive => strftime 0 fmt naive ++ ".mp4".toList

/-- `Path.stem` -/
def stem (name : List Char) : List Char :=
  let parts := rpartition '.' name
  if parts.1 ≠ [] ∧ parts.2 ≠ [] then parts.1 else name

section
variable (zone : Zone)

/-- `datetime.fromtimestamp(mtime).astimezone()` -/
def writtenAt (mtime : ℚ) : Except Raised ℤ :=
  (fromtimestamp zone (pyRound (mtime * 1000000))).bind fun naive => astimezone zone naive.1 naive.2

def fileStart (name : List Char) (mtime : Option ℚ) : Except Raised (Option ℤ) :=
  match (items RECORDING_NAME.toList).bind fun fmt => strptime fmt (stem name) with
  | none => .ok none
  | some naive =>
    (astimezone zone naive.micros false).bind fun first =>
      (astimezone zone naive.micros true).bind fun second =>
        if first = second then .ok (some first)
        else
          match mtime with
          | none => .ok none
          | some mtime => (writtenAt zone mtime).map fun written => some (if second ≤ written then second else first)

def fileEnd (mtime : Option ℚ) (began : ℤ) : Except Raised ℤ :=
  (match mtime with
    | some mtime => (writtenAt zone mtime).map some
    | none => .ok none).bind fun written =>
      if InRange (clock zone began + Recordings.segment) then .ok (Recordings.fileEnd written began)
      else .error .overflowError

end

/-- The file's name gives its start back, and its end is its last write, to the microsecond. -/
structure ReadBack (zone : Zone) (began : ℤ) (mtime : ℚ) : Prop where
  start : ∃ name, recordingName zone began = some name ∧ fileStart zone name (some mtime) = .ok (some began)
  ended : ∃ ended, fileEnd zone (some mtime) began = .ok ended ∧ began ≤ ended ∧ ended ≤ began + Recordings.segment ∧
    |(ended : ℚ) - mtime * 1000000| ≤ 1 / 2

variable {zone : Zone} {began : ℤ} {mtime : ℚ}

def recordingFormat : List Item :=
  [.year, .char '-', .month, .char '-', .day, .char '_', .hour, .char '-', .minute, .char '-', .second, .char '-',
    .microsecond]

theorem items_recordPath : items (rpartition '/' recordPath.toList).2 = some recordingFormat := by decide

private theorem items_RECORDING_NAME : items RECORDING_NAME.toList = some recordingFormat := by decide

theorem stem_append {name suffix : List Char} (hname : name ≠ []) (hsuffix : suffix ≠ []) (hdot : '.' ∉ suffix) :
    stem (name ++ '.' :: suffix) = name := by
  rw [stem, rpartition_append name hdot]
  exact if_pos ⟨hname, hsuffix⟩

private theorem strftime_ne_nil (d : DateTime) : strftime 0 recordingFormat d ≠ [] := by
  simp [strftime, recordingFormat, write]

/-- What is read of the name is the local time it was written of. -/
theorem recordingName_read {d : DateTime} (hd : DateTime.ofMicros (clock zone began) = some d) (hyear : 1000 ≤ d.year) :
    ∃ name, recordingName zone began = some name ∧
      ((items RECORDING_NAME.toList).bind fun fmt => strptime fmt (stem name)) = some d := by
  refine ⟨strftime 0 recordingFormat d ++ ".mp4".toList, ?_, ?_⟩
  · rw [recordingName, items_recordPath, Option.bind_some, hd]
    rfl
  · have hstem : stem (strftime 0 recordingFormat d ++ ".mp4".toList) = strftime 0 recordingFormat d :=
      stem_append (strftime_ne_nil d) (by decide) (by decide)
    rw [items_RECORDING_NAME, Option.bind_some, hstem]
    exact strptime_strftime (by decide) (length_year (Nat.zero_le _) (.inl hyear))

theorem writtenAt_eq (hzone : Regular zone) (hinside : Inside (clock zone (pyRound (mtime * 1000000)) / 1000000)) :
    writtenAt zone mtime = .ok (pyRound (mtime * 1000000)) := astimezone_fromtimestamp hzone hinside

/-- A last write within a segment of the start is, to the microsecond, too. -/
theorem pyRound_within (hlow : began ≤ mtime * 1000000) (hup : mtime * 1000000 ≤ began + Recordings.segment) :
    began ≤ pyRound (mtime * 1000000) ∧ pyRound (mtime * 1000000) ≤ began + Recordings.segment := by
  refine ⟨Rounding.le_pyRound hlow, Rounding.pyRound_le ?_⟩
  rw [Int.cast_add]
  exact hup

/-- The local times near a file's start are well within what a `datetime` says. -/
theorem inside_of_year {d : DateTime} (hzone : Regular zone) (hd : DateTime.ofMicros (clock zone began) = some d)
    (hyear : 1000 ≤ d.year) (hend : InRange (clock zone began + 7 * 86400000000)) {instant : ℤ} (hlow : began ≤ instant)
    (hup : instant ≤ began + Recordings.segment) : Inside (clock zone instant / 1000000) := by
  have hle := d.le_micros
  rw [DateTime.micros_of_ofMicros hd] at hle
  have hbefore : 1000 ≤ daysBeforeYear d.year := by
    rw [daysBeforeYear]
    omega
  have hbegan := hzone.within (began / 1000000)
  have hinstant := hzone.within (instant / 1000000)
  obtain ⟨-, hlast⟩ := hend
  simp only [clock, Recordings.segment, day] at *
  exact ⟨by simp only [day]; omega, by simp only [day]; omega⟩

/-- Of two instants that the clocks read alike, the later is the start just if it is not after the last write. -/
theorem fileStart_eq {name : List Char} {d : DateTime} (hzone : Regular zone)
    (hmore : ∀ c, Changes zone c → Recordings.segment < change zone c * 1000000) (hd : d.micros = clock zone began)
    (hname : ((items RECORDING_NAME.toList).bind fun fmt => strptime fmt (stem name)) = some d)
    (hinside : Inside (clock zone began / 1000000)) {written : ℤ} (hwritten : writtenAt zone mtime = .ok written)
    (hlow : began ≤ written) (hup : written ≤ began + Recordings.segment) :
    fileStart zone name (some mtime) = .ok (some began) := by
  have hroom := hzone.roomy hinside
  have hdiv := clock_div zone began
  have hmod := clock_mod zone began
  have hreads := hdiv.symm
  have hastimezone {u : ℤ} {fold : Bool} (hmktime : mktime zone (clock zone began / 1000000) fold = .ok u)
      (hu : u + zone u = clock zone began / 1000000) :
      astimezone zone (clock zone began) fold = .ok (u * 1000000 + began % 1000000) :=
    hmod ▸ astimezone_of_mktime hzone hinside hmktime hu
  simp only [fileStart, hname, hd]
  by_cases halone : ∀ v, v + zone v = began / 1000000 + zone (began / 1000000) → v = began / 1000000
  · have hmktime (fold : Bool) : mktime zone (clock zone began / 1000000) fold = .ok (began / 1000000) := by
      rw [hdiv] at hroom ⊢
      exact mktime_of_unique hzone hroom halone fold
    rw [hastimezone (hmktime false) hreads, hastimezone (hmktime true) hreads]
    simp only [Except.bind, if_true]
    exact congrArg (Except.ok ∘ some) (by omega)
  · push Not at halone
    obtain ⟨v, halike, hne⟩ := halone
    have hreads' : v + zone v = clock zone began / 1000000 := halike.trans hreads
    rcases lt_or_gt_of_ne hne with hlt | hlt
    · -- the start is the later of two that read alike, and the last write is not before it
      have hmktime (fold : Bool) : mktime zone (clock zone began / 1000000) fold =
          .ok (if fold then began / 1000000 else v) := by
        rw [← hreads'] at hroom ⊢
        exact mktime_of_twice hzone hroom hlt halike fold
      have hdiffer : v * 1000000 + began % 1000000 ≠ began / 1000000 * 1000000 + began % 1000000 := by omega
      rw [hastimezone (hmktime false) hreads', hastimezone (hmktime true) hreads]
      simp only [Except.bind, if_true, Bool.false_eq_true, if_false, if_neg hdiffer, hwritten, Except.map]
      rw [if_pos (by omega)]
      exact congrArg (Except.ok ∘ some) (by omega)
    · -- the start is the earlier, and the last write is before the later
      obtain ⟨c, -, -, hc, hgone, -, -, -⟩ := hzone.twice hlt halike.symm
      have hfar := hmore c hc
      rw [change_of_goneBack (by omega), hgone] at hfar
      have hmktime (fold : Bool) : mktime zone (clock zone began / 1000000) fold =
          .ok (if fold then v else began / 1000000) := by
        rw [hdiv] at hroom ⊢
        exact mktime_of_twice hzone hroom hlt halike.symm fold
      have hdiffer : began / 1000000 * 1000000 + began % 1000000 ≠ v * 1000000 + began % 1000000 := by omega
      rw [hastimezone (hmktime false) hreads, hastimezone (hmktime true) hreads']
      simp only [Except.bind, if_true, Bool.false_eq_true, if_false, if_neg hdiffer, hwritten, Except.map]
      rw [if_neg (by omega)]
      exact congrArg (Except.ok ∘ some) (by omega)

private theorem fileEnd_eq {zone : Zone} {began written : ℤ} {mtime : ℚ} (hwritten : writtenAt zone mtime = .ok written)
    (hrange : InRange (clock zone began + Recordings.segment)) (hlow : began ≤ written)
    (hup : written ≤ began + Recordings.segment) : fileEnd zone (some mtime) began = .ok written := by
  simp only [fileEnd, hwritten, Except.map, Except.bind, if_pos hrange, Recordings.fileEnd, Option.getD_some,
    max_eq_left hlow, min_eq_left hup]

theorem fileStart_recordingName {zone : Zone} (hzone : Regular zone)
    (hmore : ∀ c, Changes zone c → Recordings.segment < change zone c * 1000000) (began : ℤ) (mtime : ℚ)
    (hyear : ∃ d, DateTime.ofMicros (clock zone began) = some d ∧ 1000 ≤ d.year)
    (hend : InRange (clock zone began + 7 * 86400000000)) (hlow : began ≤ mtime * 1000000)
    (hup : mtime * 1000000 ≤ began + Recordings.segment) : ReadBack zone began mtime := by
  obtain ⟨d, hd, hfour⟩ := hyear
  obtain ⟨name, hname, hread⟩ := recordingName_read hd hfour
  obtain ⟨hafter, hbefore⟩ := pyRound_within hlow hup
  have hinside := inside_of_year hzone hd hfour hend hafter hbefore
  have hinside' := inside_of_year hzone hd hfour hend le_rfl (hafter.trans hbefore)
  have hwritten := writtenAt_eq hzone hinside
  have hrange : InRange (clock zone began + Recordings.segment) := by
    have hle := d.le_micros
    rw [DateTime.micros_of_ofMicros hd] at hle
    obtain ⟨hfirst, hlast⟩ := hend
    simp only [Recordings.segment]
    exact ⟨by omega, by omega⟩
  constructor
  · have hmicros := DateTime.micros_of_ofMicros hd
    exact ⟨name, hname, fileStart_eq hzone hmore hmicros hread hinside' hwritten hafter hbefore⟩
  · exact ⟨_, fileEnd_eq hwritten hrange hafter hbefore, hafter, hbefore, pyRound_error _⟩

def changing (c c' before between after : ℤ) : Zone := fun u =>
  if u < c then before else if u < c' then between else after

theorem eq_of_changes {c c' before between after u : ℤ} (h : Changes (changing c c' before between after) u) :
    u = c ∨ u = c' := by
  by_contra hne
  refine h ?_
  simp only [changing]
  split_ifs <;> omega

/-- Israel in 2026 -/
def israel : Zone := changing 1774569600 1792882800 7200 10800 7200

theorem goneBack_israel (u : ℤ) : goneBack israel u ≤ 3600 := by
  simp only [goneBack, israel, changing]
  split_ifs <;> omega

theorem regular_israel : Regular israel := by
  constructor
  · intro u
    simp only [israel, changing, day]
    split_ifs <;> omega
  · exact fun u => (goneBack_israel u).trans (by decide)
  · intro c c' hc hc' hlt
    have hback := goneBack_israel c
    have hback' := goneBack_israel c'
    simp only [day]
    rcases eq_of_changes hc with rfl | rfl <;> rcases eq_of_changes hc' with rfl | rfl <;> omega

theorem more_israel (c : ℤ) (hc : Changes israel c) : Recordings.segment < change israel c * 1000000 := by
  rcases eq_of_changes hc with rfl | rfl <;> decide

theorem fileStart_recordingName_repeatedHour :
    ReadBack israel 1792881000123456 1792881300 ∧ ReadBack israel 1792884600123456 1792884900 :=
  ⟨fileStart_recordingName regular_israel more_israel _ _ ⟨_, rfl, by decide⟩ (by decide) (by norm_num)
      (by norm_num [Recordings.segment]),
    fileStart_recordingName regular_israel more_israel _ _ ⟨_, rfl, by decide +kernel⟩ (by decide) (by norm_num)
      (by norm_num [Recordings.segment])⟩

theorem not_of_start {zone : Zone} {began : ℤ} {mtime : ℚ}
    (h : ¬∃ name ∈ recordingName zone began, fileStart zone name (some mtime) = .ok (some began)) :
    ¬ReadBack zone began mtime := fun hread => h hread.start

theorem not_readBack :
    (¬∀ zone, (∀ c, Changes zone c → Recordings.segment < change zone c * 1000000) → ∀ (began : ℤ) (mtime : ℚ),
      began ≤ mtime * 1000000 → mtime * 1000000 ≤ began + Recordings.segment → ReadBack zone began mtime) ∧
    -- forward again a second too soon, back by a second more than a day, and a day off UTC
    ¬ReadBack (changing 1792882800 1792972799 3600 0 3600) 1792886399000000 1792886399 ∧
    ¬ReadBack (changing 1792882800 1793487600 43201 (-43200) 0) 1792882799000000 1792882799 ∧
    ¬ReadBack (fun _ => 86400) 1792882799000000 1792882799 ∧
    -- the last day of the year 9999, and the year 999
    ¬ReadBack (fun _ => 0) 253402257600000000 253402257600 ∧
    ¬ReadBack (fun _ => 0) (-30628929600000000) (-30628929600) := by
  refine ⟨fun h => ?_, not_of_start (by decide +kernel), not_of_start (by decide +kernel),
    not_of_start (by decide +kernel), not_of_start (by decide +kernel), not_of_start (by decide +kernel)⟩
  -- back an hour twice in an hour, and the second of three that read alike
  refine not_of_start (by decide +kernel) (h (changing 1792882800 1792886400 7200 3600 0) ?_ 1792885500000000 1792885500
    (by norm_num) (by norm_num [Recordings.segment]))
  intro c hc
  rcases eq_of_changes hc with rfl | rfl <;> decide

end Kanat.RecordingNames
