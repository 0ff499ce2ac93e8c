import Mathlib.Data.List.Chain
import Mathlib.Data.List.Sort
import Mathlib.Data.Rat.Floor
import Mathlib.Order.Interval.Set.LinearOrder
import Kanat.CameraSync
import Kanat.SessionInvariants
import Mathlib.Order.CompletePartialOrder

/-! # The parts a Session's recordings are offered in

`services/recordings.py`. A part is at most `MAX_PART_S` long, and only a listed one is played. -/
namespace Kanat.Recordings
open Rounding (pyRound)
open CameraSync (Camera)
open Sessions (RecordingInterval recordedWindows Grown)

/-- `MAX_PART_S`, in microseconds. -/
def maxPart : ℤ := 600 * 1000000

structure RecordingSpan where
  start : ℤ
  durationS : ℚ

structure CameraRecording where
  cameraAlias : String
  spans : List RecordingSpan

/-- One of `mediamtx.list_recordings`' answers; its duration is in seconds. -/
structure Item where
  start : ℤ
  duration : ℚ

/-- `span_start` and `span_end` -/
def Item.span (item : Item) : Window := (item.start, item.start + pyRound (item.duration * 1000000))

def cut (w s : Window) : Window := (max s.1 w.1, min s.2 w.2)

/-- `_parts` -/
def parts (start ended : ℤ) : List RecordingSpan :=
  if start < ended then
    let partEnd := min (start + maxPart) ended
    ⟨start, (partEnd - start : ℤ) / 1000000⟩ :: parts partEnd ended
  else []
  termination_by (ended - start).toNat
  decreasing_by simp only [maxPart]; omega

variable {Unreachable : Type}

/-- A camera's parts, before they are sorted; a call of `listRecordings` may fail. -/
def cameraSpans (listRecordings : String → ℤ → ℤ → Except Unreachable (List Item)) (cameraAlias : String) :
    List Window → Except Unreachable (List RecordingSpan)
  | [] => .ok []
  | w :: windows => do
    let items ← listRecordings cameraAlias w.1 w.2
    let spans ← cameraSpans listRecordings cameraAlias windows
    return items.flatMap (fun item => parts (cut w item.span).1 (cut w item.span).2) ++ spans

def sessionRecordings (listRecordings : String → ℤ → ℤ → Except Unreachable (List Item)) (windows : List Window) :
    List Camera → Except Unreachable (List CameraRecording)
  | [] => .ok []
  | camera :: cameras => do
    let spans ← cameraSpans listRecordings camera.cameraAlias windows
    let out ← sessionRecordings listRecordings windows cameras
    return if spans.isEmpty then out
      else ⟨camera.cameraAlias, spans.mergeSort (·.start ≤ ·.start)⟩ :: out

/-- Whether a listed part is the one asked for. -/
def isPart (start : ℤ) (durationS : ℚ) (span : RecordingSpan) : Bool :=
  |((span.start - start : ℤ) : ℚ) / 1000000| < 1 / 1000 && |span.durationS - durationS| < 1 / 1000

def isListedPart (listRecordings : String → ℤ → ℤ → Except Unreachable (List Item)) (windows : List Window)
    (cameras : List Camera) (cameraAlias : String) (start : ℤ) (durationS : ℚ) : Except Unreachable Bool := do
  let out ← sessionRecordings listRecordings windows (cameras.filter (·.cameraAlias = cameraAlias))
  return out.any fun recording => recording.spans.any (isPart start durationS)

def RecordingSpan.ended (p : RecordingSpan) : ℚ := p.start + p.durationS * 1000000

/-- The moments of a part. -/
def RecordingSpan.during (p : RecordingSpan) : Set ℚ := Set.Ico p.start p.ended

/-- The moments of a stretch. -/
def during (w : Window) : Set ℚ := Set.Ico w.1 w.2

theorem during_cut (w s : Window) : during (cut w s) = during s ∩ during w := by
  simp [during, cut, Set.Ico_inter_Ico]

theorem parts_of_le {start ended : ℤ} (h : ended ≤ start) : parts start ended = [] := by
  rw [parts, if_neg (not_lt.mpr h)]

theorem parts_of_lt {start ended : ℤ} (h : start < ended) :
    parts start ended = ⟨start, (min (start + maxPart) ended - start : ℤ) / 1000000⟩ ::
      parts (min (start + maxPart) ended) ended := by
  rw [parts, if_pos h]

theorem ended_mk (a b : ℤ) : RecordingSpan.ended ⟨a, (b - a : ℤ) / 1000000⟩ = b := by
  simp [RecordingSpan.ended]

/-- By the passes of `_parts`' loop: the last part ends where the stretch does, each before it is `MAX_PART_S` long. -/
@[elab_as_elim]
theorem parts_induction {motive : ℤ → ℤ → Prop} (stop : ∀ a b, b ≤ a → parts a b = [] → motive a b)
    (pass : ∀ a b c, a < c → c ≤ a + maxPart → c ≤ b → (c < b → c = a + maxPart) →
      parts a b = ⟨a, (c - a : ℤ) / 1000000⟩ :: parts c b → motive c b → motive a b) (a b : ℤ) : motive a b := by
  induction a using parts.induct b with
  | case1 a h c ih =>
    have hpos : 0 < maxPart := by decide
    exact pass a b c (lt_min (by omega) h) (min_le_left _ _) (min_le_right _ _) (fun hc => by omega) (parts_of_lt h) ih
  | case2 a h => exact stop a b (not_lt.mp h) (parts_of_le (not_lt.mp h))

variable {a b : ℤ} {p : RecordingSpan}

theorem parts_bounds (hp : p ∈ parts a b) : a ≤ p.start ∧ p.ended ≤ b := by
  induction a, b using parts_induction with
  | stop a b _ heq => simp [heq] at hp
  | pass a b c hac _ hcb _ heq ih =>
    rw [heq] at hp
    rcases List.mem_cons.mp hp with rfl | hp
    · exact ⟨le_refl a, by rw [ended_mk]; exact_mod_cast hcb⟩
    · exact ⟨hac.le.trans (ih hp).1, (ih hp).2⟩

theorem parts_sized (hp : p ∈ parts a b) : 0 < p.durationS ∧ p.durationS ≤ 600 := by
  induction a, b using parts_induction with
  | stop a b _ heq => simp [heq] at hp
  | pass a b c hac hle _ _ heq ih =>
    rw [heq] at hp
    rcases List.mem_cons.mp hp with rfl | hp
    · have hac' : (0 : ℚ) < (c - a : ℤ) := by exact_mod_cast Int.sub_pos.mpr hac
      have hle' : ((c - a : ℤ) : ℚ) ≤ 600 * 1000000 := by
        simp only [maxPart] at hle
        exact_mod_cast (by omega : c - a ≤ 600 * 1000000)
      exact ⟨by positivity, (div_le_iff₀ (by norm_num)).mpr hle'⟩
    · exact ih hp

private theorem parts_inOrder (a b : ℤ) : (parts a b).Pairwise fun p q => p.ended ≤ q.start := by
  induction a, b using parts_induction with
  | stop a b _ heq => simp [heq]
  | pass a b c _ _ _ _ heq ih =>
    rw [heq]
    refine .cons (fun q hq => ?_) ih
    rw [ended_mk]
    exact_mod_cast (parts_bounds hq).1

private theorem parts_cover (a b : ℤ) : (⋃ p ∈ parts a b, p.during) = during (a, b) := by
  induction a, b using parts_induction with
  | stop a b hle heq => simp [during, heq, hle]
  | pass a b c hac _ hcb _ heq ih =>
    have hac' : (a : ℚ) ≤ c := by exact_mod_cast hac.le
    have hcb' : (c : ℚ) ≤ b := by exact_mod_cast hcb
    simp only [heq, List.mem_cons, Set.iUnion_iUnion_eq_or_left, ih]
    rw [RecordingSpan.during, ended_mk]
    exact Set.Ico_union_Ico_eq_Ico hac' hcb'

/-- How many passes `_parts` makes. -/
theorem parts_length (a b : ℤ) : ((parts a b).length : ℤ) = max 0 ⌈((b - a : ℤ) : ℚ) / maxPart⌉ := by
  have hpos : (0 : ℚ) < (maxPart : ℚ) := by norm_num [maxPart]
  induction a, b using parts_induction with
  | stop a b hle heq =>
    have hneg : ((b - a : ℤ) : ℚ) / maxPart ≤ 0 :=
      div_nonpos_of_nonpos_of_nonneg (by exact_mod_cast Int.sub_nonpos_of_le hle) hpos.le
    rw [heq, max_eq_left (Int.ceil_nonpos.mpr hneg)]
    rfl
  | pass a b c hac hle hcb hlast heq ih =>
    have hceil : ⌈((b - a : ℤ) : ℚ) / maxPart⌉ = max 0 ⌈((b - c : ℤ) : ℚ) / maxPart⌉ + 1 := by
      rcases hcb.lt_or_eq with hcb | rfl
      · have hsplit : ((b - a : ℤ) : ℚ) / maxPart = ((b - c : ℤ) : ℚ) / maxPart + 1 := by
          rw [div_add_one hpos.ne', hlast hcb]
          push_cast
          ring
        have hceil : 0 < ⌈((b - c : ℤ) : ℚ) / maxPart⌉ :=
          Int.ceil_pos.mpr (div_pos (by exact_mod_cast Int.sub_pos.mpr hcb) hpos)
        rw [hsplit, Int.ceil_add_one, max_eq_right hceil.le]
      · have hac' : (0 : ℚ) < (c - a : ℤ) := by exact_mod_cast Int.sub_pos.mpr hac
        have hle' : ((c - a : ℤ) : ℚ) ≤ maxPart := by exact_mod_cast (by omega : c - a ≤ maxPart)
        have hone : ⌈((c - a : ℤ) : ℚ) / maxPart⌉ = 1 :=
          Int.ceil_eq_iff.mpr ⟨by simpa using div_pos hac' hpos, by simpa using (div_le_one hpos).mpr hle'⟩
        rw [hone, Int.sub_self]
        simp
    rw [heq, List.length_cons, Nat.cast_succ, ih, hceil]
    omega

/-- What the playback server answers for a window: the recorded spans that meet it, as they are or cut to it. -/
def Answers (recorded : List Window) (w : Window) (items : List Item) : Prop :=
  ((items.map fun item => cut w item.span).filter fun s => s.1 < s.2).Perm
    ((recorded.map (cut w)).filter fun s => s.1 < s.2)

/-- The playback server holds `recorded` of each camera, and is reachable. -/
def Plays (listRecordings : String → ℤ → ℤ → Except Unreachable (List Item)) (recorded : String → List Window)
    (windows : List Window) (cameras : List Camera) : Prop :=
  ∀ camera ∈ cameras, ∀ w ∈ windows, ∃ items, listRecordings camera.cameraAlias w.1 w.2 = .ok items ∧
    Answers (recorded camera.cameraAlias) w items

/-- The parts of each recorded span in each window. -/
def recordedParts (recorded windows : List Window) : List RecordingSpan :=
  windows.flatMap fun w => recorded.flatMap fun s => parts (cut w s).1 (cut w s).2

theorem flatMap_parts (spans : List Window) :
    spans.flatMap (fun s => parts s.1 s.2) = (spans.filter fun s => s.1 < s.2).flatMap fun s => parts s.1 s.2 := by
  induction spans with
  | nil => rfl
  | cons s spans ih =>
    rw [List.flatMap_cons, ih]
    by_cases h : s.1 < s.2
    · rw [List.filter_cons_of_pos (by simpa using h), List.flatMap_cons]
    · rw [List.filter_cons_of_neg (by simpa using h), parts_of_le (not_lt.mp h), List.nil_append]

theorem Answers.parts_perm {recorded : List Window} {w : Window} {items : List Item} (h : Answers recorded w items) :
    (items.flatMap fun item => parts (cut w item.span).1 (cut w item.span).2).Perm
      (recorded.flatMap fun s => parts (cut w s).1 (cut w s).2) := by
  have hitems := flatMap_parts (items.map fun item => cut w item.span)
  have hrecorded := flatMap_parts (recorded.map (cut w))
  rw [List.flatMap_map] at hitems hrecorded
  rw [hitems, hrecorded]
  exact h.flatMap_right _

variable {listRecordings : String → ℤ → ℤ → Except Unreachable (List Item)} {recorded : String → List Window}
  {windows : List Window} {cameras : List Camera}

private theorem cameraSpans_perm {camera : Camera} (h : ∀ w ∈ windows, ∃ items,
    listRecordings camera.cameraAlias w.1 w.2 = .ok items ∧ Answers (recorded camera.cameraAlias) w items) :
    ∃ spans, cameraSpans listRecordings camera.cameraAlias windows = .ok spans ∧
      spans.Perm (recordedParts (recorded camera.cameraAlias) windows) := by
  induction windows with
  | nil => exact ⟨[], rfl, .nil⟩
  | cons w windows ih =>
    obtain ⟨items, hitems, hanswers⟩ := h w List.mem_cons_self
    obtain ⟨spans, hspans, hperm⟩ := ih fun v hv => h v (List.mem_cons_of_mem w hv)
    refine ⟨_, by rw [cameraSpans, hitems, hspans]; rfl, ?_⟩
    exact hanswers.parts_perm.append hperm

/-- What the listed parts of a camera hold. -/
structure Covers (recorded windows : List Window) (listed : List RecordingSpan) : Prop where
  inOrder : listed.Pairwise fun p q => p.ended ≤ q.start
  sized : ∀ p ∈ listed, 0 < p.durationS ∧ p.durationS ≤ 600
  inside : ∀ p ∈ listed, ∃ w ∈ windows, p.during ⊆ during w
  cover : (⋃ p ∈ listed, p.during) = (⋃ s ∈ recorded, during s) ∩ ⋃ w ∈ windows, during w
  meets : listed.IsChain fun p q => ∀ s ∈ recorded, ∀ w ∈ windows, (p.start : ℚ) ∈ during s ∩ during w →
    (q.start : ℚ) ∈ during s ∩ during w → p.ended = q.start

theorem RecordingSpan.start_lt_ended (h : 0 < p.durationS) : (p.start : ℚ) < p.ended := by
  simpa [RecordingSpan.ended] using h

theorem mem_recordedParts {recorded windows : List Window} : p ∈ recordedParts recorded windows ↔
    ∃ w ∈ windows, ∃ s ∈ recorded, p ∈ parts (cut w s).1 (cut w s).2 := by
  simp [recordedParts]

theorem during_of_mem_parts (hp : p ∈ parts a b) : p.during ⊆ during (a, b) :=
  Set.Ico_subset_Ico (by exact_mod_cast (parts_bounds hp).1) (parts_bounds hp).2

private theorem recordedParts_cover (recorded windows : List Window) :
    (⋃ p ∈ recordedParts recorded windows, p.during) = (⋃ s ∈ recorded, during s) ∩ ⋃ w ∈ windows, during w := by
  ext t
  have hcut (w s : Window) : t ∈ during s ∧ t ∈ during w ↔ ∃ p ∈ parts (cut w s).1 (cut w s).2, t ∈ p.during := by
    have hparts := parts_cover (cut w s).1 (cut w s).2
    rw [during_cut] at hparts
    simpa using (Set.ext_iff.mp hparts t).symm
  simp only [Set.mem_iUnion, Set.mem_inter_iff, mem_recordedParts, exists_prop]
  constructor
  · rintro ⟨p, ⟨w, hw, s, hs, hp⟩, ht⟩
    obtain ⟨hts, htw⟩ := (hcut w s).mpr ⟨p, hp, ht⟩
    exact ⟨⟨s, hs, hts⟩, w, hw, htw⟩
  · rintro ⟨⟨s, hs, hts⟩, w, hw, htw⟩
    obtain ⟨p, hp, ht⟩ := (hcut w s).mp ⟨hts, htw⟩
    exact ⟨p, ⟨w, hw, s, hs, hp⟩, ht⟩

private theorem recordedParts_disjoint {recorded windows : List Window}
    (hwindows : windows.Pairwise fun v w => Disjoint (during v) (during w))
    (hrecorded : recorded.Pairwise fun r s => Disjoint (during r) (during s)) :
    (recordedParts recorded windows).Pairwise fun p q => Disjoint p.during q.during := by
  refine List.pairwise_flatMap.mpr ⟨fun w _ => List.pairwise_flatMap.mpr ⟨fun s _ => ?_, ?_⟩, ?_⟩
  · refine (parts_inOrder _ _).imp fun hle => ?_
    exact Set.disjoint_left.mpr fun t hp hq => absurd (hle.trans hq.1) (not_le.mpr hp.2)
  · refine hrecorded.imp fun hrs p hp q hq => hrs.mono ?_ ?_
    · exact (during_of_mem_parts hp).trans (by rw [during_cut]; exact Set.inter_subset_left)
    · exact (during_of_mem_parts hq).trans (by rw [during_cut]; exact Set.inter_subset_left)
  · refine hwindows.imp fun hvw p hp q hq => ?_
    obtain ⟨r, -, hp⟩ := List.mem_flatMap.mp hp
    obtain ⟨s, -, hq⟩ := List.mem_flatMap.mp hq
    refine hvw.mono ?_ ?_
    · exact (during_of_mem_parts hp).trans (by rw [during_cut]; exact Set.inter_subset_right)
    · exact (during_of_mem_parts hq).trans (by rw [during_cut]; exact Set.inter_subset_right)

/-- Two parts of a stretch with nothing of it between them meet. -/
theorem meets_of_cover {listed : List RecordingSpan} (hinOrder : listed.Pairwise fun p q => p.ended ≤ q.start)
    (hsized : ∀ p ∈ listed, 0 < p.durationS) {stretch : Set ℚ} (hstretch : stretch.OrdConnected)
    (hcover : stretch ⊆ ⋃ p ∈ listed, p.during) :
    listed.IsChain fun p q => (p.start : ℚ) ∈ stretch → (q.start : ℚ) ∈ stretch → p.ended = q.start := by
  refine List.isChain_iff_forall_rel_of_append_cons_cons.mpr fun p q before after heq hp hq => ?_
  rw [heq] at hinOrder hcover hsized
  obtain ⟨-, htail, hbefore⟩ := List.pairwise_append.mp hinOrder
  obtain ⟨hpafter, hqafter⟩ := List.pairwise_cons.mp htail
  have hplt := p.start_lt_ended (hsized p (by simp))
  have hqlt := q.start_lt_ended (hsized q (by simp))
  have hpq : p.ended ≤ q.start := hpafter q List.mem_cons_self
  by_contra hne
  have hmid : p.ended < q.start := lt_of_le_of_ne hpq hne
  have hin : p.ended ∈ stretch := hstretch.out hp hq ⟨hplt.le, hpq⟩
  obtain ⟨r, hr, hpr⟩ : ∃ r ∈ before ++ p :: q :: after, p.ended ∈ r.during := by simpa using hcover hin
  rcases List.mem_append.mp hr with hr | hr
  · exact absurd (hbefore r hr p List.mem_cons_self) (not_le.mpr (hplt.trans hpr.2))
  · rcases List.mem_cons.mp hr with rfl | hr
    · exact lt_irrefl _ hpr.2
    · rcases List.mem_cons.mp hr with rfl | hr
      · exact absurd hpr.1 (not_le.mpr hmid)
      · have hqr : q.ended ≤ r.start := (List.pairwise_cons.mp hqafter).1 r hr
        exact absurd (hqr.trans hpr.1) (not_le.mpr (hmid.trans hqlt))

private theorem covers_of_perm {recorded windows : List Window} {listed : List RecordingSpan}
    (hwindows : windows.Pairwise fun v w => Disjoint (during v) (during w))
    (hrecorded : recorded.Pairwise fun r s => Disjoint (during r) (during s))
    (hperm : listed.Perm (recordedParts recorded windows)) (hsorted : listed.Pairwise fun p q => p.start ≤ q.start) :
    Covers recorded windows listed := by
  have hsized : ∀ p ∈ listed, 0 < p.durationS ∧ p.durationS ≤ 600 := by
    intro p hp
    obtain ⟨w, -, s, -, hp⟩ := mem_recordedParts.mp (hperm.subset hp)
    exact parts_sized hp
  have hdisjoint : listed.Pairwise fun p q => Disjoint p.during q.during :=
    (hperm.pairwise_iff fun h => h.symm).mpr (recordedParts_disjoint hwindows hrecorded)
  have hinOrder : listed.Pairwise fun p q => p.ended ≤ q.start := by
    refine (hsorted.and hdisjoint).imp_of_mem fun {p q} _ hq hpair => not_lt.mp fun hlt => ?_
    obtain ⟨hle, hpq⟩ := hpair
    have hp : (q.start : ℚ) ∈ p.during := ⟨by exact_mod_cast hle, hlt⟩
    exact Set.disjoint_left.mp hpq hp ⟨le_refl _, q.start_lt_ended (hsized q hq).1⟩
  have hcover : (⋃ p ∈ listed, p.during) = (⋃ s ∈ recorded, during s) ∩ ⋃ w ∈ windows, during w := by
    rw [← recordedParts_cover]
    ext t
    simp [hperm.mem_iff]
  refine ⟨hinOrder, hsized, fun p hp => ?_, hcover, ?_⟩
  · obtain ⟨w, hw, s, -, hp⟩ := mem_recordedParts.mp (hperm.subset hp)
    exact ⟨w, hw, (during_of_mem_parts hp).trans (by rw [during_cut]; exact Set.inter_subset_right)⟩
  · refine List.isChain_iff_forall_rel_of_append_cons_cons.mpr fun p q before after heq s hs w hw hp hq => ?_
    have hin : during s ∩ during w ⊆ ⋃ p ∈ listed, p.during :=
      hcover ▸ Set.inter_subset_inter (Set.subset_biUnion_of_mem hs) (Set.subset_biUnion_of_mem hw)
    have hmeets := meets_of_cover hinOrder (fun p hp => (hsized p hp).1)
      (Set.ordConnected_Ico.inter Set.ordConnected_Ico) hin
    exact List.isChain_iff_forall_rel_of_append_cons_cons.mp hmeets heq hp hq

private theorem sessionRecordings_eq {spans : Camera → List RecordingSpan}
    (h : ∀ c ∈ cameras, cameraSpans listRecordings c.cameraAlias windows = .ok (spans c)) :
    sessionRecordings listRecordings windows cameras = .ok ((cameras.filter fun c => !(spans c).isEmpty).map
      fun c => ⟨c.cameraAlias, (spans c).mergeSort (·.start ≤ ·.start)⟩) := by
  induction cameras with
  | nil => rfl
  | cons camera cameras ih =>
    rw [sessionRecordings, h camera List.mem_cons_self, ih fun c hc => h c (List.mem_cons_of_mem camera hc)]
    simp only [bind, Except.bind, pure, Except.pure]
    cases hempty : (spans camera).isEmpty <;> simp [hempty]

/-- What is listed of each camera is its recorded parts in time order. -/
theorem sessionRecordings_listed (h : Plays listRecordings recorded windows cameras) :
    ∃ listed : Camera → List RecordingSpan, sessionRecordings listRecordings windows cameras =
        .ok ((cameras.filter fun c => !(listed c).isEmpty).map fun c => ⟨c.cameraAlias, listed c⟩) ∧
      ∀ c ∈ cameras, (listed c).Perm (recordedParts (recorded c.cameraAlias) windows) ∧
        (listed c).Pairwise fun p q => p.start ≤ q.start := by
  choose! spans hspans using fun c hc => cameraSpans_perm (h c hc)
  refine ⟨fun c => (spans c).mergeSort (·.start ≤ ·.start), ?_, fun c hc => ⟨?_, ?_⟩⟩
  · rw [sessionRecordings_eq fun c hc => (hspans c hc).1]
    simp only [(List.mergeSort_perm _ _).isEmpty_eq]
  · exact (List.mergeSort_perm _ _).trans (hspans c hc).2
  · have hsorted : ((spans c).mergeSort (·.start ≤ ·.start)).Pairwise fun p q => decide (p.start ≤ q.start) = true :=
      List.pairwise_mergeSort (fun p q r hpq hqr => by simp only [decide_eq_true_eq] at *; omega)
        (fun p q => by simpa using le_total p.start q.start) (spans c)
    exact hsorted.imp of_decide_eq_true

theorem parts_cover_recorded (hwindows : windows.Pairwise fun v w => Disjoint (during v) (during w))
    (hrecorded : ∀ c ∈ cameras, (recorded c.cameraAlias).Pairwise fun r s => Disjoint (during r) (during s))
    (hplays : Plays listRecordings recorded windows cameras) :
    (∃ listed : Camera → List RecordingSpan, sessionRecordings listRecordings windows cameras =
        .ok ((cameras.filter fun c => !(listed c).isEmpty).map fun c => ⟨c.cameraAlias, listed c⟩) ∧
      ∀ c ∈ cameras, Covers (recorded c.cameraAlias) windows (listed c)) ∧
    ∀ start ended, ((parts start ended).length : ℤ) = max 0 ⌈((ended - start : ℤ) : ℚ) / maxPart⌉ := by
  obtain ⟨listed, hout, hlisted⟩ := sessionRecordings_listed hplays
  refine ⟨⟨listed, hout, fun c hc => ?_⟩, parts_length⟩
  exact covers_of_perm hwindows (hrecorded c hc) (hlisted c hc).1 (hlisted c hc).2

/-- A camera. -/
def cam1 : Camera := ⟨"cam1", "239.1.1.1", 5000, none, true⟩

/-- The playback server where each camera has recorded `seconds` from the instant 0. -/
def recordedFor (seconds : ℕ) : String → ℤ → ℤ → Except String (List Item) := fun _ _ _ => .ok [⟨0, seconds⟩]

theorem span_recorded (seconds : ℕ) : Item.span ⟨0, seconds⟩ = ((0, seconds * 1000000) : Window) := by
  have hmicros : pyRound ((seconds * 1000000 : ℤ) : ℚ) = seconds * 1000000 := Rounding.pyRound_intCast _
  push_cast at hmicros
  simp [Item.span, hmicros]

theorem plays_recordedFor (seconds : ℕ) (now : ℤ) (h : now = seconds * 1000000) :
    Plays (recordedFor seconds) (fun _ => [(0, now)]) [(0, now)] [cam1] := by
  intro camera _ w hw
  rw [List.mem_singleton.mp hw, h]
  refine ⟨_, rfl, ?_⟩
  rw [Answers, List.map_singleton, span_recorded]
  rfl

theorem parts_cover_long :
    (∃ listed : Camera → List RecordingSpan, sessionRecordings (recordedFor 1500) [(0, 1500000000)] [cam1] =
        .ok (([cam1].filter fun c => !(listed c).isEmpty).map fun c => ⟨c.cameraAlias, listed c⟩) ∧
      ∀ c ∈ [cam1], Covers [(0, 1500000000)] [(0, 1500000000)] (listed c)) ∧
    ∀ start ended, ((parts start ended).length : ℤ) = max 0 ⌈((ended - start : ℤ) : ℚ) / maxPart⌉ :=
  parts_cover_recorded (List.pairwise_singleton _ _) (fun _ _ => List.pairwise_singleton _ _)
    (plays_recordedFor 1500 1500000000 (by norm_num))

theorem ended_of_mem (hp : p ∈ parts a b) : p.ended = (min (p.start + maxPart) b : ℤ) := by
  induction a, b using parts_induction with
  | stop a b _ heq => simp [heq] at hp
  | pass a b c hac hle hcb hlast heq ih =>
    rw [heq] at hp
    rcases List.mem_cons.mp hp with rfl | hp
    · rw [ended_mk]
      exact congrArg Int.cast (by omega : c = min (a + maxPart) b)
    · exact ih hp

/-- Where a stretch has grown, each of its parts starts where it did. -/
theorem exists_grown_part (hp : p ∈ parts a b) {b' : ℤ} (hbb' : b ≤ b') :
    ∃ q ∈ parts a b', q.start = p.start := by
  induction a, b using parts_induction with
  | stop a b _ heq => simp [heq] at hp
  | pass a b c hac hle hcb hlast heq ih =>
    rw [heq] at hp
    rw [parts_of_lt (hac.trans_le (hcb.trans hbb'))]
    rcases List.mem_cons.mp hp with rfl | hp
    · exact ⟨_, List.mem_cons_self, rfl⟩
    · have hlt : c < b := by
        obtain ⟨hstart, hended⟩ := parts_bounds hp
        have hpos := p.start_lt_ended (parts_sized hp).1
        exact_mod_cast (Int.cast_le.mpr hstart).trans_lt (hpos.trans_le hended)
      obtain ⟨q, hq, hstart⟩ := ih hp hbb'
      rw [min_eq_left (by have := hlast hlt; omega), ← hlast hlt]
      exact ⟨q, List.mem_cons_of_mem _ hq, hstart⟩

theorem Plays.mem_spans (h : Plays listRecordings recorded windows cameras) {out : List CameraRecording}
    (hout : sessionRecordings listRecordings windows cameras = .ok out) {r : CameraRecording} (hr : r ∈ out)
    (hp : p ∈ r.spans) : p ∈ recordedParts (recorded r.cameraAlias) windows := by
  obtain ⟨listed, heq, hlisted⟩ := sessionRecordings_listed h
  rw [heq, Except.ok.injEq] at hout
  rw [← hout] at hr
  obtain ⟨c, hc, rfl⟩ := List.mem_map.mp hr
  exact (hlisted c (List.mem_filter.mp hc).1).1.subset hp

/-- A recorded part near enough to the one asked for is found. -/
theorem Plays.isListedPart (h : Plays listRecordings recorded windows cameras) {camera : Camera}
    (hcamera : camera ∈ cameras) (hp : p ∈ recordedParts (recorded camera.cameraAlias) windows) {start : ℤ}
    {durationS : ℚ} (hpart : isPart start durationS p = true) :
    isListedPart listRecordings windows cameras camera.cameraAlias start durationS = .ok true := by
  have hplays : Plays listRecordings recorded windows (cameras.filter (·.cameraAlias = camera.cameraAlias)) :=
    fun c hc => h c (List.mem_filter.mp hc).1
  obtain ⟨listed, hout, hlisted⟩ := sessionRecordings_listed hplays
  have hfilter : camera ∈ cameras.filter (·.cameraAlias = camera.cameraAlias) :=
    List.mem_filter.mpr ⟨hcamera, decide_eq_true rfl⟩
  have hmem : p ∈ listed camera := (hlisted camera hfilter).1.symm.subset hp
  rw [Recordings.isListedPart, hout]
  refine congrArg Except.ok (List.any_eq_true.mpr ⟨⟨camera.cameraAlias, listed camera⟩, ?_, ?_⟩)
  · exact List.mem_map.mpr ⟨camera, List.mem_filter.mpr ⟨hfilter, by simp [List.ne_nil_of_mem hmem]⟩, rfl⟩
  · exact List.any_eq_true.mpr ⟨p, hmem, hpart⟩

private theorem isPart_of_ended {q : RecordingSpan} (hstart : q.start = p.start) (hle : p.ended ≤ q.ended)
    (hlt : q.ended < p.ended + 1000) : isPart p.start p.durationS q = true := by
  simp only [RecordingSpan.ended, hstart] at hle hlt
  have habs : |q.durationS - p.durationS| < 1 / 1000 := abs_lt.mpr ⟨by linarith, by linarith⟩
  simpa [isPart, hstart] using habs

theorem listed_part_accepted {now₁ now₂ : ℤ} {intervals₁ intervals₂ : List RecordingInterval}
    {listRecordings₁ listRecordings₂ : String → ℤ → ℤ → Except Unreachable (List Item)}
    {recorded₁ recorded₂ : String → List Window} {cameras₁ cameras₂ : List Camera} {out : List CameraRecording}
    (hplays₁ : Plays listRecordings₁ recorded₁ (recordedWindows now₁ intervals₁) cameras₁)
    (hplays₂ : Plays listRecordings₂ recorded₂ (recordedWindows now₂ intervals₂) cameras₂)
    (hgrown : ∀ i ∈ intervals₁, ∃ j ∈ intervals₂, Grown now₁ now₂ i j)
    (hheld : ∀ cameraAlias, ∀ s ∈ recorded₁ cameraAlias, ∃ t ∈ recorded₂ cameraAlias, t.1 = s.1 ∧ s.2 ≤ t.2)
    (hout : sessionRecordings listRecordings₁ (recordedWindows now₁ intervals₁) cameras₁ = .ok out)
    {r : CameraRecording} (hr : r ∈ out) (hp : p ∈ r.spans) (hcamera : r.cameraAlias ∈ cameras₂.map (·.cameraAlias))
    (hend : p.durationS = 600 ∨ ∀ s ∈ recorded₂ r.cameraAlias, ∀ w ∈ recordedWindows now₂ intervals₂,
      (p.start : ℚ) ∈ during s → (p.start : ℚ) ∈ during w → ((min s.2 w.2 : ℤ) : ℚ) < p.ended + 1000) :
    isListedPart listRecordings₂ (recordedWindows now₂ intervals₂) cameras₂ r.cameraAlias p.start p.durationS =
      .ok true := by
  obtain ⟨w, hw, s, hs, hp⟩ := mem_recordedParts.mp (hplays₁.mem_spans hout hr hp)
  obtain ⟨i, hi, rfl⟩ := List.mem_map.mp hw
  obtain ⟨j, hj, hstart, hended⟩ := hgrown i hi
  obtain ⟨t, ht, hts, hst⟩ := hheld r.cameraAlias s hs
  obtain ⟨camera, hmem, halias⟩ := List.mem_map.mp hcamera
  -- the same stretch as it is later: it starts where it did and ends no earlier
  let v : Window := (j.startedAt, j.endedAt.getD now₂)
  have hv : v ∈ recordedWindows now₂ intervals₂ := List.mem_map.mpr ⟨j, hj, rfl⟩
  have hfirst : (cut v t).1 = (cut (i.startedAt, i.endedAt.getD now₁) s).1 := by simp only [v, cut, hts, hstart]
  have hlast : (cut (i.startedAt, i.endedAt.getD now₁) s).2 ≤ (cut v t).2 := min_le_min hst hended
  obtain ⟨q, hq, hqp⟩ := exists_grown_part hp hlast
  have hpe := ended_of_mem hp
  have hqe := ended_of_mem hq
  rw [hqp] at hqe
  have hle : p.ended ≤ q.ended := by
    rw [hpe, hqe]
    exact_mod_cast min_le_min_left _ hlast
  have hlt : q.ended < p.ended + 1000 := by
    rcases hend with hfull | hend
    · have hfull : p.ended = (p.start + maxPart : ℤ) := by norm_num [RecordingSpan.ended, hfull, maxPart]
      rw [hqe, hfull]
      exact_mod_cast (min_le_left _ _).trans_lt (lt_add_of_pos_right _ (by norm_num))
    · have hin : (p.start : ℚ) ∈ during t ∩ during v := by
        rw [← during_cut, during, hfirst]
        have hpos := p.start_lt_ended (parts_sized hp).1
        exact ⟨by exact_mod_cast (parts_bounds hp).1, hpos.trans_le ((parts_bounds hp).2.trans (by exact_mod_cast hlast))⟩
      refine lt_of_le_of_lt ?_ (hend t ht v hv hin.1 hin.2)
      rw [hqe]
      exact_mod_cast min_le_right _ _
  rw [← halias] at ht ⊢
  exact hplays₂.isListedPart hmem (mem_recordedParts.mpr ⟨v, hv, t, ht, hfirst ▸ hq⟩) (isPart_of_ended hqp hle hlt)

/-- A session recording since the instant 0. -/
def sinceStart : List RecordingInterval := [⟨0, none⟩]

theorem sessionRecordings_recordedFor (seconds : ℕ) (hpos : 0 < seconds) (hle : seconds ≤ 600) (now : ℤ)
    (hnow : now = seconds * 1000000) :
    sessionRecordings (recordedFor seconds) [(0, now)] [cam1] = .ok [⟨"cam1", [⟨0, seconds⟩]⟩] := by
  have hparts : parts 0 now = [⟨0, seconds⟩] := by
    rw [parts_of_lt (by omega), min_eq_right (by simp only [maxPart]; omega), parts_of_le (le_refl now), hnow]
    norm_num
  have hcut : cut (0, now) (Item.span ⟨0, seconds⟩) = (0, now) := by
    rw [span_recorded, hnow]
    simp [cut]
  simp [sessionRecordings, cameraSpans, recordedFor, bind, Except.bind, pure, Except.pure, hcut, hparts, cam1]

theorem full_part_accepted :
    isListedPart (recordedFor 700) (recordedWindows 700000000 sinceStart) [cam1] "cam1" 0 600 = .ok true :=
  listed_part_accepted (p := ⟨0, 600⟩) (r := ⟨"cam1", [⟨0, 600⟩]⟩)
    (plays_recordedFor 600 600000000 (by norm_num)) (plays_recordedFor 700 700000000 (by norm_num))
    (fun i hi => ⟨i, hi, Sessions.grown_self (by norm_num) i⟩) (fun _ s hs => ⟨(0, 700000000), by simp, by simp_all⟩)
    (sessionRecordings_recordedFor 600 (by norm_num) (by norm_num) _ (by norm_num)) List.mem_cons_self
    List.mem_cons_self (by simp [cam1]) (.inl rfl)

/-- What was listed of a recording in progress is not once it has grown. -/
theorem open_part_refused :
    sessionRecordings (recordedFor 30) (recordedWindows 30000000 sinceStart) [cam1] = .ok [⟨"cam1", [⟨0, 30⟩]⟩] ∧
      (∀ i ∈ sinceStart, ∃ j ∈ sinceStart, Grown 30000000 60000000 i j) ∧
      Plays (recordedFor 30) (fun _ => [(0, 30000000)]) (recordedWindows 30000000 sinceStart) [cam1] ∧
      Plays (recordedFor 60) (fun _ => [(0, 60000000)]) (recordedWindows 60000000 sinceStart) [cam1] ∧
      isListedPart (recordedFor 60) (recordedWindows 60000000 sinceStart) [cam1] "cam1" 0 30 = .ok false := by
  have hlater := sessionRecordings_recordedFor 60 (by norm_num) (by norm_num) 60000000 (by norm_num)
  refine ⟨sessionRecordings_recordedFor 30 (by norm_num) (by norm_num) _ (by norm_num),
    fun i hi => ⟨i, hi, Sessions.grown_self (by norm_num) i⟩, plays_recordedFor 30 _ (by norm_num),
    plays_recordedFor 60 _ (by norm_num), ?_⟩
  have hother : isPart 0 30 ⟨0, ((60 : ℕ) : ℚ)⟩ = false := by norm_num [isPart]
  change (do
    let out ← sessionRecordings (recordedFor 60) [(0, 60000000)] [cam1]
    return out.any fun recording => recording.spans.any (isPart 0 30)) = .ok false
  rw [hlater]
  simpa [bind, Except.bind, pure, Except.pure] using hother

end Kanat.Recordings
