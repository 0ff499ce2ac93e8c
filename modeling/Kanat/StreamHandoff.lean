import Kanat.StreamGaps

/-! # The reading thread hands its frames to the loop

`Stream._read` and `Stream.read`, a step a critical section; `stopped` is set from any thread, under no lock. -/
namespace Kanat.LiveStream
open scoped List

/-- Where the reading thread is. -/
inductive Thread where
  | checking
  | grabbing
  | offering (frame : Frame)
  | ending
  | ended
  deriving DecidableEq

/-- Where the loop is: between two reads, waiting in one, or past the one that returned None. -/
inductive Loop where
  | idle
  | waiting
  | done
  deriving DecidableEq

structure Limits where
  wanted : ℕ
  stride : ℕ
  baselineFrames : ℕ

/-- A Stream that was started: the frames taken, dropped late and discarded are kept whole, and every frame offered. -/
structure Stream where
  reader : Reader
  thread : Thread
  loop : Loop
  stopped : Bool
  ended : Bool
  dropping : Bool
  watching : Bool
  held : Option Frame
  index : ℕ
  taken : List Frame
  late : List Frame
  discarded : List Frame
  offers : List Frame
  deriving DecidableEq

def started (pos arrived : ℚ) : Stream where
  reader := opened pos arrived
  thread := .checking
  loop := .idle
  stopped := false
  ended := false
  dropping := false
  watching := false
  held := none
  index := 0
  taken := []
  late := []
  discarded := []
  offers := []

inductive Event where
  | check
  | grab (g : Grab)
  | raised
  | offer
  | finish
  | ask
  | wake
  | stop
  deriving DecidableEq

namespace Stream

/-- A frame put in the slot: the one it replaces is late, or is dropped by a stop in the baseline. -/
def offer (s : Stream) (frame : Frame) : Stream :=
  let s := match s.held with
    | none => s
    | some old => if s.dropping then { s with late := s.late ++ [old] } else { s with discarded := s.discarded ++ [old] }
  { s with thread := .checking, held := some frame, offers := s.offers ++ [frame] }

/-- `read` in its critical section: it waits for a frame, the thread's end or a stop. -/
def attempt (s : Stream) : Stream :=
  match s.held with
  | none => if s.ended || s.stopped then { s with loop := .done } else { s with loop := .waiting }
  | some frame =>
    if s.stopped then { s with loop := .done }
    else { s with loop := .idle, held := none, index := frame.index, taken := s.taken ++ [frame] }

/-- Asked for a frame past the baseline's last, frame 0 its first, lateness starts. -/
def asked (s : Stream) (baselineFrames : ℕ) : Stream :=
  let dropping := decide (baselineFrames - 1 ≤ s.taken.length)
  { s with dropping, watching := s.watching || dropping }

def passed (s : Stream) : ℕ := s.index + 1

def step (c : Limits) (s : Stream) : Event → Option Stream
  | .check =>
    if s.thread = .checking then some { s with thread := if s.stopped then .ending else .grabbing } else none
  | .grab g =>
    if s.thread = .grabbing then
      let (reader, outcome) := s.reader.grab c.stride c.baselineFrames g
      some { s with
        reader
        thread := match outcome with
          | .offered frame => .offering frame
          | _ => .checking }
    else none
  | .raised => if s.thread = .grabbing then some { s with thread := .ending } else none
  | .offer =>
    match s.thread with
    | .offering frame => if s.held.isSome && !(s.dropping || s.stopped) then none else some (s.offer frame)
    | _ => none
  | .finish => if s.thread = .ending then some { s with thread := .ended, ended := true } else none
  | .ask =>
    if s.loop = .idle then
      if c.wanted ≤ s.passed then some { s with loop := .done } else some (s.asked c.baselineFrames).attempt
    else none
  | .wake => if s.loop = .waiting then some s.attempt else none
  | .stop => some { s with stopped := true }

def run (c : Limits) (s : Stream) : List Event → Option Stream
  | [] => some s
  | e :: events => (s.step c e).bind fun s' => run c s' events

end Stream

section
variable {α : Type} {offers taken late discarded : List α} {old new : α}

/-- What left a slot was taken, in the order it came, or replaced. -/
def Split (offers taken late discarded : List α) (held : Option α) : Prop :=
  ∃ past, offers = past ++ held.toList ∧ past.Perm (taken ++ late ++ discarded) ∧ taken.Sublist past

theorem Split.put (h : Split offers taken late discarded none) :
    Split (offers ++ [new]) taken late discarded (some new) := by
  obtain ⟨past, rfl, hp, hs⟩ := h
  exact ⟨past, by simp, hp, hs⟩

theorem Split.put_late (h : Split offers taken late discarded (some old)) :
    Split (offers ++ [new]) taken (late ++ [old]) discarded (some new) := by
  obtain ⟨past, rfl, hp, hs⟩ := h
  refine ⟨past ++ [old], rfl, ?_, hs.trans (List.sublist_append_left _ _)⟩
  calc past ++ [old] ~ (taken ++ late ++ discarded) ++ [old] := hp.append_right _
    _ ~ (taken ++ late) ++ ([old] ++ discarded) := by
      rw [List.append_assoc]
      exact List.perm_append_comm.append_left _
    _ = taken ++ (late ++ [old]) ++ discarded := by simp

theorem Split.put_discarding (h : Split offers taken late discarded (some old)) :
    Split (offers ++ [new]) taken late (discarded ++ [old]) (some new) := by
  obtain ⟨past, rfl, hp, hs⟩ := h
  refine ⟨past ++ [old], rfl, ?_, hs.trans (List.sublist_append_left _ _)⟩
  rw [← List.append_assoc]
  exact hp.append_right _

theorem Split.take (h : Split offers taken late discarded (some old)) :
    Split offers (taken ++ [old]) late discarded none := by
  obtain ⟨past, rfl, hp, hs⟩ := h
  refine ⟨past ++ [old], by simp, ?_, hs.append_right _⟩
  calc past ++ [old] ~ (taken ++ late ++ discarded) ++ [old] := hp.append_right _
    _ = taken ++ ((late ++ discarded) ++ [old]) := by simp
    _ ~ taken ++ ([old] ++ (late ++ discarded)) := List.perm_append_comm.append_left _
    _ = taken ++ [old] ++ late ++ discarded := by simp

theorem Split.perm {held : Option α} (h : Split offers taken late discarded held) :
    offers.Perm (taken ++ late ++ discarded ++ held.toList) := by
  obtain ⟨past, rfl, hp, -⟩ := h
  exact hp.append_right _

theorem Split.sublist {held : Option α} (h : Split offers taken late discarded held) : taken.Sublist offers := by
  obtain ⟨past, rfl, -, hs⟩ := h
  exact hs.trans (List.sublist_append_left _ _)

/-- While nothing was replaced the frames are taken as they were offered. -/
theorem Split.all {held : Option α} (h : Split offers taken [] [] held) : offers = taken ++ held.toList := by
  obtain ⟨past, rfl, hp, hs⟩ := h
  simp only [List.append_nil] at hp
  rw [hs.eq_of_length hp.length_eq.symm]

end

namespace Stream
variable {c : Limits}

/-- Every frame the loop was offered came before the reader's last, and one in hand after them all. -/
structure Rising (s : Stream) : Prop where
  rises : (s.offers.map (·.index)).Pairwise (· < ·)
  reached : ∀ frame ∈ s.offers, frame.index ≤ s.reader.index
  pending : ∀ frame, s.thread = .offering frame →
    frame.index = s.reader.index ∧ ∀ old ∈ s.offers, old.index < frame.index

/-- The frames taken up to the baseline's last are the first offered. -/
structure Handed (c : Limits) (s : Stream) : Prop where
  split : Split s.offers s.taken s.late s.discarded s.held
  early : s.dropping = false → s.late = []
  stopped : s.discarded ≠ [] → s.stopped
  asked : s.dropping → s.watching
  past : s.dropping → c.baselineFrames - 1 ≤ s.taken.length
  first : s.taken.take (c.baselineFrames - 1) <+: s.offers

private theorem started_rising (pos arrived : ℚ) : (started pos arrived).Rising where
  rises := List.Pairwise.nil
  reached := by simp [started]
  pending := by simp [started]

private theorem started_handed (pos arrived : ℚ) : (started pos arrived).Handed c where
  split := ⟨[], rfl, .refl _, .refl _⟩
  early := fun _ => rfl
  stopped := by simp [started]
  asked := by simp [started]
  past := by simp [started]
  first := by simp [started]

theorem offer_offers (s : Stream) (frame : Frame) : (s.offer frame).offers = s.offers ++ [frame] := by
  simp only [offer]
  split
  · rfl
  · split <;> rfl

private theorem offer_reader (s : Stream) (frame : Frame) : (s.offer frame).reader = s.reader := by
  simp only [offer]
  split
  · rfl
  · split <;> rfl

/-- A read moves no frame but the one it takes. -/
theorem attempt_frame (s : Stream) :
    s.attempt.offers = s.offers ∧ s.attempt.reader = s.reader ∧ s.attempt.thread = s.thread := by
  simp only [attempt]
  split <;> split <;> exact ⟨rfl, rfl, rfl⟩

/-- Leaving a point that offers nothing keeps the frames in order. -/
theorem Rising.of_idle {s s' : Stream} (h : s.Rising) (ho : s'.offers = s.offers) (hr : s'.reader = s.reader)
    (ht : ∀ frame, s'.thread ≠ .offering frame) : s'.Rising where
  rises := ho ▸ h.rises
  reached := by rw [ho, hr]; exact h.reached
  pending := fun frame hf => absurd hf (ht frame)

theorem Rising.of_same {s s' : Stream} (h : s.Rising) (ho : s'.offers = s.offers) (hr : s'.reader = s.reader)
    (ht : s'.thread = s.thread) : s'.Rising where
  rises := ho ▸ h.rises
  reached := by rw [ho, hr]; exact h.reached
  pending := by rw [ho, hr, ht]; exact h.pending

theorem Rising.grab {s : Stream} (h : s.Rising) {r : Reader × Outcome}
    (hg : s.reader.Grabbed c.stride c.baselineFrames r) {s' : Stream} (ho : s'.offers = s.offers)
    (hr : s'.reader = r.1)
    (ht : s'.thread = match r.2 with
      | .offered frame => .offering frame
      | _ => .checking) : s'.Rising := by
  have hle : s.reader.index ≤ s'.reader.index := by
    rw [hr]
    cases hg with
    | dropped hi _ => exact hi
    | passed he hi _ _ => exact he ▸ hi.le
    | offered he hi _ => exact he ▸ hi.le
  refine ⟨ho ▸ h.rises, fun frame hf => (h.reached frame (ho ▸ hf)).trans hle, ?_⟩
  intro frame hf
  rw [ht] at hf
  cases hg with
  | dropped hi _ => cases hf
  | passed he hi _ _ => cases hf
  | offered he hi _ =>
    obtain rfl := Thread.offering.inj hf
    refine ⟨by rw [hr]; exact he.symm, fun old hold => ?_⟩
    exact lt_of_le_of_lt (h.reached old (ho ▸ hold)) hi

theorem Rising.offer {s : Stream} (h : s.Rising) {frame : Frame} (hf : s.thread = .offering frame) :
    (s.offer frame).Rising := by
  obtain ⟨hi, hlt⟩ := h.pending frame hf
  refine ⟨?_, ?_, nofun⟩
  · rw [offer_offers, List.map_append]
    refine GridLedger.pairwise_lt_concat h.rises ?_
    intro j hj
    obtain ⟨old, hold, rfl⟩ := List.mem_map.mp hj
    exact hlt old hold
  · rw [offer_offers, offer_reader]
    intro f hm
    rcases List.mem_append.mp hm with hm | hm
    · exact h.reached f hm
    · rw [List.mem_singleton.mp hm, hi]

private theorem step_rising {s s' : Stream} {e : Event} (hs : s.step c e = some s') (h : s.Rising) : s'.Rising := by
  cases e with
  | check =>
    obtain ⟨-, rfl⟩ := Option.ite_some_none_eq_some.mp hs
    refine h.of_idle rfl rfl ?_
    intro frame
    cases s.stopped <;> nofun
  | grab g =>
    obtain ⟨-, rfl⟩ := Option.ite_some_none_eq_some.mp hs
    exact h.grab (s.reader.grab_grabbed g) rfl rfl rfl
  | raised =>
    obtain ⟨-, rfl⟩ := Option.ite_some_none_eq_some.mp hs
    exact h.of_idle rfl rfl nofun
  | offer =>
    simp only [step] at hs
    split at hs
    next frame hf =>
      split at hs
      · cases hs
      · obtain rfl := Option.some.inj hs
        exact h.offer hf
    next => cases hs
  | finish =>
    obtain ⟨-, rfl⟩ := Option.ite_some_none_eq_some.mp hs
    exact h.of_idle rfl rfl nofun
  | ask =>
    obtain ⟨-, hs⟩ := Option.ite_none_right_eq_some.mp hs
    split at hs
    · obtain rfl := Option.some.inj hs
      exact h.of_same rfl rfl rfl
    · obtain rfl := Option.some.inj hs
      obtain ⟨ho, hr, ht⟩ := attempt_frame (s.asked c.baselineFrames)
      exact h.of_same ho hr ht
  | wake =>
    obtain ⟨-, rfl⟩ := Option.ite_some_none_eq_some.mp hs
    obtain ⟨ho, hr, ht⟩ := s.attempt_frame
    exact h.of_same ho hr ht
  | stop =>
    obtain rfl := Option.some.inj hs
    exact h.of_same rfl rfl rfl

/-- What is neither slot nor lists leaves the handoff as it was. -/
theorem Handed.of_same {s s' : Stream} (h : s.Handed c) (ho : s'.offers = s.offers) (hh : s'.held = s.held)
    (ht : s'.taken = s.taken) (hl : s'.late = s.late) (hd : s'.discarded = s.discarded)
    (hs : s.stopped → s'.stopped) (hg : s'.dropping = s.dropping) (hw : s'.watching = s.watching) :
    s'.Handed c where
  split := by rw [ho, ht, hl, hd, hh]; exact h.split
  early := by rw [hg, hl]; exact h.early
  stopped := fun hne => hs (h.stopped (hd ▸ hne))
  asked := by rw [hg, hw]; exact h.asked
  past := by rw [hg, ht]; exact h.past
  first := by rw [ht, ho]; exact h.first

theorem Handed.offer {s : Stream} (h : s.Handed c) (frame : Frame)
    (hopen : ¬ (s.held.isSome && !(s.dropping || s.stopped))) : (s.offer frame).Handed c := by
  have hf : s.taken.take (c.baselineFrames - 1) <+: s.offers ++ [frame] :=
    h.first.trans (List.prefix_append _ _)
  simp only [Stream.offer]
  cases hh : s.held with
  | none => exact ⟨(hh ▸ h.split).put, h.early, h.stopped, h.asked, h.past, hf⟩
  | some old =>
    have hsplit := h.split
    rw [hh] at hsplit
    cases hd : s.dropping with
    | true => exact ⟨hsplit.put_late, nofun, h.stopped, fun _ => h.asked hd, fun _ => h.past hd, hf⟩
    | false =>
      have hstop : s.stopped = true := by simpa [hh, hd] using hopen
      exact ⟨hsplit.put_discarding, fun _ => h.early hd, fun _ => hstop, nofun, nofun, hf⟩

/-- Until the baseline's last frame is taken nothing offered was replaced. -/
theorem Handed.taken_first {s : Stream} (h : s.Handed c) {frame : Frame} (hh : s.held = some frame)
    (hs : s.stopped = false) : (s.taken ++ [frame]).take (c.baselineFrames - 1) <+: s.offers := by
  have hdisc : s.discarded = [] := by
    by_contra hne
    exact absurd (h.stopped hne) (by simp [hs])
  cases hd : s.dropping with
  | true =>
    rw [List.take_append_of_le_length (h.past hd)]
    exact h.first
  | false =>
    have hsplit := h.split
    rw [h.early hd, hdisc, hh] at hsplit
    rw [hsplit.all]
    exact List.take_prefix _ _

theorem Handed.attempt {s : Stream} (h : s.Handed c) : s.attempt.Handed c := by
  cases hh : s.held with
  | none =>
    simp only [Stream.attempt, hh]
    split <;> exact h.of_same rfl hh.symm rfl rfl rfl id rfl rfl
  | some frame =>
    simp only [Stream.attempt, hh]
    split
    next hs => exact h.of_same rfl hh.symm rfl rfl rfl (fun _ => hs) rfl rfl
    next hs =>
      have hs : s.stopped = false := by simpa using hs
      refine ⟨(hh ▸ h.split).take, h.early, h.stopped, h.asked, fun hd => ?_, h.taken_first hh hs⟩
      have := h.past hd
      rw [List.length_append]
      omega

theorem asked_dropping {s : Stream} {baselineFrames : ℕ} :
    (s.asked baselineFrames).dropping ↔ baselineFrames - 1 ≤ s.taken.length := decide_eq_true_iff

theorem Handed.asks {s : Stream} (h : s.Handed c) : (s.asked c.baselineFrames).Handed c where
  split := h.split
  early := by
    intro hd
    refine h.early (Bool.eq_false_iff.mpr fun hg => ?_)
    exact absurd (asked_dropping.mpr (h.past hg)) (by simp [hd])
  stopped := h.stopped
  asked := fun hd => Bool.or_eq_true_iff.mpr (Or.inr hd)
  past := asked_dropping.mp
  first := h.first

private theorem step_handed {s s' : Stream} {e : Event} (hs : s.step c e = some s') (h : s.Handed c) : s'.Handed c := by
  cases e with
  | check =>
    obtain ⟨-, rfl⟩ := Option.ite_some_none_eq_some.mp hs
    exact h.of_same rfl rfl rfl rfl rfl id rfl rfl
  | grab g =>
    obtain ⟨-, rfl⟩ := Option.ite_some_none_eq_some.mp hs
    exact h.of_same rfl rfl rfl rfl rfl id rfl rfl
  | raised =>
    obtain ⟨-, rfl⟩ := Option.ite_some_none_eq_some.mp hs
    exact h.of_same rfl rfl rfl rfl rfl id rfl rfl
  | offer =>
    simp only [step] at hs
    split at hs
    next frame hf =>
      split at hs
      · cases hs
      next hopen =>
        obtain rfl := Option.some.inj hs
        exact h.offer frame hopen
    next => cases hs
  | finish =>
    obtain ⟨-, rfl⟩ := Option.ite_some_none_eq_some.mp hs
    exact h.of_same rfl rfl rfl rfl rfl id rfl rfl
  | ask =>
    obtain ⟨-, hs⟩ := Option.ite_none_right_eq_some.mp hs
    split at hs
    · obtain rfl := Option.some.inj hs
      exact h.of_same rfl rfl rfl rfl rfl id rfl rfl
    · obtain rfl := Option.some.inj hs
      exact h.asks.attempt
  | wake =>
    obtain ⟨-, rfl⟩ := Option.ite_some_none_eq_some.mp hs
    exact h.attempt
  | stop =>
    obtain rfl := Option.some.inj hs
    exact h.of_same rfl rfl rfl rfl rfl (fun _ => rfl) rfl rfl

private theorem run_handed {events : List Event} {s s' : Stream} (hr : s.run c events = some s') (hg : s.Rising)
    (h : s.Handed c) : s'.Rising ∧ s'.Handed c := by
  induction events generalizing s with
  | nil =>
    obtain rfl := Option.some.inj hr
    exact ⟨hg, h⟩
  | cons e events ih =>
    obtain ⟨t, ht, hr⟩ := Option.bind_eq_some_iff.mp hr
    exact ih hr (step_rising ht hg) (step_handed ht h)

/-- However the threads interleave and whenever the Stream stops: the loop takes frames in order, each offered is
taken, late, discarded by the stop or held, once, and none is replaced before the loop asks past the baseline. -/
theorem handoff_exactly_once {c : Limits} {pos arrived : ℚ} {events : List Event} {s : Stream}
    (hr : (started pos arrived).run c events = some s) :
    (s.taken.map (·.index)).Pairwise (· < ·) ∧ (s.offers.map (·.index)).Pairwise (· < ·) ∧
      s.offers.Perm (s.taken ++ s.late ++ s.discarded ++ s.held.toList) ∧
      (s.discarded ≠ [] → s.stopped) ∧ (s.watching = false → s.late = []) ∧
      s.taken.take (c.baselineFrames - 1) <+: s.offers := by
  obtain ⟨hg, h⟩ := run_handed hr (started_rising pos arrived) (started_handed pos arrived)
  refine ⟨hg.rises.sublist (h.split.sublist.map _), hg.rises, h.split.perm, h.stopped, fun hw => ?_, h.first⟩
  refine h.early (Bool.eq_false_iff.mpr fun hd => ?_)
  exact absurd (h.asked hd) (by simp [hw])

def lateRun : List Event :=
  [.check, .grab (.grabbed 40 1 true), .offer, .ask, .check, .grab (.grabbed 80 1 true), .offer, .ask,
    .check, .grab (.grabbed 120 2 true), .offer, .check, .grab (.grabbed 160 2 true), .offer, .stop, .check, .finish]

/-- The third frame is late, and the stop finds the fourth held. -/
theorem handoff_exactly_once_late : ∃ s : Stream, (started 0 0).run ⟨100, 1, 2⟩ lateRun = some s ∧
    s.late.map (·.index) = [3] ∧ s.held.map (·.index) = some 4 ∧
    s.offers.Perm (s.taken ++ s.late ++ s.discarded ++ s.held.toList) := by
  obtain ⟨s, hs⟩ := Option.isSome_iff_exists.mp
    (show ((started 0 0).run ⟨100, 1, 2⟩ lateRun).isSome by decide +kernel)
  have hrun : ∀ s ∈ (started 0 0).run ⟨100, 1, 2⟩ lateRun,
      s.late.map (·.index) = [3] ∧ s.held.map (·.index) = some 4 := by decide +kernel
  obtain ⟨hl, hh⟩ := hrun s hs
  exact ⟨s, hs, hl, hh, (handoff_exactly_once hs).2.2.1⟩

end Stream
end Kanat.LiveStream
