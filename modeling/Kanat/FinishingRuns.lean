import Kanat.Announcements

/-! # A live Run that finishes

`process` over a live Run's Looks, the flag `finish` sets and the loop's own `stop`. A `stop` from outside only
ends a run earlier. -/
namespace Kanat.Announcer
open Persistence

variable {box : ℕ}

/-- A Look read from the Stream, due frames its thread found unseen, or a call of `finish` from any thread. -/
inductive Turn (box : ℕ) where
  | look (index : ℕ) (pts : Option (List (Detection box))) (corroborating : List (Detection box))
  | miss (indices : List ℕ)
  | finish

structure Process (box : ℕ) where
  live : Live box := {}
  finishing : Bool := false
  stopped : Bool := false

/-- Is a Candidate waiting for Change Evidence whose window has not passed? -/
def Live.holding (P : Settings) (live : Live box) (looked : ℕ) : Bool :=
  live.waiting.any fun h => looked + 1 < h.hole.firstFrame + P.window

section
variable (P : Settings) (require : Bool) (view : View) (wallClock : ℕ → ℤ)

namespace Process

def step (s : Process box) : Turn box → Process box
  | .look index pts corroborating =>
    -- a stopped Stream gives no more frames
    if s.stopped then s
    else
      let live := s.live.look P require view wallClock ⟨index, pts, !s.finishing, corroborating⟩
      { s with
        live
        stopped := s.finishing && live.persistence.openIds.isEmpty && !live.holding P index }
  | .miss indices => { s with live := s.live.step P require view wallClock (.miss indices) }
  | .finish => { s with finishing := true }

def run (s : Process box) (turns : List (Turn box)) : Process box := turns.foldl (step P require view wallClock) s

/-- The last frame of the last window of the Candidates open or waiting. -/
def deadline (s : Process box) : ℕ :=
  (s.live.persistence.openIds.map (s.live.persistence.windowEnd P) ++
    s.live.waiting.map fun h => h.hole.firstFrame + P.window).toFinset.sup id

end Process

/-- Every window of a Candidate open or waiting ends by `m`. -/
structure Live.Within (live : Live box) (m : ℕ) : Prop where
  opened : ∀ id ∈ live.persistence.openIds, live.persistence.windowEnd P id ≤ m
  waiting : ∀ h ∈ live.waiting, h.hole.firstFrame + P.window ≤ m

/-- No Candidate more, and none open that was not. -/
structure Live.Closing (live live' : Live box) : Prop where
  candidates : live'.persistence.candidates.length = live.persistence.candidates.length
  opened : ∀ id ∈ live'.persistence.openIds, id ∈ live.persistence.openIds

end

section
variable {P : Settings} {s : State box}

theorem foldOne_length (idx : ℕ) (matchPx : ℚ) (closed : Finset ℕ) (cs : List (Candidate box)) (p : Detection box) :
    (foldOne idx matchPx false closed cs p).length = cs.length := by
  unfold foldOne
  cases findMatch cs p matchPx closed with
  | none => rfl
  | some k => exact List.length_modify ..

private theorem fold_length (idx : ℕ) (matchPx : ℚ) (closed : Finset ℕ) (cs : List (Candidate box))
    (pts : List (Detection box)) : (fold cs idx pts matchPx false closed).length = cs.length := by
  induction pts generalizing cs with
  | nil => rfl
  | cons p pts ih => exact (ih _).trans (foldOne_length idx matchPx closed cs p)

/-- A Look of a Run that finishes opens no Candidate. -/
theorem register_closing (index : ℕ) (pts : Option (List (Detection box))) :
    (s.register P index pts false).candidates.length = s.candidates.length ∧
      (s.register P index pts false).openIds = s.openIds := by
  have hlen : (s.register P index pts false).candidates.length = s.candidates.length := by
    cases pts with
    | none => rfl
    | some pts => exact fold_length index P.matchPx s.closed s.candidates pts
  refine ⟨hlen, ?_⟩
  rw [register_openIds, hlen, Nat.sub_self, List.range'_zero, List.append_nil]

theorem register_windowEnd (index : ℕ) (pts : Option (List (Detection box))) {id : ℕ} (h : id < s.candidates.length) :
    (s.register P index pts false).windowEnd P id = s.windowEnd P id :=
  congrArg (· + P.window) ((grown_register P s index pts false).firstIdx_old id h)

theorem newlyPersisted_windowEnd {q : ℕ} {look : Option ℕ} {gathered : List (List (Detection box))} {x : Sighted box}
    (hx : x ∈ newlyPersisted s (s.judgeDue P q look).1 gathered) :
    x.candidate ∈ s.openIds ∧ x.hole.firstFrame + P.window = s.windowEnd P x.candidate := by
  obtain ⟨hid, hole, hverdict, -, hf⟩ := newlyPersisted_verdict hx
  exact ⟨hid, by rw [hf, verdict_firstFrame hverdict]; rfl⟩

theorem judgeDue_openIds_subset (s : State box) (q : ℕ) (look : Option ℕ) {id : ℕ}
    (h : id ∈ (s.judgeDue P q look).1.openIds) : id ∈ s.openIds := ((mem_judgeDue_openIds P s q look).mp h).1

end

section
variable (P : Settings) (require : Bool) (view : View) (wallClock : ℕ → ℤ) {live : Live box}

theorem announce_waiting {persisted : List (Sighted box)} {corroborating : List (Detection box)} {h : Sighted box}
    (hh : h ∈ (live.announce P require view wallClock persisted corroborating).waiting) :
    h ∈ live.waiting ∨ h ∈ persisted := by
  obtain ⟨⟨h, seen⟩, hmem, rfl⟩ := List.mem_map.mp hh
  rcases List.mem_append.mp (List.mem_filter.mp hmem).1 with hmem | hmem
  · obtain ⟨x, hx, heq⟩ := List.mem_map.mp hmem
    cases heq
    exact .inl hx
  · obtain ⟨x, hx, heq⟩ := List.mem_map.mp hmem
    cases heq
    exact .inr hx

/-- A Look of a Run that finishes: what is open was, past this Look, and what waits did or was open. -/
structure Live.Judged (live live' : Live box) (index : ℕ) : Prop extends live.Closing live' where
  windowEnd : ∀ id ∈ live.persistence.openIds, live'.persistence.windowEnd P id = live.persistence.windowEnd P id
  inside : ∀ id ∈ live'.persistence.openIds, index + 1 < live'.persistence.windowEnd P id
  waiting : ∀ h ∈ live'.waiting, h ∈ live.waiting ∨
    h.candidate ∈ live.persistence.openIds ∧ h.hole.firstFrame + P.window = live.persistence.windowEnd P h.candidate

theorem look_judged (ha : Apart live.persistence) (index : ℕ) (pts : Option (List (Detection box)))
    (corroborating : List (Detection box)) :
    live.Judged P (live.look P require view wallClock ⟨index, pts, false, corroborating⟩) index := by
  let judged := (live.persistence.judgeDue P index (some index)).1
  let folded := judged.register P index pts false
  obtain ⟨hlen, hopen⟩ : folded.candidates.length = judged.candidates.length ∧ folded.openIds = judged.openIds :=
    register_closing index pts
  have hfrom : ∀ id ∈ folded.openIds, id ∈ live.persistence.openIds := by
    intro id hid
    exact judgeDue_openIds_subset live.persistence index (some index) (hopen ▸ hid)
  have hend : ∀ id ∈ live.persistence.openIds, folded.windowEnd P id = live.persistence.windowEnd P id :=
    fun id hid => register_windowEnd (s := judged) index pts (ha.below id (.inl hid))
  refine ⟨⟨hlen, fun id hid => hfrom id (judgeDue_openIds_subset folded (index + 1) none hid)⟩, hend,
    fun id hid => ?_, fun h hh => ?_⟩
  · exact ((mem_judgeDue_openIds P folded (index + 1) none).mp hid).2.2
  · rcases announce_waiting P require view wallClock hh with hw | hp
    · exact .inl hw
    · rcases List.mem_append.mp hp with hp | hp
      · exact .inr (newlyPersisted_windowEnd hp)
      · obtain ⟨hid, he⟩ := newlyPersisted_windowEnd hp
        exact .inr ⟨hfrom _ hid, he.trans (hend _ (hfrom _ hid))⟩

theorem Live.Judged.within {live' : Live box} {index m : ℕ} (h : live.Judged P live' index) (hm : live.Within P m) :
    live'.Within P m where
  opened id hid := (h.windowEnd id (h.opened id hid)).trans_le (hm.opened id (h.opened id hid))
  waiting x hx := by
    rcases h.waiting x hx with hw | ⟨ho, he⟩
    · exact hm.waiting x hw
    · exact he.trans_le (hm.opened _ ho)

/-- Nothing is left to look on for once every window has ended. -/
theorem Live.Judged.done {live' : Live box} {index m : ℕ} (h : live.Judged P live' index) (hm : live.Within P m)
    (hi : m ≤ index + 1) : live'.persistence.openIds = [] ∧ live'.holding P index = false := by
  have hm' := h.within P hm
  refine ⟨List.eq_nil_iff_forall_not_mem.mpr fun id hid => ?_, ?_⟩
  · exact absurd (h.inside id hid) (not_lt.mpr ((hm'.opened id hid).trans hi))
  · refine List.any_eq_false.mpr fun x hx => ?_
    simpa using (hm'.waiting x hx).trans hi

namespace Process

variable {P require view wallClock}

private theorem within_deadline (s : Process box) : s.live.Within P (s.deadline P) where
  opened i hi := by
    have hm : s.live.persistence.windowEnd P i ∈ s.live.persistence.openIds.map (s.live.persistence.windowEnd P) :=
      List.mem_map_of_mem hi
    exact Finset.le_sup (f := id) (List.mem_toFinset.mpr (List.mem_append_left _ hm))
  waiting h hh := by
    have hm : h.hole.firstFrame + P.window ∈ s.live.waiting.map fun h => h.hole.firstFrame + P.window :=
      List.mem_map_of_mem hh
    exact Finset.le_sup (f := id) (List.mem_toFinset.mpr (List.mem_append_right _ hm))

/-- What a Run that finishes keeps of the moment it began to: `live` then. -/
structure Ending (P : Settings) (live : Live box) (s : Process box) : Prop where
  kept : Kept s.live
  finishing : s.finishing
  closing : live.Closing s.live
  within : ∀ m, live.Within P m → s.live.Within P m

theorem Ending.step {s : Process box} (h : s.Ending P live) (t : Turn box) :
    (s.step P require view wallClock t).Ending P live := by
  cases t with
  | look index pts corroborating =>
    rw [Process.step]
    split
    · exact h
    · rw [h.finishing]
      have hj := look_judged P require view wallClock h.kept.apart index pts corroborating
      exact {
        kept := kept_look h.kept _
        finishing := rfl
        closing := ⟨hj.candidates.trans h.closing.candidates, fun id hid => h.closing.opened id (hj.opened id hid)⟩
        within := fun m hm => hj.within P (h.within m hm) }
  | miss indices =>
    have hk : Kept (s.live.step P require view wallClock (.miss indices)) := kept_step h.kept _
    exact ⟨hk, h.finishing, ⟨h.closing.candidates, h.closing.opened⟩,
      fun m hm => ⟨(h.within m hm).opened, (h.within m hm).waiting⟩⟩
  | finish => exact ⟨h.kept, rfl, h.closing, h.within⟩

theorem Ending.run {s : Process box} (turns : List (Turn box)) (h : s.Ending P live) :
    (s.run P require view wallClock turns).Ending P live := by
  induction turns generalizing s with
  | nil => exact h
  | cons t turns ih => exact ih (h.step t)

/-- What the loop feeds Persistence and the announcer is a live Run's events. -/
theorem run_live {s : Process box} (turns : List (Turn box)) {events : List (Event box)}
    (h : s.live = Announcer.run P require view wallClock events) :
    ∃ events', (s.run P require view wallClock turns).live = Announcer.run P require view wallClock events' := by
  induction turns generalizing s events with
  | nil => exact ⟨events, h⟩
  | cons t turns ih =>
    have hnext : ∀ e, s.live.step P require view wallClock e = Announcer.run P require view wallClock (events ++ [e]) := by
      intro e
      rw [h, Announcer.run, Announcer.run, List.foldl_concat]
    show ∃ events', (Process.run P require view wallClock (s.step P require view wallClock t) turns).live = _
    cases t with
    | look index pts corroborating =>
      rw [Process.step]
      split
      · exact ih h
      · exact ih (hnext (.look ⟨index, pts, !s.finishing, corroborating⟩))
    | miss indices => exact ih (hnext (.miss indices))
    | finish => exact ih (s := { s with finishing := true }) h

/-- Past the deadline, a Look stops the Run, if none did before. -/
theorem Ending.stops {s : Process box} (h : s.Ending P live) {index m : ℕ} (hm : live.Within P m) (hi : m ≤ index + 1)
    (pts : Option (List (Detection box))) (corroborating : List (Detection box)) :
    (s.step P require view wallClock (.look index pts corroborating)).stopped := by
  rw [Process.step]
  split
  next hs => exact hs
  next =>
    obtain ⟨ho, hw⟩ := (look_judged P require view wallClock h.kept.apart index pts corroborating).done P
      (h.within m hm) hi
    rw [h.finishing]
    show (true && List.isEmpty _ && !Live.holding P _ index) = true
    rw [Bool.not_true, ho, hw]
    rfl

/-- The loop's own `stop`, at a Look that leaves nothing to look on for. -/
theorem stop_done {s : Process box} {t : Turn box} (hs : s.stopped = false)
    (h : (s.step P require view wallClock t).stopped) :
    s.finishing ∧ ∃ index pts corroborating, t = .look index pts corroborating ∧
      (s.step P require view wallClock t).live.persistence.openIds = [] ∧
      ∀ x ∈ (s.step P require view wallClock t).live.waiting, x.hole.firstFrame + P.window ≤ index + 1 := by
  cases t with
  | look index pts corroborating =>
    rw [Process.step, hs, if_neg Bool.false_ne_true] at h ⊢
    obtain ⟨h, hw⟩ := Bool.and_eq_true_iff.mp h
    obtain ⟨hf, ho⟩ := Bool.and_eq_true_iff.mp h
    refine ⟨hf, index, pts, corroborating, rfl, List.isEmpty_iff.mp ho, fun x hx => ?_⟩
    have hx' := List.any_eq_false.mp ((Bool.not_eq_true' _).mp hw) x hx
    simpa using hx'
  | miss indices => cases hs.symm.trans h
  | finish => cases hs.symm.trans h

theorem run_concat (s : Process box) (turns : List (Turn box)) (t : Turn box) :
    s.run P require view wallClock (turns ++ [t]) = (s.run P require view wallClock turns).step P require view wallClock t :=
  List.foldl_concat ..

end Process

/-- Once it finishes, a live Run opens no Candidate, stops by the last frame of the last window open or waiting then,
and stops at no Look before its Candidates are judged and those waiting past their windows. -/
theorem finishing_bounded (before : List (Turn box)) :
    let run := Process.run P require view wallClock {}
    let s := run (before ++ [Turn.finish])
    (∀ after : List (Turn box), s.live.Closing (run (before ++ [Turn.finish] ++ after)).live) ∧
      (∀ (after : List (Turn box)) index pts corroborating, s.deadline P ≤ index + 1 →
        (run (before ++ [Turn.finish] ++ after ++ [Turn.look index pts corroborating])).stopped) ∧
      ∀ (turns : List (Turn box)) (t : Turn box), (run turns).stopped = false → (run (turns ++ [t])).stopped →
        (run turns).finishing ∧ ∃ index pts corroborating, t = .look index pts corroborating ∧
          (run (turns ++ [t])).live.persistence.openIds = [] ∧
          ∀ h ∈ (run (turns ++ [t])).live.waiting, h.hole.firstFrame + P.window ≤ index + 1 := by
  intro run s
  have he : ∀ after, (run (before ++ [Turn.finish] ++ after)).Ending P s.live := by
    intro after
    have hs : s.Ending P s.live := by
      have h₀ : ({} : Process box).live = Announcer.run P require view wallClock [] := rfl
      obtain ⟨events, hlive⟩ : ∃ events, s.live = Announcer.run P require view wallClock events :=
        Process.run_live (before ++ [Turn.finish]) h₀
      refine ⟨hlive ▸ kept_run events, ?_, ⟨rfl, fun _ h => h⟩, fun _ h => h⟩
      show (Process.run P require view wallClock {} (before ++ [Turn.finish])).finishing
      rw [Process.run_concat]
      rfl
    show Process.Ending P s.live (Process.run P require view wallClock {} (before ++ [Turn.finish] ++ after))
    rw [Process.run, List.foldl_append]
    exact hs.run after
  refine ⟨fun after => (he after).closing, fun after index pts corroborating hi => ?_, fun turns t hs h => ?_⟩
  · show (Process.run P require view wallClock {} _).stopped
    rw [Process.run_concat]
    exact (he after).stops s.within_deadline hi pts corroborating
  · show _ ∧ ∃ index pts corroborating, _ ∧
      (Process.run P require view wallClock {} (turns ++ [t])).live.persistence.openIds = [] ∧
      ∀ h ∈ (Process.run P require view wallClock {} (turns ++ [t])).live.waiting, _
    rw [Process.run_concat]
    have h : (Process.run P require view wallClock {} (turns ++ [t])).stopped := h
    rw [Process.run_concat] at h
    exact Process.stop_done hs h

end
end Kanat.Announcer
