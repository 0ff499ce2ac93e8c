import Kanat.StreamGaps
import Mathlib.Data.List.Chain

/-! # The times a Stream gives the frames it receives

A grab says what a frame is placed and timed from and what it leaves for the next. Read off the frames received, these
anchors are the invariant, `Timely`, and the clock of each frame follows from them. -/
namespace Kanat.LiveStream
open GridLedger (Accounted accounted_start)

/-- What a frame is timed by: the wall clock it was read at, its timestamp's step from its origin, or its advance
on the last frame a timestamp timed. -/
inductive Clock where
  | wall
  | stepped
  | resumed
  deriving DecidableEq

def Placement.clock (p : Placement) : Clock :=
  match p.step, p.span with
  | _, none => .wall
  | some _, some _ => .stepped
  | none, some _ => .resumed

/-- A frame received, its time and the wall clock it was read at. -/
structure Timed where
  index : ℕ
  time : ℚ
  now : ℚ
  clock : Clock
  deriving DecidableEq

section
variable (stride baselineFrames : ℕ)

/-- The frame a grab receives, if any. -/
def Reader.times (s : Reader) : Grab → List Timed
  | .failed => []
  | .grabbed pos now decodes =>
    let p := (s.place pos now).1
    match (s.grab stride baselineFrames (.grabbed pos now decodes)).2 with
    | .dropped => []
    | .passed index => [⟨index, p.time, now, p.clock⟩]
    | .offered frame => [⟨frame.index, frame.time, now, p.clock⟩]

/-- The reader, and the frames received in order. -/
structure Times where
  reader : Reader
  frames : List Timed

def Times.opened (pos arrived : ℚ) : Times := ⟨LiveStream.opened pos arrived, [⟨0, arrived, arrived, .wall⟩]⟩

def Times.grab (h : Times) (g : Grab) : Times :=
  ⟨(h.reader.grab stride baselineFrames g).1, h.frames ++ h.reader.times stride baselineFrames g⟩

def Times.run (h : Times) (grabs : List Grab) : Times := grabs.foldl (Times.grab stride baselineFrames) h

end

/-- The wall clock of a grab that brought a frame. -/
def Grab.now : Grab → Option ℚ
  | .failed => none
  | .grabbed _ now _ => some now

/-- The wall clock never goes back. -/
def Clocked (arrived : ℚ) (grabs : List Grab) : Prop := (arrived :: grabs.filterMap Grab.now).Pairwise (· ≤ ·)

instance {arrived : ℚ} {grabs : List Grab} : Decidable (Clocked arrived grabs) :=
  inferInstanceAs (Decidable (List.Pairwise _ _))

variable {stride baselineFrames : ℕ}

namespace Reader
variable (s : Reader) (pos now : ℚ)

/-- What a frame is placed and timed from, and what it leaves for the next. -/
inductive Placing (s : Reader) (pos now : ℚ) : Placement × Reader → Prop where
  | untimed {p : Placement} {s' : Reader} (ht : p.time = now) (hc : p.clock = .wall) (ho : s'.origin = none)
      (hu : s'.trusted = s.trusted) : Placing s pos now (p, s')
  | afresh {p : Placement} {s' : Reader} {placed : ℕ} (ht : p.time = now) (hc : p.clock = .wall)
      (ho : s'.origin = some ⟨pos, placed, now⟩) (hp : s'.pos = pos) (hu : s'.trusted = s.trusted) :
      Placing s pos now (p, s')
  | resumed {p : Placement} {s' : Reader} {trusted : Anchor} {placed : ℕ} (hs : s.origin = none) (hd : s.down = false)
      (hf : s.trusted = some trusted) (ht : trusted.time < p.time) (hc : p.clock = .resumed)
      (ho : s'.origin = some ⟨pos, placed, p.time⟩) (hp : s'.pos = pos)
      (hu : s'.trusted = some ⟨pos, placed, p.time⟩) : Placing s pos now (p, s')
  | stepped {p : Placement} {s' : Reader} {origin : Anchor} {placed : ℕ} (hs : s.origin = some origin)
      (hp : s.pos < pos) (ht : p.time = origin.time + (pos - origin.pos) / 1000) (hc : p.clock = .stepped)
      (ho : s'.origin = some origin) (hp : s'.pos = pos) (hu : s'.trusted = some ⟨pos, placed, p.time⟩) :
      Placing s pos now (p, s')

theorem untimed_placing : s.Placing pos now (s.untimed pos now) := .untimed rfl rfl rfl rfl

private theorem resume_placing (hs : s.origin = none) : s.Placing pos now (s.resume pos now) := by
  have afresh : s.Placing pos now (⟨s.index + 1 + s.missed now, now, none, none⟩,
      { s with pos, origin := some ⟨pos, s.index + 1 + s.missed now, now⟩ }) := .afresh rfl rfl rfl rfl rfl
  simp only [resume]
  split
  · exact afresh
  next trusted ht =>
    split at ht
    next => cases ht
    next hd =>
      split
      next hp =>
        have hlt : trusted.time < trusted.time + (pos - trusted.pos) / 1000 :=
          lt_add_of_pos_right _ (div_pos hp (by norm_num))
        exact .resumed hs (by simpa using hd) ht hlt rfl rfl rfl rfl
      next => exact afresh

private theorem place_placing : s.Placing pos now (s.place pos now) := by
  simp only [place]
  split
  next hs =>
    split
    · exact s.resume_placing pos now hs
    · exact s.untimed_placing pos now
  next origin hs =>
    split
    · exact s.untimed_placing pos now
    next hp => exact .stepped hs (by linarith) rfl rfl hs rfl rfl

/-- A grab brings a frame placed, or none, and the Stream starts a new session. -/
inductive Brings (s : Reader) : Reader → List Timed → Prop where
  | none {s' : Reader} (ho : s'.origin = none) (hu : s'.trusted = none) (hd : s'.down = true) : Brings s s' []
  | frame {s' : Reader} {p : Placement} {placed : Reader} (pos now : ℚ) (h : s.Placing pos now (p, placed))
      (ho : s'.origin = placed.origin) (hp : s'.pos = placed.pos) (hu : s'.trusted = placed.trusted)
      (hd : s'.down = false) : Brings s s' [⟨p.placed, p.time, now, p.clock⟩]

variable (stride baselineFrames) in
private theorem receive_anchors (placed : ℕ) :
    (s.receive stride baselineFrames placed now).origin = s.origin ∧
      (s.receive stride baselineFrames placed now).pos = s.pos ∧
      (s.receive stride baselineFrames placed now).trusted = s.trusted ∧
      (s.receive stride baselineFrames placed now).down = false := by
  simp only [receive]
  split
  · exact ⟨rfl, rfl, rfl, rfl⟩
  next hd => exact ⟨rfl, rfl, rfl, by simpa using hd⟩

variable (stride baselineFrames) in
private theorem grab_brings (g : Grab) :
    s.Brings (s.grab stride baselineFrames g).1 (s.times stride baselineFrames g) := by
  cases g with
  | failed => exact .none rfl rfl rfl
  | grabbed pos now decodes =>
    have hp := s.place_placing pos now
    simp only [times, grab]
    generalize s.place pos now = placement at hp
    obtain ⟨p, s₁⟩ := placement
    simp only
    obtain ⟨s₂, he, ho, hpos, hu⟩ : ∃ s₂ : Reader, (if !s₁.down && s₁.index + 1 < p.placed then
        s₁.lostUpstream stride baselineFrames p.placed now else s₁) = s₂ ∧ s₂.origin = s₁.origin ∧
        s₂.pos = s₁.pos ∧ s₂.trusted = s₁.trusted := by
      refine ⟨_, rfl, ?_⟩
      split <;> exact ⟨rfl, rfl, rfl⟩
    rw [he]
    obtain ⟨hro, hrp, hru, hrd⟩ := s₂.receive_anchors stride baselineFrames now p.placed
    by_cases hl : Persistence.lookedAt (if s₂.offered < baselineFrames then s₂.offered else p.placed) stride
        baselineFrames
    · simp only [hl, if_true]
      cases decodes with
      | true => exact .frame pos now hp (hro.trans ho) (hrp.trans hpos) (hru.trans hu) hrd
      | false => exact .none rfl rfl rfl
    · simp only [hl]
      exact .frame pos now hp (hro.trans ho) (hrp.trans hpos) (hru.trans hu) hrd

end Reader

/-- What a frame's time owes to the frame before it. -/
def Timed.Follows (a b : Timed) : Prop :=
  match b.clock with
  | .wall => True
  | .stepped => a.time < b.time
  | .resumed => a.clock = .wall

/-- A frame resumed is later than the last its timestamp timed. -/
def Timed.Advances (a b : Timed) : Prop := b.clock = .resumed → a.time < b.time

namespace Times

/-- The frames a timestamp timed, in order. -/
def streamed (h : Times) : List Timed := h.frames.filter fun f => f.clock ≠ .wall

/-- The next frame's anchors, read off the frames received: the last is at `pos`, and `trusted` is the last a
timestamp timed. -/
structure Timely (h : Times) : Prop where
  last : ∃ last, h.frames.getLast? = some last ∧
    (∀ o, h.reader.origin = some o → last.time = o.time + (h.reader.pos - o.pos) / 1000) ∧
    (h.reader.origin = none → h.reader.down = false → last.clock = .wall)
  trusted : ∀ t, h.reader.trusted = some t → ∃ f, h.streamed.getLast? = some f ∧ f.time = t.time
  wall : ∀ f ∈ h.frames, f.clock = .wall → f.time = f.now
  follows : h.frames.IsChain Timed.Follows
  advances : h.streamed.IsChain Timed.Advances

private theorem opened_timely (pos arrived : ℚ) : (Times.opened pos arrived).Timely where
  last := by
    refine ⟨_, rfl, fun o ho => ?_, fun ho => by cases ho⟩
    cases ho
    show arrived = arrived + (pos - pos) / 1000
    simp
  trusted t ht := by cases ht
  wall f hf _ := by rw [List.mem_singleton.mp hf]
  follows := .singleton _
  advances := .nil

theorem streamed_concat (h : Times) (s' : Reader) (f : Timed) :
    Times.streamed ⟨s', h.frames ++ [f]⟩ = h.streamed ++ if f.clock = .wall then [] else [f] := by
  show (h.frames ++ [f]).filter _ = _
  rw [List.filter_append, List.filter_singleton]
  by_cases hw : f.clock = .wall
  · simp [hw, streamed]
  · simp [hw, streamed]

/-- One frame more, which leaves its anchors behind. -/
theorem Timely.concat {h : Times} {s' : Reader} {f : Timed} (ht : h.Timely)
    (ho : ∀ o, s'.origin = some o → f.time = o.time + (s'.pos - o.pos) / 1000)
    (hn : s'.origin = none → s'.down = false → f.clock = .wall)
    (hu : (f.clock = .wall ∧ s'.trusted = h.reader.trusted) ∨
      (f.clock ≠ .wall ∧ ∀ t, s'.trusted = some t → f.time = t.time))
    (hw : f.clock = .wall → f.time = f.now) (hf : ∀ last, h.frames.getLast? = some last → last.Follows f)
    (ha : f.clock = .resumed → ∃ t, h.reader.trusted = some t ∧ t.time < f.time) :
    Timely ⟨s', h.frames ++ [f]⟩ where
  last := ⟨f, List.getLast?_concat, ho, hn⟩
  trusted t htr := by
    rw [streamed_concat]
    rcases hu with ⟨hc, hs⟩ | ⟨hc, hs⟩
    · rw [if_pos hc, List.append_nil]
      exact ht.trusted t (hs.symm.trans htr)
    · rw [if_neg hc]
      exact ⟨f, List.getLast?_concat, hs t htr⟩
  wall g hg hc := by
    rcases List.mem_append.mp hg with hg | hg
    · exact ht.wall g hg hc
    · cases List.mem_singleton.mp hg
      exact hw hc
  follows := by
    refine ht.follows.append (.singleton f) fun last hl g hg => ?_
    cases hg
    exact hf last hl
  advances := by
    rw [streamed_concat]
    split
    · rw [List.append_nil]
      exact ht.advances
    · refine ht.advances.append (.singleton f) fun last hl g hg hc => ?_
      cases hg
      obtain ⟨t, htr, hlt⟩ := ha hc
      obtain ⟨last', hl', he⟩ := ht.trusted t htr
      cases hl'.symm.trans hl
      exact he.trans_lt hlt

theorem Timely.grab {h : Times} (ht : h.Timely) (g : Grab) : (h.grab stride baselineFrames g).Timely := by
  have hb := h.reader.grab_brings stride baselineFrames g
  rw [Times.grab]
  generalize (h.reader.grab stride baselineFrames g).1 = s' at hb
  generalize h.reader.times stride baselineFrames g = frames at hb
  obtain ⟨last, hl, hlo, hlw⟩ := ht.last
  cases hb with
  | none ho hu hd =>
    rw [List.append_nil]
    exact {
      last := ⟨last, hl, fun o h => (by cases ho.symm.trans h), fun _ h => (by cases hd.symm.trans h)⟩
      trusted := fun t h => (by cases hu.symm.trans h)
      wall := ht.wall
      follows := ht.follows
      advances := ht.advances }
  | @frame p placed pos now hp ho hpos hu hd =>
    cases hp with
    | untimed htime hc hpo hpu =>
      refine ht.concat ?_ (fun _ _ => hc) (.inl ⟨hc, hu.trans hpu⟩) (fun _ => htime) (fun last _ => ?_) fun h => ?_
      · intro o h
        cases (ho.trans hpo).symm.trans h
      · rw [Timed.Follows, hc]
        exact trivial
      · cases hc.symm.trans h
    | afresh htime hc hpo hpp hpu =>
      refine ht.concat ?_ (fun _ _ => hc) (.inl ⟨hc, hu.trans hpu⟩) (fun _ => htime) (fun last _ => ?_) fun h => ?_
      · intro o h
        cases (ho.trans hpo).symm.trans h
        rw [hpos, hpp, sub_self, zero_div, add_zero]
        exact htime
      · rw [Timed.Follows, hc]
        exact trivial
      · cases hc.symm.trans h
    | resumed hs hsd hf htime hc hpo hpp hpu =>
      have hcw : p.clock ≠ .wall := by simp [hc]
      refine ht.concat ?_ (fun h => ?_) (.inr ⟨hcw, fun t h => ?_⟩) (fun h => absurd h hcw) (fun last' h => ?_)
        fun _ => ⟨_, hf, htime⟩
      · intro o h
        cases (ho.trans hpo).symm.trans h
        rw [hpos, hpp, sub_self, zero_div, add_zero]
      · cases (ho.trans hpo).symm.trans h
      · cases (hu.trans hpu).symm.trans h
        rfl
      · cases hl.symm.trans h
        rw [Timed.Follows, hc]
        exact hlw hs hsd
    | stepped hs hp htime hc hpo hpp hpu =>
      have hcw : p.clock ≠ .wall := by simp [hc]
      refine ht.concat ?_ (fun h => ?_) (.inr ⟨hcw, fun t h => ?_⟩) (fun h => absurd h hcw) (fun last' h => ?_)
        fun h => ?_
      · intro o h
        cases (ho.trans hpo).symm.trans h
        rw [hpos, hpp]
        exact htime
      · cases (ho.trans hpo).symm.trans h
      · cases (hu.trans hpu).symm.trans h
        rfl
      · cases hl.symm.trans h
        rw [Timed.Follows, hc]
        show last.time < p.time
        rw [hlo _ hs, htime]
        linarith
      · cases hc.symm.trans h

theorem Timely.run {h : Times} (ht : h.Timely) (grabs : List Grab) : (h.run stride baselineFrames grabs).Timely := by
  induction grabs generalizing h with
  | nil => exact ht
  | cons g grabs ih => exact ih (ht.grab g)

variable (stride baselineFrames)

private theorem times_received (s : Reader) (g : Grab) :
    (s.times stride baselineFrames g).map (·.index) = (s.grab stride baselineFrames g).2.received := by
  cases g with
  | failed => rfl
  | grabbed pos now decodes =>
    rw [Reader.times]
    cases (s.grab stride baselineFrames (.grabbed pos now decodes)).2 <;> rfl

private theorem times_now (s : Reader) (g : Grab) :
    ((s.times stride baselineFrames g).map (·.now)).Sublist g.now.toList := by
  cases g with
  | failed => exact .slnil
  | grabbed pos now decodes =>
    rw [Reader.times]
    cases (s.grab stride baselineFrames (.grabbed pos now decodes)).2 with
    | dropped => exact List.nil_sublist _
    | passed index => exact List.Sublist.refl _
    | offered frame => exact List.Sublist.refl _

/-- The frames timed are the frames received. -/
theorem run_received (grabs : List Grab) {h : Times} {h' : History} (hr : h.reader = h'.reader)
    (hi : h.frames.map (·.index) = h'.received) :
    (h.run stride baselineFrames grabs).frames.map (·.index) = (h'.run stride baselineFrames grabs).received := by
  induction grabs generalizing h h' with
  | nil => exact hi
  | cons g grabs ih =>
    refine ih ?_ ?_
    · show (h.reader.grab stride baselineFrames g).1 = (h'.reader.grab stride baselineFrames g).1
      rw [hr]
    · show (h.frames ++ h.reader.times stride baselineFrames g).map (·.index) =
        h'.received ++ (h'.reader.grab stride baselineFrames g).2.received
      rw [List.map_append, hi, times_received, hr]

private theorem run_now (grabs : List Grab) {h : Times} {nows : List ℚ} (hn : (h.frames.map (·.now)).Sublist nows) :
    ((h.run stride baselineFrames grabs).frames.map (·.now)).Sublist (nows ++ grabs.filterMap Grab.now) := by
  induction grabs generalizing h nows with
  | nil => exact (List.append_nil nows).symm ▸ hn
  | cons g grabs ih =>
    have hg : ((h.grab stride baselineFrames g).frames.map (·.now)).Sublist (nows ++ g.now.toList) := by
      show ((h.frames ++ h.reader.times stride baselineFrames g).map (·.now)).Sublist _
      rw [List.map_append]
      exact hn.append (times_now stride baselineFrames h.reader g)
    have hr : ((h.run stride baselineFrames (g :: grabs)).frames.map (·.now)).Sublist _ := ih hg
    cases hnow : g.now with
    | none =>
      rw [List.filterMap_cons_none hnow]
      simpa [hnow] using hr
    | some now =>
      rw [List.filterMap_cons_some hnow]
      simpa [hnow] using hr

private theorem run_indices (pos arrived : ℚ) (grabs : List Grab) :
    (((Times.opened pos arrived).run stride baselineFrames grabs).frames.map (·.index)).Pairwise (· < ·) := by
  rw [run_received stride baselineFrames grabs (rfl : _ = (History.opened pos arrived).reader) rfl]
  exact (History.run_accounted grabs accounted_start).rises

/-- Frame times by their clock. -/
theorem times_by_clock (pos : ℚ) {arrived : ℚ} {grabs : List Grab} (hc : Clocked arrived grabs) :
    let h := (Times.opened pos arrived).run stride baselineFrames grabs
    (h.frames.map (·.index)).Pairwise (· < ·) ∧
      ((h.frames.filter fun f : Timed => f.clock = .wall).map (·.time)).Pairwise (· ≤ ·) ∧
      (∀ (before : List Timed) (a b : Timed) (after : List Timed), h.frames = before ++ a :: b :: after →
        b.clock = .stepped → a.time < b.time) ∧
      (∀ (before : List Timed) (a b : Timed) (after : List Timed),
        (h.frames.filter fun f : Timed => f.clock ≠ .wall) = before ++ a :: b :: after →
          b.clock = .resumed → a.time < b.time) ∧
      ∀ (before : List Timed) (a b : Timed) (after : List Timed), h.frames = before ++ a :: b :: after →
        a.time ≤ b.time ∨ (a.clock ≠ .wall ∧ b.clock = .wall) ∨ (a.clock = .wall ∧ b.clock = .resumed) := by
  intro h
  have ht : h.Timely := (opened_timely pos arrived).run grabs
  have hn : (h.frames.map (·.now)).Pairwise (· ≤ ·) :=
    hc.sublist (run_now stride baselineFrames grabs (List.Sublist.refl [arrived]))
  have hf := List.isChain_iff_forall_rel_of_append_cons_cons.mp ht.follows
  refine ⟨run_indices stride baselineFrames pos arrived grabs, ?_, ?_, ?_, ?_⟩
  · have hw : (h.frames.filter fun f => f.clock = .wall).map (·.time) =
        (h.frames.filter fun f => f.clock = .wall).map (·.now) := by
      refine List.map_congr_left fun f hf => ?_
      obtain ⟨hm, hc⟩ := List.mem_filter.mp hf
      exact ht.wall f hm (of_decide_eq_true hc)
    rw [hw]
    exact hn.sublist (List.filter_sublist.map _)
  · intro before a b after hl hb
    have hab := hf hl
    rwa [Timed.Follows, hb] at hab
  · intro before a b after hl hb
    exact List.isChain_iff_forall_rel_of_append_cons_cons.mp ht.advances hl hb
  · intro before a b after hl
    have hab := hf hl
    cases hb : b.clock with
    | stepped =>
      rw [Timed.Follows, hb] at hab
      exact .inl hab.le
    | resumed =>
      rw [Timed.Follows, hb] at hab
      exact .inr (.inr ⟨hab, rfl⟩)
    | wall =>
      by_cases ha : a.clock = .wall
      · have hma : a ∈ h.frames := hl ▸ by simp
        have hmb : b ∈ h.frames := hl ▸ by simp
        rw [hl, List.map_append, List.map_cons, List.map_cons] at hn
        have hle := (List.pairwise_cons.mp (List.pairwise_append.mp hn).2.1).1 b.now List.mem_cons_self
        rw [ht.wall a hma ha, ht.wall b hmb hb]
        exact .inl hle
      · exact .inr (.inl ⟨ha, rfl⟩)

/-- A backlog read faster than its timestamps run, and frame 2's a repeat of frame 1's: timed when it was read. -/
def repeated : List Grab := [.grabbed 40 (2 / 1000) true, .grabbed 40 (4 / 1000) true]

theorem times_by_clock_repeated :
    let h := (Times.opened 0 0).run 1 1 repeated
    (h.frames.map (·.index)).Pairwise (· < ·) ∧
      ((h.frames.filter fun f : Timed => f.clock = .wall).map (·.time)).Pairwise (· ≤ ·) ∧
      ∀ (before : List Timed) (a b : Timed) (after : List Timed), h.frames = before ++ a :: b :: after →
        (b.clock = .stepped → a.time < b.time) ∧
          (a.time ≤ b.time ∨ (a.clock ≠ .wall ∧ b.clock = .wall) ∨ (a.clock = .wall ∧ b.clock = .resumed)) := by
  intro h
  obtain ⟨hindices, hwall, hstepped, -, hnext⟩ := times_by_clock 1 1 0 (by decide +kernel : Clocked 0 repeated)
  exact ⟨hindices, hwall, fun before a b after hframes => ⟨hstepped before a b after hframes, hnext before a b after hframes⟩⟩

/-- A frame received later is timed earlier. -/
theorem times_repeated : ¬ ∀ (stride baselineFrames : ℕ) (pos arrived : ℚ) (grabs : List Grab),
    Clocked arrived grabs →
      (((Times.opened pos arrived).run stride baselineFrames grabs).frames.map (·.time)).Pairwise (· ≤ ·) := by
  intro h
  exact absurd (h 1 1 0 0 repeated (by decide +kernel)) (by decide +kernel)

end Times
end Kanat.LiveStream
