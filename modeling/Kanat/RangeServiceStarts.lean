import Kanat.ConditionalRuns
import Kanat.RangeServiceStops

/-! # What starting a Range does to the packets of the one under way

How one start can go is a lemma, step by step, with what fails there. A service takes requests one after another, and
what it keeps of the Ranges under way holds while no Start meets another's. -/
namespace Kanat.RangeService
open ResumptionPrograms ScheduledPrograms
open ConditionalRuns (Each)

variable {Id Bpf Row : Type}

/-- Steps a start makes by the time the Range's row is written. -/
def Step.beforeMade : Step Id → Bool
  | .validateAndHydrate | .utcNow | .clearAllPackets _ | .newGuid | .add => true
  | _ => false

/-- What the request comes to after validation. -/
def Schedule.accepted (s : Schedule Id Bpf Row) (range : RangeDto Id Bpf) : Option Bpf :=
  (s.validated range).bind fun validated => validated.config.bind RangeConfig.bpfConfig

def stepsToMade (s : Schedule Id Bpf Row) : List (Step Id) :=
  [.validateAndHydrate, .utcNow] ++ clearSteps s ++ [.newGuid, .add]

variable [DecidableEq Id] {s : Schedule Id Bpf Row} {t : Tables Id Row} {w : World Id Bpf Row}
  {range : RangeDto Id Bpf}

theorem subscribe_run (config : Bpf) (p : Pipe) (w : World Id Bpf Row) :
    run (answer s) (perform (.subscribe p config) >>= Prog.ofExcept) w =
      (s.told (.subscribe p), w.afterAll s [.subscribe p]) :=
  run_ofExcept

private theorem startAsync_run (w : World Id Bpf Row) (config : Bpf) :
    ∃ r w', run (answer s) (Realtime.startAsync config) w = (r, w') ∧
      QuietSince s w.tables w'.tables ∧ w'.currentRange = w.currentRange := by
  obtain ⟨hw, _⟩ : _ ∧ _ := loop_run (s := s) (w := w) .subscribe pipes (subscribe_run config)
  rw [Realtime.startAsync, Prog.bind_eq, run_bind]
  generalize run (answer s) (pipes.forM fun p => perform (.subscribe p config) >>= Prog.ofExcept) w = r
    at hw
  obtain ⟨r, w'⟩ := r
  cases hw
  have hquiet : QuietSince s w.tables (w.afterAll s
      ((attempted (fun p => s.done (.subscribe p)) pipes).map .subscribe)).tables := by
    refine ⟨_, fun step hstep => ?_, rfl⟩
    obtain ⟨p, _, rfl⟩ := List.mem_map.mp hstep
    rfl
  cases r with
  | error e => exact ⟨_, _, rfl, hquiet, rfl⟩
  | ok u => exact ⟨_, _, rfl, hquiet.trans ⟨[.setIsActive], by simp [Step.quiet], rfl⟩, rfl⟩

/-- The row of a new Range. -/
def RangeDto.made (dto : RangeDto Id Bpf) (newGuid : Id) : RangeEntity Id where
  id := newGuid
  description := trim dto.description
  startTime := dto.startTime
  endTime := -1

theorem createRange_run (w : World Id Bpf Row) (dto : RangeDto Id Bpf) :
    run (answer s) (createRangeAsync dto) w = ((s.told .add).map fun _ => RangeMapper.toDto (dto.made s.newGuid),
      (answer s (w.afterAll s [.newGuid]) (.add (dto.made s.newGuid))).2) := by
  cases hadd : s.done .add with
  | false =>
    simp [createRangeAsync, perform, Prog.perform, answer, Prog.ofExcept, Schedule.told, hadd,
      Except.map]
    rfl
  | true =>
    simp [createRangeAsync, perform, Prog.perform, answer, Prog.ofExcept, Schedule.told, hadd,
      Except.map]
    exact ⟨rfl, rfl⟩

private theorem createRangeAsync_run (w : World Id Bpf Row) (dto : RangeDto Id Bpf) :
    ∃ r w', run (answer s) (createRangeAsync dto) w = (r, w') ∧
      w'.tables = w.tables.afterAll s [.newGuid, .add] ∧ w'.currentRange = w.currentRange ∧
      if s.done .add then ∃ created : RangeDto Id Bpf, r = .ok created ∧ created.id = s.newGuid
      else ∃ e, r = .error e := by
  refine ⟨_, _, createRange_run w dto, answer_tables .., ?_, ?_⟩
  · change (if s.executed .add then _ else _ : World Id Bpf Row).currentRange = _
    split <;> rfl
  · rw [Schedule.told]
    split
    · exact ⟨_, rfl, rfl⟩
    · exact ⟨_, rfl⟩

private theorem beginRange_run (w : World Id Bpf Row) (dto : RangeDto Id Bpf) (config : Bpf) :
    ∃ r w', run (answer s) (beginRange dto config) w = (r, w') ∧
      if s.done .add then QuietSince s (w.tables.afterAll s [.newGuid, .add]) w'.tables ∧
        ∃ created : RangeDto Id Bpf, created.id = s.newGuid ∧ w'.currentRange = some created ∧
          ∀ started, r = .ok started → started = created
      else (∃ e, r = .error e) ∧ w'.tables = w.tables.afterAll s [.newGuid, .add] ∧
        w'.currentRange = w.currentRange := by
  obtain ⟨r, w₁, hrun, htables, hcurrent, hr⟩ :=
    createRangeAsync_run (s := s) w dto
  rw [beginRange, Prog.bind_eq, run_bind, hrun]
  split at hr
  case isFalse h =>
    obtain ⟨e, rfl⟩ := hr
    exact ⟨_, _, rfl, by rw [if_neg h]; exact ⟨⟨e, rfl⟩, htables, hcurrent⟩⟩
  case isTrue h =>
    obtain ⟨made, rfl, hid⟩ := hr
    let created : RangeDto Id Bpf := { made with config := dto.config }
    obtain ⟨r', w', hrun', hquiet, hcurrent'⟩ := startAsync_run (s := s)
      (answer s w₁ (.setCurrentRange created)).2 config
    refine ⟨r'.map fun _ => created, w', ?_, ?_⟩
    · dsimp only
      rw [run_perform_bind, Prog.bind_eq, run_bind, hrun']
      cases r' with
      | ok u => rfl
      | error e => rfl
    · rw [if_pos h, ← htables]
      refine ⟨QuietSince.trans ⟨[.setCurrentRange], by simp [Step.quiet], rfl⟩ hquiet, created, hid,
        hcurrent', fun started hstarted => ?_⟩
      cases r' with
      | ok u => exact (Except.ok.inj hstarted).symm
      | error e => cases hstarted

theorem start_refused {range : RangeDto Id Bpf} (h : s.accepted range = none) :
    run (answer s) (startRealtimeRangeAsync range) w =
      (.error .validateAndHydrate, w.afterAll s [.validateAndHydrate]) := by
  cases hvalidated : s.validated range with
  | none =>
    simp [startRealtimeRangeAsync, perform, Prog.perform, answer, hvalidated, Prog.ofExcept]
    rfl
  | some validated =>
    have hbpf : validated.config.bind RangeConfig.bpfConfig = none := by
      rw [Schedule.accepted, hvalidated] at h
      exact h
    simp [startRealtimeRangeAsync, perform, Prog.perform, answer, hvalidated, Prog.ofExcept, hbpf]
    rfl

theorem start_accepted {range : RangeDto Id Bpf} {config : Bpf} (h : s.accepted range = some config) :
    ∃ dto : RangeDto Id Bpf, run (answer s) (startRealtimeRangeAsync range) w =
      run (answer s) (beginRange dto config)
        ((w.afterAll s [.validateAndHydrate, .utcNow]).afterAll s (clearSteps s)) := by
  obtain ⟨validated, hvalidated, hbpf⟩ := Option.bind_eq_some_iff.mp h
  refine ⟨{ validated with startTime := s.utcNow }, ?_⟩
  have hvalidate : run (answer s) (perform (.validateAndHydrate range) >>= Prog.ofExcept) w =
      (.ok validated, w.afterAll s [.validateAndHydrate]) := by
    simp [perform, Prog.perform, answer, hvalidated, Prog.ofExcept]
    rfl
  rw [startRealtimeRangeAsync, Prog.bind_eq, run_bind, hvalidate]
  dsimp only
  rw [hbpf]
  dsimp only
  rw [run_perform_bind, Prog.bind_eq, run_bind, clears_run]
  rfl

/-- How a start can go: refused, or at an end before the Range is made, or with the new Range
current whatever it answers. -/
theorem start_run (w : World Id Bpf Row) (range : RangeDto Id Bpf) :
    ∃ r w', run (answer s) (startRealtimeRangeAsync range) w = (r, w') ∧
      (s.accepted range = none ∧ (∃ e, r = .error e) ∧ QuietSince s w.tables w'.tables ∧
          w'.currentRange = w.currentRange ∨
        (s.accepted range).isSome ∧ s.done .add = false ∧ (∃ e, r = .error e) ∧
          w'.tables = w.tables.afterAll s (stepsToMade s) ∧ w'.currentRange = w.currentRange ∨
        (s.accepted range).isSome ∧ s.done .add ∧
          QuietSince s (w.tables.afterAll s (stepsToMade s)) w'.tables ∧
          ∃ created : RangeDto Id Bpf, created.id = s.newGuid ∧ w'.currentRange = some created ∧
            ∀ started, r = .ok started → started = created) := by
  cases haccepted : s.accepted range with
  | none =>
    exact ⟨_, _, start_refused haccepted,
      .inl ⟨rfl, ⟨_, rfl⟩, ⟨[.validateAndHydrate], by simp [Step.quiet], rfl⟩, rfl⟩⟩
  | some config =>
    obtain ⟨dto, hrun⟩ := start_accepted (w := w) haccepted
    let w₀ := (w.afterAll s [.validateAndHydrate, .utcNow]).afterAll s (clearSteps s)
    obtain ⟨r, w', hrun', hr⟩ := beginRange_run (s := s) w₀ dto config
    have htables : w₀.tables.afterAll s [.newGuid, .add] = w.tables.afterAll s (stepsToMade s) := by
      rw [stepsToMade, Tables.afterAll_append, Tables.afterAll_append]
      rfl
    rw [htables] at hr
    refine ⟨r, w', hrun.trans hrun', .inr ?_⟩
    split at hr
    case isTrue h => exact .inr ⟨rfl, h, hr⟩
    case isFalse h =>
      exact .inl ⟨rfl, Bool.eq_false_iff.mpr h, hr.1, hr.2.1, hr.2.2⟩

/-- The service between two requests; `underWay` are the Ranges started and not stopped. -/
structure Service (Id Bpf Row : Type) where
  world : World Id Bpf Row
  underWay : List Id

inductive Event (Id Bpf Row : Type) where
  | start (range : RangeDto Id Bpf) (s : Schedule Id Bpf Row)
  | stop (s : Schedule Id Bpf Row)
  | land (rows : Pipe → List Row)

namespace Service

def step (c : Service Id Bpf Row) : Event Id Bpf Row → Service Id Bpf Row
  | .start range s =>
      match run (answer s) (startRealtimeRangeAsync range) c.world with
      | (.ok started, w) => { world := w, underWay := started.id :: c.underWay }
      | (.error _, w) => { c with world := w }
  | .stop s =>
      match run (answer s) stopRealtimeRangeAsync c.world with
      | (.ok (some stopped), w) =>
          { world := w, underWay := c.underWay.filter (· ≠ stopped.id) }
      | (_, w) => { c with world := w }
  | .land rows => { c with world := { c.world with tables := c.world.tables.land rows } }

def run (c : Service Id Bpf Row) (events : List (Event Id Bpf Row)) : Service Id Bpf Row :=
  ConditionalRuns.run step c events

end Service

variable {c : Service Id Bpf Row} {rangeOf : Row → Id}

/-- No packet is captured for a Range before the Range is made. -/
def CapturedOnceMade (rangeOf : Row → Id) (c : Service Id Bpf Row) : Event Id Bpf Row → Prop
  | .start _ s => ∀ p,
      (∀ row ∈ c.world.tables.landed p, rangeOf row ≠ s.newGuid) ∧
      ∀ step : Step Id, step.beforeMade → ∀ row ∈ s.landing step p, rangeOf row ≠ s.newGuid
  | _ => True

/-- A start made while a Range is under way changes nothing: it is refused, or it can neither clear
a table nor write its row. -/
def StartsAlone (c : Service Id Bpf Row) : Event Id Bpf Row → Prop
  | .start range s =>
      c.underWay = [] ∨ s.accepted range = none ∨ (∀ p, ¬clears s p) ∧ s.done .add = false
  | _ => True

/-- A packet of a Range under way is taken out of a base table only if it is in that Range's own
session table. -/
def SparesUnderWay (rangeOf : Row → Id) (c : Service Id Bpf Row) : Prop :=
  ∀ p, ∀ row ∈ c.world.tables.removed p, rangeOf row ∈ c.underWay →
    ∃ rows ∈ c.world.tables.sessions (rangeOf row) p, row ∈ rows

/-- The record holds every row that is or was in a base table. -/
def Tables.Recorded (t : Tables Id Row) : Prop :=
  ∀ p row, row ∈ t.base p ∨ row ∈ t.removed p → row ∈ t.landed p

/-- Holds between any two requests of a service that starts its Ranges alone. -/
structure OneUnderWay (rangeOf : Row → Id) (c : Service Id Bpf Row) : Prop where
  current : ∀ id ∈ c.underWay, c.world.currentRange.map RangeDto.id = some id
  recorded : c.world.tables.Recorded
  spared : ∀ p, ∀ row ∈ c.world.tables.removed p, rangeOf row ∉ c.underWay

namespace Tables
variable {step : Step Id} {steps : List (Step Id)} {p : Pipe} {row : Row}

theorem mem_base_after (h : row ∈ (t.after s step).base p) :
    row ∈ t.base p ∨ row ∈ s.landing step p := by
  by_cases hstep : step = .clearAllPackets p
  · subst hstep
    cases hexec : s.executed (.clearAllPackets p) with
    | true =>
      rw [(truncated hexec).1] at h
      cases h
    | false =>
      rw [not_truncated hexec] at h
      exact List.mem_append.mp h
  · rw [base_after hstep] at h
    exact List.mem_append.mp h

theorem mem_removed_after (h : row ∈ (t.after s step).removed p) :
    row ∈ t.removed p ∨ row ∈ t.base p ∨ row ∈ s.landing step p := by
  by_cases hstep : step = .clearAllPackets p
  · subst hstep
    cases hexec : s.executed (.clearAllPackets p) with
    | true =>
      rw [(truncated hexec).2] at h
      simpa using h
    | false =>
      rw [not_truncated hexec] at h
      exact .inl h
  · rw [removed_after hstep] at h
    exact .inl h

/-- Rows taken out of a base table were in it, or landed since. -/
theorem mem_removed_afterAll (h : row ∈ (t.afterAll s steps).removed p) :
    row ∈ t.removed p ∨ row ∈ t.base p ∨ ∃ step ∈ steps, row ∈ s.landing step p := by
  induction steps generalizing t with
  | nil => exact .inl h
  | cons step steps ih =>
    rcases ih h with hrow | hrow | ⟨other, hother, hrow⟩
    · rcases mem_removed_after hrow with hrow | hrow | hrow
      · exact .inl hrow
      · exact .inr (.inl hrow)
      · exact .inr (.inr ⟨step, List.mem_cons_self, hrow⟩)
    · rcases mem_base_after hrow with hrow | hrow
      · exact .inr (.inl hrow)
      · exact .inr (.inr ⟨step, List.mem_cons_self, hrow⟩)
    · exact .inr (.inr ⟨other, List.mem_cons_of_mem _ hother, hrow⟩)

private theorem recorded_after (h : t.Recorded) : (t.after s step).Recorded := by
  intro p row hrow
  rw [landed_after, List.mem_append]
  rcases hrow with hrow | hrow
  · exact (mem_base_after hrow).imp_left fun hrow => h p row (.inl hrow)
  · rcases mem_removed_after hrow with hrow | hrow | hrow
    · exact .inl (h p row (.inr hrow))
    · exact .inl (h p row (.inl hrow))
    · exact .inr hrow

theorem recorded_afterAll (h : t.Recorded) : (t.afterAll s steps).Recorded := by
  induction steps generalizing t with
  | nil => exact h
  | cons step steps ih => exact ih (recorded_after h)

/-- Truncations that are not carried out take no row. -/
theorem removed_afterAll_of_not_executed
    (h : .clearAllPackets p ∈ steps → s.executed (.clearAllPackets p) = false) :
    (t.afterAll s steps).removed p = t.removed p := by
  induction steps generalizing t with
  | nil => rfl
  | cons step steps ih =>
    refine (ih fun hmem => h (List.mem_cons_of_mem _ hmem)).trans ?_
    by_cases hstep : step = .clearAllPackets p
    · rw [hstep, not_truncated (h (hstep ▸ List.mem_cons_self))]
      rfl
    · exact removed_after hstep

end Tables

theorem QuietSince.recorded {t' : Tables Id Row} (hq : QuietSince s t t') (h : t.Recorded) :
    t'.Recorded := by
  obtain ⟨steps, _, rfl⟩ := hq
  exact Tables.recorded_afterAll h

theorem QuietSince.removed {t' : Tables Id Row} (hq : QuietSince s t t') (p : Pipe) :
    t'.removed p = t.removed p := by
  obtain ⟨steps, hquiet, rfl⟩ := hq
  exact Tables.removed_afterAll fun h => Bool.false_ne_true (hquiet _ h)

omit [DecidableEq Id] in
private theorem beforeMade_of_mem_stepsToMade {step : Step Id} (h : step ∈ stepsToMade s) :
    step.beforeMade := by
  rw [stepsToMade, List.mem_append, List.mem_append] at h
  rcases h with (h | h) | h
  · rcases List.mem_cons.mp h with rfl | h
    · rfl
    · rw [List.mem_singleton.mp h]
      rfl
  · obtain ⟨p, rfl⟩ := clearAllPackets_of_mem_clearSteps h
    rfl
  · rcases List.mem_cons.mp h with rfl | h
    · rfl
    · rw [List.mem_singleton.mp h]
      rfl

omit [DecidableEq Id] in
theorem clearAllPackets_mem_stepsToMade {p : Pipe} (h : .clearAllPackets p ∈ stepsToMade s) :
    .clearAllPackets p ∈ clearSteps s := by
  rw [stepsToMade] at h
  simpa using h

omit [DecidableEq Id] in
theorem oneUnderWay_none (h : c.world.tables.Recorded) (hnone : c.underWay = []) :
    OneUnderWay rangeOf c where
  current id hid := by rw [hnone] at hid; cases hid
  recorded := h
  spared p row _ := by rw [hnone]; exact List.not_mem_nil

private theorem oneUnderWay_start (h : OneUnderWay rangeOf c)
    (hmade : CapturedOnceMade rangeOf c (.start range s)) (halone : StartsAlone c (.start range s)) :
    OneUnderWay rangeOf (c.step (.start range s)) := by
  obtain ⟨r, w', hrun, hw'⟩ := start_run (s := s) c.world range
  rw [Service.step, hrun]
  rcases hw' with ⟨_, ⟨e, rfl⟩, hq, hcurrent⟩ | ⟨haccepted, hadd, ⟨e, rfl⟩, htables, hcurrent⟩ |
    ⟨haccepted, hadd, hq, created, hid, hcurrent, hr⟩
  · exact ⟨fun id hid => by rw [← h.current id hid]; exact congrArg _ hcurrent, hq.recorded h.recorded,
      fun p row hrow => h.spared p row (by rwa [← hq.removed p])⟩
  · have hrecorded : w'.tables.Recorded := htables ▸ Tables.recorded_afterAll h.recorded
    rcases halone with hnone | hrefused | ⟨hclears, _⟩
    · exact oneUnderWay_none hrecorded hnone
    · rw [hrefused] at haccepted
      cases haccepted
    · refine ⟨fun id hid => by rw [← h.current id hid]; exact congrArg _ hcurrent, hrecorded,
        fun p row hrow => h.spared p row ?_⟩
      dsimp only at hrow
      rw [htables, Tables.removed_afterAll_of_not_executed] at hrow
      · exact hrow
      · intro hmem
        exact Bool.eq_false_iff.mpr fun hexec => hclears p ⟨clearAllPackets_mem_stepsToMade hmem, hexec⟩
  · have hnone : c.underWay = [] := by
      rcases halone with hnone | hrefused | ⟨_, hnot⟩
      · exact hnone
      · rw [hrefused] at haccepted
        cases haccepted
      · rw [hnot] at hadd
        cases hadd
    have hrecorded : w'.tables.Recorded := hq.recorded (Tables.recorded_afterAll h.recorded)
    cases r with
    | error e => exact oneUnderWay_none hrecorded hnone
    | ok started =>
      cases hr started rfl
      -- nothing that was ever taken out of a table was captured for the new Range
      refine ⟨fun id hmem => ?_, hrecorded, fun p row hrow hmem => ?_⟩
      · rw [hnone, List.mem_singleton] at hmem
        rw [hmem, hcurrent]
        rfl
      · rw [hnone, List.mem_singleton, hid] at hmem
        rw [hq.removed p] at hrow
        rcases Tables.mem_removed_afterAll hrow with hrow | hrow | ⟨step, hstep, hrow⟩
        · exact (hmade p).1 row (h.recorded p row (.inr hrow)) hmem
        · exact (hmade p).1 row (h.recorded p row (.inl hrow)) hmem
        · exact (hmade p).2 step (beforeMade_of_mem_stepsToMade hstep) row hrow hmem

private theorem oneUnderWay_stop (h : OneUnderWay rangeOf c) :
    OneUnderWay rangeOf (c.step (.stop s)) := by
  rcases stop_run (s := s) (w := c.world) with
    ⟨range, hrange, _, stopped, w', hrun, hid, htables⟩ | ⟨_, r, w', hrun, hr, hq, hcurrent⟩
  · rw [Service.step, hrun]
    refine oneUnderWay_none (htables ▸ Tables.recorded_afterAll h.recorded) ?_
    refine List.filter_eq_nil_iff.mpr fun id hmem => ?_
    have hcurrent := h.current id hmem
    rw [hrange] at hcurrent
    have : range.id = id := Option.some.inj hcurrent
    simp [hid, this]
  · have hstep : c.step (.stop s) = { c with world := w' } := by
      rw [Service.step, hrun]
      match r with
      | .ok none => rfl
      | .ok (some range) => exact absurd rfl (hr range)
      | .error e => rfl
    rw [hstep]
    exact ⟨fun id hmem => hcurrent.trans (h.current id hmem), hq.recorded h.recorded,
      fun p row hrow => h.spared p row (by rwa [← hq.removed p])⟩

private theorem oneUnderWay_step {e : Event Id Bpf Row} (h : OneUnderWay rangeOf c)
    (hmade : CapturedOnceMade rangeOf c e) (halone : StartsAlone c e) :
    OneUnderWay rangeOf (c.step e) := by
  cases e with
  | start range s => exact oneUnderWay_start h hmade halone
  | stop s => exact oneUnderWay_stop h
  | land rows =>
    refine ⟨h.current, fun p row hrow => ?_, h.spared⟩
    rcases hrow with hrow | hrow
    · exact List.mem_append.mpr ((List.mem_append.mp hrow).imp_left fun hrow => h.recorded p row (.inl hrow))
    · exact List.mem_append_left _ (h.recorded p row (.inr hrow))

private theorem oneUnderWay_run {events : List (Event Id Bpf Row)} (h : OneUnderWay rangeOf c)
    (hmade : Each Service.step (CapturedOnceMade rangeOf) c events)
    (halone : Each Service.step StartsAlone c events) : OneUnderWay rangeOf (c.run events) := by
  induction events generalizing c with
  | nil => exact h
  | cons e events ih => exact ih (oneUnderWay_step h hmade.1 halone.1) hmade.2 halone.2

theorem starts_alone_spare_underWay (rangeOf : Row → Id) (w : World Id Bpf Row)
    (events : List (Event Id Bpf Row))
    (hmade : Each Service.step (CapturedOnceMade rangeOf) ⟨w.observed, []⟩ events)
    (halone : Each Service.step StartsAlone ⟨w.observed, []⟩ events) :
    SparesUnderWay rangeOf (Service.run ⟨w.observed, []⟩ events) := by
  have h : OneUnderWay rangeOf _ := oneUnderWay_run
    (oneUnderWay_none (c := ⟨w.observed, []⟩)
      (fun p row hrow => hrow.elim id fun hrow => (nomatch hrow)) rfl) hmade halone
  exact fun p row hrow hmem => absurd hmem (h.spared p row hrow)

/-- Every statement of the request is carried out, and no row lands meanwhile. -/
def plainly (newGuid : ℕ) (validated : RangeDto ℕ Unit → Option (RangeDto ℕ Unit)) :
    Schedule ℕ Unit ℕ where
  validated := validated
  utcNow := 5
  newGuid := newGuid
  reply _ := .done
  landing _ _ := []

/-- Nothing is there yet. -/
def empty : World ℕ Unit ℕ where
  tables :=
    { base := fun _ => []
      sessions := fun _ _ => none
      landed := fun _ => []
      removed := fun _ => [] }
  ranges := []
  currentRange := none
  isActive := false

def asked : RangeDto ℕ Unit :=
  { id := 0, startTime := 0, endTime := 0, description := " run ", config := some ⟨some ()⟩ }

/-- Range 1 starts, a motion packet of it lands, a second start is refused, and Range 1 stops. -/
def startedOnce : List (Event ℕ Unit ℕ) :=
  [.start asked (plainly 1 some), .land fun p => if p = .motion then [7] else [],
    .start asked (plainly 2 fun _ => none), .stop (plainly 0 some)]

theorem starts_alone_spare_underWay_startedOnce :
    SparesUnderWay (fun _ : ℕ => 1) (Service.run ⟨empty.observed, []⟩ startedOnce) := by
  refine starts_alone_spare_underWay _ empty startedOnce ⟨?_, trivial, ?_, trivial, trivial⟩
    ⟨.inl rfl, trivial, .inr (.inl rfl), trivial, trivial⟩
  · exact fun p => ⟨fun row h => (nomatch h), fun _ _ row h => (nomatch h)⟩
  · exact fun p => ⟨fun _ _ => show (1 : ℕ) ≠ 2 by decide, fun _ _ row h => (nomatch h)⟩

/-- Range 2 is started while Range 1 is under way. -/
def startedTwice : List (Event ℕ Unit ℕ) :=
  [.start asked (plainly 1 some), .land fun p => if p = .motion then [7] else [],
    .start asked (plainly 2 some)]

theorem second_start_loses_rows :
    Each Service.step (CapturedOnceMade fun _ : ℕ => 1) ⟨empty.observed, []⟩ startedTwice ∧
      ¬SparesUnderWay (fun _ : ℕ => 1) (Service.run ⟨empty.observed, []⟩ startedTwice) := by
  refine ⟨⟨fun p => ⟨fun row h => (nomatch h), fun _ _ row h => (nomatch h)⟩, trivial,
    fun p => ⟨fun _ _ => show (1 : ℕ) ≠ 2 by decide, fun _ _ row h => (nomatch h)⟩, trivial⟩, fun h => ?_⟩
  have hremoved : (Service.run ⟨empty.observed, []⟩ startedTwice).world.tables.removed .motion =
      [7] := by rfl
  have hunderWay : (Service.run ⟨empty.observed, []⟩ startedTwice).underWay = [2, 1] := by rfl
  have hsession : (Service.run ⟨empty.observed, []⟩ startedTwice).world.tables.sessions 1 .motion =
      none := by rfl
  obtain ⟨rows, hrows, _⟩ := h .motion 7 (by rw [hremoved]; decide) (by rw [hunderWay]; decide)
  rw [hsession] at hrows
  cases hrows

end Kanat.RangeService
