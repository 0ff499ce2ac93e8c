import Kanat.RangeService
import Mathlib.Data.List.Nodup

/-! # What stopping a Range does to the base tables

How one stop can go is said in parts: the current Range's end, the loops over the tables, the statements of each. The
rows a stop takes, and those that landed meanwhile, are then compared. -/
namespace Kanat.RangeService
open ResumptionPrograms ScheduledPrograms

variable {Id Bpf Row : Type}

/-- Steps that leave every table as it is but for the rows that land. -/
def Step.quiet : Step Id → Bool
  | .clearAllPackets _ | .createSessionTable _ _ => false
  | _ => true

/-- The rows landing in one base table before each of the steps. -/
def Schedule.landed (s : Schedule Id Bpf Row) (p : Pipe) (steps : List (Step Id)) : List Row :=
  steps.flatMap fun step => s.landing step p

variable {s : Schedule Id Bpf Row} {t : Tables Id Row} {step : Step Id} {steps : List (Step Id)}
  {p : Pipe} {id : Id}

namespace Tables

/-- No row is anywhere but in its base table or among those taken out of it. -/
def Accounted (t : Tables Id Row) : Prop :=
  ∀ p, ∀ row ∈ t.landed p, row ∈ t.removed p ∨ row ∈ t.base p

private theorem accounted_land (rows : Pipe → List Row) (h : t.Accounted) : (t.land rows).Accounted := by
  intro p row hrow
  rcases List.mem_append.mp hrow with hrow | hrow
  · exact (h p row hrow).imp_right (List.mem_append_left _)
  · exact .inr (List.mem_append_right _ hrow)

private theorem accounted_truncate {q : Pipe} (h : t.Accounted) : (t.truncate q).Accounted := by
  intro p row hrow
  by_cases hp : p = q
  · subst hp
    have := h p row hrow
    simpa [truncate] using this
  · simpa [truncate, Function.update_of_ne hp] using h p row hrow

private theorem accounted_observed : t.observed.Accounted := fun _ _ h => .inr h

variable [DecidableEq Id]

theorem base_after (h : step ≠ .clearAllPackets p) :
    (t.after s step).base p = t.base p ++ s.landing step p := by
  cases step with
  | clearAllPackets q =>
    have hq : p ≠ q := fun hq => h (congrArg _ hq.symm)
    change (if _ then _ else _ : Tables Id Row).base p = _
    split
    · exact Function.update_of_ne hq _ _
    · rfl
  | createSessionTable q id =>
    change (if _ then _ else _ : Tables Id Row).base p = _
    split <;> rfl
  | _ => rfl

theorem removed_after (h : step ≠ .clearAllPackets p) :
    (t.after s step).removed p = t.removed p := by
  cases step with
  | clearAllPackets q =>
    have hq : p ≠ q := fun hq => h (congrArg _ hq.symm)
    change (if _ then _ else _ : Tables Id Row).removed p = _
    split
    · exact Function.update_of_ne hq _ _
    · rfl
  | createSessionTable q id =>
    change (if _ then _ else _ : Tables Id Row).removed p = _
    split <;> rfl
  | _ => rfl

theorem sessions_after (h : step ≠ .createSessionTable p id) :
    (t.after s step).sessions id p = t.sessions id p := by
  cases step with
  | clearAllPackets q =>
    change (if _ then _ else _ : Tables Id Row).sessions id p = _
    split <;> rfl
  | createSessionTable q id' =>
    have hq : ¬(id = id' ∧ p = q) := fun hq => h (by rw [hq.1, hq.2])
    change (if _ then _ else _ : Tables Id Row).sessions id p = _
    split
    · exact if_neg hq
    · rfl
  | _ => rfl

theorem landed_after : (t.after s step).landed p = t.landed p ++ s.landing step p := by
  cases step with
  | clearAllPackets q =>
    change (if _ then _ else _ : Tables Id Row).landed p = _
    split <;> rfl
  | createSessionTable q id =>
    change (if _ then _ else _ : Tables Id Row).landed p = _
    split <;> rfl
  | _ => rfl

theorem truncated (h : s.executed (.clearAllPackets p)) :
    (t.after s (.clearAllPackets p)).base p = [] ∧
      (t.after s (.clearAllPackets p)).removed p =
        t.removed p ++ (t.base p ++ s.landing (.clearAllPackets p) p) := by
  rw [show t.after s (.clearAllPackets p) = _ from if_pos h]
  exact ⟨Function.update_self .., Function.update_self ..⟩

theorem not_truncated (h : s.executed (.clearAllPackets p) = false) :
    t.after s (.clearAllPackets p) = t.land (s.landing (.clearAllPackets p)) :=
  if_neg (by rw [h]; exact Bool.false_ne_true)

private theorem copied (h : s.executed (.createSessionTable p id)) (hn : t.sessions id p = none) :
    (t.after s (.createSessionTable p id)).sessions id p =
      some (t.base p ++ s.landing (.createSessionTable p id) p) := by
  rw [show t.after s (.createSessionTable p id) = _ from if_pos ⟨h, hn⟩]
  exact if_pos ⟨rfl, rfl⟩

private theorem not_copied (h : ¬(s.executed (.createSessionTable p id) ∧ t.sessions id p = none)) :
    t.after s (.createSessionTable p id) = t.land (s.landing (.createSessionTable p id)) :=
  if_neg h

/-- The tables after several steps, one after another. -/
def afterAll (s : Schedule Id Bpf Row) (t : Tables Id Row) (steps : List (Step Id)) :
    Tables Id Row :=
  steps.foldl (after s) t

theorem afterAll_append {more : List (Step Id)} :
    t.afterAll s (steps ++ more) = (t.afterAll s steps).afterAll s more :=
  List.foldl_append

theorem base_afterAll (h : .clearAllPackets p ∉ steps) :
    (t.afterAll s steps).base p = t.base p ++ s.landed p steps := by
  induction steps generalizing t with
  | nil => exact (List.append_nil _).symm
  | cons step steps ih =>
    rw [List.mem_cons, not_or] at h
    rw [afterAll, List.foldl_cons]
    exact (ih h.2).trans (by
      rw [base_after (Ne.symm h.1), List.append_assoc, Schedule.landed, Schedule.landed,
        List.flatMap_cons])

theorem removed_afterAll (h : .clearAllPackets p ∉ steps) :
    (t.afterAll s steps).removed p = t.removed p := by
  induction steps generalizing t with
  | nil => rfl
  | cons step steps ih =>
    rw [List.mem_cons, not_or] at h
    exact (ih h.2).trans (removed_after (Ne.symm h.1))

theorem sessions_afterAll (h : .createSessionTable p id ∉ steps) :
    (t.afterAll s steps).sessions id p = t.sessions id p := by
  induction steps generalizing t with
  | nil => rfl
  | cons step steps ih =>
    rw [List.mem_cons, not_or] at h
    exact (ih h.2).trans (sessions_after (Ne.symm h.1))

private theorem accounted_after (h : t.Accounted) : (t.after s step).Accounted := by
  have hland := accounted_land (s.landing step) h
  cases step with
  | clearAllPackets q =>
    rw [after]
    split
    · exact accounted_truncate hland
    · exact hland
  | createSessionTable q id =>
    rw [after]
    split
    · exact hland
    · exact hland
  | _ => exact hland

private theorem accounted_afterAll (h : t.Accounted) : (t.afterAll s steps).Accounted := by
  induction steps generalizing t with
  | nil => exact h
  | cons step steps ih => exact ih (accounted_after h)

end Tables

private theorem step_ne_of_quiet {q : Pipe} (h : step.quiet) :
    step ≠ .clearAllPackets p ∧ step ≠ .createSessionTable q id := by
  constructor
  · rintro rfl
    cases h
  · rintro rfl
    cases h

theorem told_eq_ok : s.told step = .ok () ↔ s.done step := by
  rw [Schedule.told]
  split <;> simp [*]

theorem executed_of_done (h : s.done step) : s.executed step := by
  rw [Schedule.done, decide_eq_true_eq] at h
  simp [Schedule.executed, h]

variable [DecidableEq Id]

section
variable (s : Schedule Id Bpf Row) (w : World Id Bpf Row) (id : Id)

def foundRange : Option (RangeEntity Id) :=
  w.ranges.find? fun r => r.id = id

/-- No exception ends the stop before it comes to the tables. -/
def reachesTables : Bool :=
  pipes.all (fun p => s.done (.unsubscribe p)) && s.done .resetStats && s.done .getById &&
    ((foundRange w id).isNone || s.done .update)

/-- The steps of a stop that comes to the tables, up to there. -/
def stepsToTables : List (Step Id) :=
  [.getCurrentRange] ++ pipes.map .unsubscribe ++
    [.setIsActive, .resetStats, .utcNow, .setEndTime, .getById] ++
    if (foundRange w id).isSome then [.update, .setCurrentRange] else []

/-- A table can be copied while the Range has no session table of its kind. -/
def copyDone (p : Pipe) : Bool :=
  s.done (.createSessionTable p id) && (w.tables.sessions id p).isNone

def copySteps : List (Step Id) :=
  (attempted (copyDone s w id) pipes).map fun p => .createSessionTable p id

def clearSteps (s : Schedule Id Bpf Row) : List (Step Id) :=
  (attempted (fun p => s.done (.clearAllPackets p)) pipes).map .clearAllPackets

/-- All steps of a stop that comes to the tables. -/
def stopSteps : List (Step Id) :=
  stepsToTables w id ++ copySteps s w id ++ clearSteps s

end

variable {w : World Id Bpf Row}

omit [DecidableEq Id] in
theorem clearSteps_nodup : (clearSteps s).Nodup := by
  refine List.Nodup.map (fun p q h => by cases h; rfl) ?_
  exact attempted_sublist.nodup (by decide)

omit [DecidableEq Id] in
theorem createSessionTable_of_mem_copySteps (h : step ∈ copySteps s w id) :
    ∃ q, step = .createSessionTable q id := by
  obtain ⟨q, _, rfl⟩ := List.mem_map.mp h
  exact ⟨q, rfl⟩

omit [DecidableEq Id] in
theorem clearAllPackets_of_mem_clearSteps (h : step ∈ clearSteps s) :
    ∃ q, step = .clearAllPackets q := by
  obtain ⟨q, _, rfl⟩ := List.mem_map.mp h
  exact ⟨q, rfl⟩

theorem quiet_stepsToTables (h : step ∈ stepsToTables w id) : step.quiet := by
  rw [stepsToTables] at h
  split at h <;> simp [pipes] at h <;> aesop

theorem id_of_foundRange {entity : RangeEntity Id} (h : foundRange w id = some entity) :
    entity.id = id := by
  simpa using List.find?_some h

theorem run_perform_bind {o : Op Id Bpf} {α : Type} {f : Ans Id Bpf o → Program Id Bpf α} :
    run (answer s) (perform o >>= f) w = run (answer s) (f (answer s w o).1) (answer s w o).2 := rfl

/-- The tables after `steps` that are all quiet. -/
def QuietSince (s : Schedule Id Bpf Row) (t t' : Tables Id Row) : Prop :=
  ∃ steps : List (Step Id), (∀ step ∈ steps, step.quiet) ∧ t' = t.afterAll s steps

theorem QuietSince.trans {t₁ t₂ t₃ : Tables Id Row} (h₁ : QuietSince s t₁ t₂)
    (h₂ : QuietSince s t₂ t₃) : QuietSince s t₁ t₃ := by
  obtain ⟨steps₁, hq₁, rfl⟩ := h₁
  obtain ⟨steps₂, hq₂, rfl⟩ := h₂
  refine ⟨steps₁ ++ steps₂, fun step hstep => ?_, Tables.afterAll_append.symm⟩
  rcases List.mem_append.mp hstep with hstep | hstep
  · exact hq₁ step hstep
  · exact hq₂ step hstep

/-- A world in which nothing but the tables has changed, by these steps. -/
def World.afterAll (s : Schedule Id Bpf Row) (w : World Id Bpf Row) (steps : List (Step Id)) :
    World Id Bpf Row :=
  { w with tables := w.tables.afterAll s steps }

theorem World.afterAll_append {steps' : List (Step Id)} :
    w.afterAll s (steps ++ steps') = (w.afterAll s steps).afterAll s steps' := by
  rw [afterAll, Tables.afterAll_append]
  rfl

theorem World.foldl_afterAll {ps : List Pipe} {step : Pipe → Step Id} :
    ps.foldl (fun w p => w.afterAll s [step p]) w = w.afterAll s (ps.map step) := by
  induction ps generalizing w with
  | nil => rfl
  | cons p ps ih => exact ih.trans World.afterAll_append.symm

/-- One statement for each packet type, the first exception ending the rest. -/
theorem loop_run {body : Pipe → Program Id Bpf Unit} (step : Pipe → Step Id) (ps : List Pipe)
    (hbody : ∀ p w, run (answer s) (body p) w = (s.told (step p), w.afterAll s [step p])) :
    (run (answer s) (ps.forM body) w).2 =
        w.afterAll s ((attempted (fun p => s.done (step p)) ps).map step) ∧
      ((run (answer s) (ps.forM body) w).1 = .ok () ↔ ps.all fun p => s.done (step p)) := by
  rw [← World.foldl_afterAll]
  exact run_forM (fun _ _ => True) (fun p _ w _ => by rw [hbody]; exact ⟨rfl, told_eq_ok, trivial⟩)
    trivial

theorem unsubscribe_run (p : Pipe) (w : World Id Bpf Row) :
    run (answer s) (perform (.unsubscribe p) >>= Prog.ofExcept) w =
      (s.told (.unsubscribe p), w.afterAll s [.unsubscribe p]) :=
  run_ofExcept

private theorem stopAsync_run :
    if pipes.all fun p => s.done (.unsubscribe p) then
      run (answer s) Realtime.stopAsync w =
        (.ok (), { w.afterAll s (pipes.map .unsubscribe ++ [.setIsActive]) with isActive := false })
    else ∃ e w', run (answer s) Realtime.stopAsync w = (.error e, w') ∧
      QuietSince s w.tables w'.tables ∧ w'.currentRange = w.currentRange := by
  obtain ⟨hw, hr⟩ : _ ∧ _ := loop_run (s := s) (w := w) .unsubscribe pipes unsubscribe_run
  rw [Realtime.stopAsync, Prog.bind_eq, run_bind]
  generalize run (answer s) (pipes.forM fun p => perform (.unsubscribe p) >>= Prog.ofExcept) w = r
    at hw hr
  obtain ⟨r, w'⟩ := r
  cases hw
  split
  case isTrue hall =>
    rw [attempted_of_all hall]
    cases hr.mpr hall
    rw [World.afterAll_append]
    rfl
  case isFalse hall =>
    cases r with
    | ok u => exact absurd (hr.mp rfl) hall
    | error e =>
      refine ⟨e, _, rfl, ⟨_, fun step hstep => ?_, rfl⟩, rfl⟩
      obtain ⟨p, _, rfl⟩ := List.mem_map.mp hstep
      rfl

/-- The row with what the request has of it. -/
def RangeEntity.changed (entity : RangeEntity Id) (dto : RangeDto Id Bpf) : RangeEntity Id :=
  { entity with
    startTime := dto.startTime
    endTime := dto.endTime
    description := dto.description }

theorem update_unanswered (dto : RangeDto Id Bpf) (hget : s.done .getById = false) :
    run (answer s) (updateRangeByIdAsync id dto) w = (.error .getById, w.afterAll s [.getById]) := by
  simp [updateRangeByIdAsync, perform, Prog.perform, answer, hget, Prog.ofExcept]
  rfl

theorem update_unfound (dto : RangeDto Id Bpf) (hget : s.done .getById) (hfound : foundRange w id = none) :
    run (answer s) (updateRangeByIdAsync id dto) w = (.ok none, w.afterAll s [.getById]) := by
  rw [foundRange] at hfound
  simp [updateRangeByIdAsync, perform, Prog.perform, answer, hget, Prog.ofExcept, hfound]
  rfl

theorem update_found {entity : RangeEntity Id} (dto : RangeDto Id Bpf) (hget : s.done .getById)
    (hfound : foundRange w id = some entity) :
    run (answer s) (updateRangeByIdAsync id dto) w =
      ((s.told .update).map fun _ => some (RangeMapper.toDto (entity.changed dto)),
        (answer s (w.afterAll s [.getById]) (.update (entity.changed dto))).2) := by
  rw [foundRange] at hfound
  cases hupdate : s.done .update with
  | false =>
    simp [updateRangeByIdAsync, perform, Prog.perform, answer, hget, Prog.ofExcept, hfound,
      Schedule.told, hupdate, Except.map]
    rfl
  | true =>
    simp [updateRangeByIdAsync, perform, Prog.perform, answer, hget, Prog.ofExcept, hfound,
      Schedule.told, hupdate, Except.map]
    exact ⟨rfl, rfl⟩

private theorem updateRangeByIdAsync_run (w : World Id Bpf Row) (id : Id) (dto : RangeDto Id Bpf) :
    ∃ r w', run (answer s) (updateRangeByIdAsync id dto) w = (r, w') ∧
      w'.currentRange = w.currentRange ∧
      match r with
      | .ok none => s.done .getById ∧ foundRange w id = none ∧
          w'.tables = w.tables.afterAll s [.getById]
      | .ok (some updated) => s.done .getById ∧ (foundRange w id).isSome ∧ s.done .update ∧
          updated.id = id ∧ w'.tables = w.tables.afterAll s [.getById, .update]
      | .error _ => (s.done .getById && ((foundRange w id).isNone || s.done .update)) = false ∧
          QuietSince s w.tables w'.tables := by
  cases hget : s.done .getById with
  | false => exact ⟨_, _, update_unanswered dto hget, rfl, rfl, [.getById], by simp [Step.quiet], rfl⟩
  | true =>
    cases hfound : foundRange w id with
    | none => exact ⟨_, _, update_unfound dto hget hfound, rfl, rfl, rfl, rfl⟩
    | some entity =>
      have hcurrent : (answer s (w.afterAll s [.getById]) (.update (entity.changed dto))).2.currentRange =
          w.currentRange := by
        change (if s.executed .update then _ else _ : World Id Bpf Row).currentRange = _
        split <;> rfl
      have htables : (answer s (w.afterAll s [.getById]) (.update (entity.changed dto))).2.tables =
          w.tables.afterAll s [.getById, .update] := answer_tables ..
      refine ⟨_, _, update_found dto hget hfound, hcurrent, ?_⟩
      cases hupdate : s.done .update with
      | false =>
        rw [Schedule.told, hupdate, htables]
        exact ⟨by simp, [.getById, .update], by simp [Step.quiet], rfl⟩
      | true =>
        rw [Schedule.told, hupdate]
        exact ⟨rfl, rfl, rfl, show entity.id = id from id_of_foundRange hfound, htables⟩

/-- The steps of `recordEnd` when it returns. -/
def recordEndSteps (w : World Id Bpf Row) (id : Id) : List (Step Id) :=
  [.utcNow, .setEndTime, .getById] ++
    if (foundRange w id).isSome then [.update, .setCurrentRange] else []

private theorem recordEnd_run {range : RangeDto Id Bpf} (hcurrent : w.currentRange = some range) :
    if s.done .getById && ((foundRange w range.id).isNone || s.done .update) then
      ∃ stopped w', run (answer s) (recordEnd range) w = (.ok stopped, w') ∧
        stopped.id = range.id ∧ w'.tables = w.tables.afterAll s (recordEndSteps w range.id)
    else ∃ e w', run (answer s) (recordEnd range) w = (.error e, w') ∧
      QuietSince s w.tables w'.tables ∧ w'.currentRange.map RangeDto.id = some range.id := by
  let ended : RangeDto Id Bpf := { range with endTime := s.utcNow }
  let w₀ : World Id Bpf Row :=
    { w.afterAll s [.utcNow, .setEndTime] with currentRange := some ended }
  obtain ⟨r, w', hrun, hkept, hr⟩ :=
    updateRangeByIdAsync_run (s := s) w₀ range.id ended
  have hw₀ : (answer s (answer s w .utcNow).2 (.setEndTime s.utcNow)).2 = w₀ := by
    simp [answer, hcurrent, w₀, ended, Op.step]
    exact ⟨rfl, rfl, rfl⟩
  have hquiet : QuietSince s w.tables w₀.tables :=
    ⟨[.utcNow, .setEndTime], by simp [Step.quiet], rfl⟩
  have hfound : foundRange w₀ range.id = foundRange w range.id := rfl
  have hrun' : run (answer s) (recordEnd range) w =
      match (r, w') with
      | (.ok none, w') => (.ok ended, w')
      | (.ok (some updated), w') => (.ok updated, (answer s w' (.setCurrentRange updated)).2)
      | (.error e, w') => (.error e, w') := by
    rw [recordEnd, run_perform_bind, run_perform_bind, show (answer s w .utcNow).1 = s.utcNow from rfl,
      hw₀, Prog.bind_eq, run_bind, hrun]
    match r with
    | .ok none => rfl
    | .ok (some updated) => rfl
    | .error e => rfl
  rw [hrun']
  rw [hfound] at hr
  match r with
  | .ok none =>
    obtain ⟨hget, hnone, htables⟩ := hr
    rw [if_pos (by rw [hget, hnone]; rfl)]
    refine ⟨_, _, rfl, rfl, ?_⟩
    rw [htables, recordEndSteps, hnone]
    rfl
  | .ok (some updated) =>
    obtain ⟨hget, hsome, hupdate, hid, htables⟩ := hr
    rw [if_pos (by rw [hget, hupdate, Bool.or_true]; rfl)]
    refine ⟨_, _, rfl, hid, ?_⟩
    rw [answer_tables, htables, recordEndSteps, if_pos hsome]
    rfl
  | .error e =>
    obtain ⟨hfail, hquiet'⟩ := hr
    rw [hfail, if_neg Bool.false_ne_true]
    exact ⟨e, w', rfl, hquiet.trans hquiet', by rw [hkept]; rfl⟩

/-- How the first part of a stop can go: it comes to the tables, with the id of the Range that was
current, or no table is cleared or copied. -/
theorem endCurrentRange_run :
    (∃ range ∈ w.currentRange, reachesTables s w range.id ∧
      ∃ stopped w', run (answer s) endCurrentRange w = (.ok (some stopped), w') ∧
        stopped.id = range.id ∧ w'.tables = w.tables.afterAll s (stepsToTables w range.id)) ∨
    ((∀ range ∈ w.currentRange, reachesTables s w range.id = false) ∧
      ∃ r w', run (answer s) endCurrentRange w = (r, w') ∧ (∀ range, r ≠ .ok (some range)) ∧
        QuietSince s w.tables w'.tables ∧
        w'.currentRange.map RangeDto.id = w.currentRange.map RangeDto.id) := by
  have hstop := stopAsync_run (s := s) (w := w.afterAll s [.getCurrentRange])
  have hcurrent : (answer s w .getCurrentRange).2 = w.afterAll s [.getCurrentRange] := rfl
  split at hstop
  case isFalse hall =>
    obtain ⟨e, w', hrun, hquiet, hkept⟩ := hstop
    refine .inr ⟨fun range _ => by simp [reachesTables, hall], .error e, w', ?_, by simp,
      QuietSince.trans ⟨[.getCurrentRange], by simp [Step.quiet], rfl⟩ hquiet, by rw [hkept]; rfl⟩
    rw [endCurrentRange, run_perform_bind, Prog.bind_eq, run_bind, hcurrent, hrun]
  case isTrue hall =>
    let steps : List (Step Id) :=
      [.getCurrentRange] ++ pipes.map .unsubscribe ++ [.setIsActive, .resetStats]
    let w₀ : World Id Bpf Row := { w.afterAll s steps with isActive := false }
    have hquiet : QuietSince s w.tables w₀.tables := ⟨steps, by simp [steps, pipes, Step.quiet], rfl⟩
    cases hreset : s.done .resetStats with
    | false =>
      refine .inr ⟨fun range _ => by simp [reachesTables, hreset], .error .resetStats, w₀, ?_,
        by simp, hquiet, rfl⟩
      rw [endCurrentRange, run_perform_bind, Prog.bind_eq, run_bind, hcurrent, hstop]
      simp [perform, Prog.perform, answer, Schedule.told, hreset, Prog.ofExcept]
      rfl
    | true =>
      cases hc : w.currentRange with
      | none =>
        refine .inr ⟨by simp, .ok none, w₀, ?_, by simp, hquiet, congrArg (Option.map RangeDto.id) hc⟩
        rw [endCurrentRange, run_perform_bind, Prog.bind_eq, run_bind, hcurrent, hstop]
        simp [perform, Prog.perform, answer, Schedule.told, hreset, Prog.ofExcept, hc]
        rfl
      | some range =>
        have hrun : run (answer s) endCurrentRange w = run (answer s) (some <$> recordEnd range) w₀ := by
          rw [endCurrentRange, run_perform_bind, Prog.bind_eq, run_bind, hcurrent, hstop]
          simp [perform, Prog.perform, answer, Schedule.told, hreset, Prog.ofExcept, hc]
          rfl
        rw [hrun]
        have hrecord := recordEnd_run (s := s) (w := w₀) hc
        rw [show foundRange w₀ range.id = foundRange w range.id from rfl] at hrecord
        have hreaches : reachesTables s w range.id =
            (s.done .getById && ((foundRange w range.id).isNone || s.done .update)) := by
          rw [reachesTables, hall, hreset, Bool.true_and, Bool.true_and]
        simp only [Prog.map_eq, run_bind]
        split at hrecord
        case isTrue h =>
          obtain ⟨stopped, w', hrun', hid, htables⟩ := hrecord
          refine .inl ⟨range, rfl, hreaches.trans h, stopped, w', by rw [hrun']; rfl, hid, ?_⟩
          rw [htables]
          exact Tables.afterAll_append.symm
        case isFalse h =>
          obtain ⟨e, w', hrun', hquiet', hkept⟩ := hrecord
          refine .inr ⟨fun range' hr => ?_, .error e, w', by rw [hrun'], by simp,
            hquiet.trans hquiet', hkept⟩
          cases hr
          exact hreaches.trans (Bool.eq_false_iff.mpr h)

private theorem clear_run {p : Pipe} : run (answer s) (clearAllPacketsAsync p) w =
    (s.told (.clearAllPackets p), w.afterAll s [.clearAllPackets p]) :=
  run_ofExcept

theorem clears_run :
    run (answer s) (tryCatch (pipes.forM clearAllPacketsAsync) fun _ => pure ()) w =
      (.ok (), w.afterAll s (clearSteps s)) := by
  rw [clearSteps, ← World.foldl_afterAll]
  exact run_block (fun _ _ => True)
    (fun p _ w _ => by rw [clear_run]; exact ⟨rfl, told_eq_ok, trivial⟩) trivial

private theorem copies_run {w' : World Id Bpf Row}
    (h : ∀ p ∈ pipes, w'.tables.sessions id p = w.tables.sessions id p) :
    run (answer s) (tryCatch (pipes.forM (createSessionTableAsync id)) fun _ => pure ()) w' =
      (.ok (), w'.afterAll s (copySteps s w id)) := by
  rw [copySteps, ← World.foldl_afterAll]
  refine run_block
    (fun ps w' => ps.Nodup ∧ ∀ p ∈ ps, w'.tables.sessions id p = w.tables.sessions id p)
    (fun p ps w' hI => ?_) ⟨by decide, h⟩
  · obtain ⟨hnodup, hsame⟩ := hI
    rw [List.nodup_cons] at hnodup
    refine ⟨by rw [createSessionTableAsync, run_perform_bind, run_ofExcept]; rfl, ?_, hnodup.2, ?_⟩
    · rw [createSessionTableAsync, run_perform_bind, run_ofExcept, copyDone, ← hsame p (by simp)]
      change (if w'.tables.sessions id p = none then _ else _) = _ ↔ _
      cases w'.tables.sessions id p with
      | none => simp [told_eq_ok]
      | some rows => simp
    · intro q hq
      have hne : Step.createSessionTable p id ≠ .createSessionTable q id := by
        rintro ⟨⟩
        exact hnodup.1 hq
      rw [← hsame q (List.mem_cons_of_mem _ hq)]
      exact Tables.sessions_after hne

/-- How a stop can go. -/
theorem stop_run :
    (∃ range ∈ w.currentRange, reachesTables s w range.id ∧
      ∃ stopped w', run (answer s) stopRealtimeRangeAsync w = (.ok (some stopped), w') ∧
        stopped.id = range.id ∧ w'.tables = w.tables.afterAll s (stopSteps s w range.id)) ∨
    ((∀ range ∈ w.currentRange, reachesTables s w range.id = false) ∧
      ∃ r w', run (answer s) stopRealtimeRangeAsync w = (r, w') ∧
        (∀ range, r ≠ .ok (some range)) ∧ QuietSince s w.tables w'.tables ∧
        w'.currentRange.map RangeDto.id = w.currentRange.map RangeDto.id) := by
  rcases endCurrentRange_run (s := s) (w := w) with
    ⟨range, hrange, hreaches, stopped, w', hrun, hid, htables⟩ | ⟨hreaches, r, w', hrun, hr, hq⟩
  · have hsessions : ∀ p ∈ pipes,
        w'.tables.sessions stopped.id p = w.tables.sessions stopped.id p := fun p _ => by
      rw [htables, Tables.sessions_afterAll]
      exact fun h => (step_ne_of_quiet (p := p) (quiet_stepsToTables h)).2 rfl
    refine .inl ⟨range, hrange, hreaches, stopped,
      (w'.afterAll s (copySteps s w stopped.id)).afterAll s (clearSteps s), ?_, hid, ?_⟩
    · rw [stopRealtimeRangeAsync, Prog.bind_eq, run_bind, hrun]
      dsimp only
      rw [Prog.bind_eq, run_bind, copies_run hsessions]
      dsimp only
      rw [Prog.bind_eq, run_bind, clears_run]
      rfl
    · rw [stopSteps, Tables.afterAll_append, Tables.afterAll_append, ← htables, hid]
      rfl
  · refine .inr ⟨hreaches, ?_⟩
    match r with
    | .ok none =>
      exact ⟨.ok none, w', by rw [stopRealtimeRangeAsync, Prog.bind_eq, run_bind, hrun]; rfl,
        fun _ => nofun, hq⟩
    | .ok (some range) => exact absurd rfl (hr range)
    | .error e =>
      exact ⟨.error e, w', by rw [stopRealtimeRangeAsync, Prog.bind_eq, run_bind, hrun],
        fun _ => nofun, hq⟩

section
variable (s : Schedule Id Bpf Row) (w : World Id Bpf Row) (id : Id) (p : Pipe)

/-- The rows written to a base table by the time a step of the stop is carried out, had none been
removed. -/
def rowsAt (step : Step Id) : List Row :=
  w.tables.base p ++ s.landed p ((stopSteps s w id).takeWhile (· ≠ step) ++ [step])

/-- The stop's `TRUNCATE` of the table is carried out. -/
def clears : Prop :=
  .clearAllPackets p ∈ clearSteps s ∧ s.executed (.clearAllPackets p)

/-- Its `CREATE TABLE` is. -/
def copies : Prop :=
  .createSessionTable p id ∈ copySteps s w id ∧ s.executed (.createSessionTable p id) ∧
    w.tables.sessions id p = none

instance : Decidable (clears s p) := inferInstanceAs (Decidable (_ ∧ _))

instance : Decidable (copies s w id p) := inferInstanceAs (Decidable (_ ∧ _ ∧ _))

/-- What the Range's session table holds when the stop is over. -/
def sessionRows : List Row :=
  if copies s w id p then rowsAt s w id p (.createSessionTable p id)
  else (w.tables.sessions id p).getD []

end

omit [DecidableEq Id] in
theorem clearAllPackets_notMem_copySteps : .clearAllPackets p ∉ copySteps s w id := by
  intro h
  obtain ⟨q, h⟩ := createSessionTable_of_mem_copySteps h
  cases h

theorem clearAllPackets_notMem_stepsToTables : .clearAllPackets p ∉ stepsToTables w id := by
  intro h
  exact Bool.false_ne_true (quiet_stepsToTables h)

theorem clearAllPackets_mem_stopSteps (w : World Id Bpf Row) (id : Id) :
    .clearAllPackets p ∈ stopSteps s w id ↔ .clearAllPackets p ∈ clearSteps s := by
  rw [stopSteps, List.mem_append, List.mem_append]
  refine or_iff_right ?_
  rintro (h | h)
  · exact clearAllPackets_notMem_stepsToTables h
  · exact clearAllPackets_notMem_copySteps h

theorem createSessionTable_mem_stopSteps :
    .createSessionTable p id ∈ stopSteps s w id ↔ .createSessionTable p id ∈ copySteps s w id := by
  rw [stopSteps, List.mem_append, List.mem_append]
  constructor
  · rintro ((h | h) | h)
    · exact absurd (quiet_stepsToTables h) Bool.false_ne_true
    · exact h
    · obtain ⟨q, h⟩ := clearAllPackets_of_mem_clearSteps h
      cases h
  · exact fun h => .inl (.inr h)

theorem takeWhile_ne {before after : List (Step Id)} (h : step ∉ before) :
    (before ++ step :: after).takeWhile (· ≠ step) = before := by
  have hall : ∀ x ∈ before, decide (x ≠ step) = true := by
    rintro x hx
    exact decide_eq_true fun heq => h (heq ▸ hx)
  rw [List.takeWhile_append_of_pos hall, List.takeWhile_cons_of_neg (by simp), List.append_nil]

omit [DecidableEq Id] in
private theorem copySteps_nodup : (copySteps s w id).Nodup := by
  refine List.Nodup.map (fun p q h => by cases h; rfl) ?_
  exact attempted_sublist.nodup (by decide)

private theorem stepsToTables_nodup : (stepsToTables w id).Nodup := by
  rw [stepsToTables]
  split <;> simp [pipes]

/-- No step of a stop is made twice. -/
theorem stopSteps_nodup (s : Schedule Id Bpf Row) (w : World Id Bpf Row) (id : Id) :
    (stopSteps s w id).Nodup := by
  rw [stopSteps, List.nodup_append, List.nodup_append]
  refine ⟨⟨stepsToTables_nodup, copySteps_nodup, fun a ha b hb => ?_⟩, clearSteps_nodup,
    fun a ha b hb => ?_⟩
  · rintro rfl
    obtain ⟨p, rfl⟩ := createSessionTable_of_mem_copySteps hb
    exact Bool.false_ne_true (quiet_stepsToTables ha)
  · rintro rfl
    obtain ⟨p, rfl⟩ := clearAllPackets_of_mem_clearSteps hb
    rcases List.mem_append.mp ha with ha | ha
    · exact clearAllPackets_notMem_stepsToTables ha
    · exact clearAllPackets_notMem_copySteps ha

/-- The steps around one that is made. -/
theorem stopSteps_split (h : step ∈ stopSteps s w id) :
    ∃ before after, stopSteps s w id = before ++ step :: after ∧ step ∉ before ∧ step ∉ after ∧
      ∀ p, rowsAt s w id p step = w.tables.base p ++ s.landed p (before ++ [step]) := by
  obtain ⟨before, after, hsteps, hbefore⟩ := List.eq_append_cons_of_mem h
  have hnodup := stopSteps_nodup s w id
  rw [hsteps, List.nodup_append] at hnodup
  refine ⟨before, after, hsteps, hbefore, (List.nodup_cons.mp hnodup.2.1).1, fun p => ?_⟩
  rw [rowsAt, hsteps, takeWhile_ne hbefore]

theorem Tables.afterAll_cons : t.afterAll s (step :: steps) = (t.after s step).afterAll s steps :=
  rfl

/-- What a stop that comes to the tables takes out of a base table. -/
theorem removed_stop :
    (w.tables.afterAll s (stopSteps s w id)).removed p = w.tables.removed p ++
      if clears s p then rowsAt s w id p (.clearAllPackets p) else [] := by
  by_cases hmem : .clearAllPackets p ∈ clearSteps s
  · obtain ⟨before, after, hsteps, hbefore, hafter, hrows⟩ :=
      stopSteps_split ((clearAllPackets_mem_stopSteps w id).mpr hmem)
    rw [hsteps, hrows, Tables.afterAll_append, Tables.afterAll_cons, Tables.removed_afterAll hafter]
    by_cases hexec : s.executed (.clearAllPackets p)
    · rw [if_pos ⟨hmem, hexec⟩, (Tables.truncated hexec).2, Tables.removed_afterAll hbefore,
        Tables.base_afterAll hbefore]
      simp [Schedule.landed]
    · rw [if_neg fun h => hexec h.2, Tables.not_truncated (Bool.eq_false_iff.mpr hexec),
        List.append_nil]
      exact Tables.removed_afterAll hbefore
  · rw [if_neg fun h => hmem h.1, List.append_nil, Tables.removed_afterAll]
    exact fun h => hmem ((clearAllPackets_mem_stopSteps w id).mp h)

/-- What a stop that comes to the tables leaves in the Range's session table. -/
theorem sessions_stop :
    (w.tables.afterAll s (stopSteps s w id)).sessions id p =
      if copies s w id p then some (rowsAt s w id p (.createSessionTable p id))
      else w.tables.sessions id p := by
  by_cases hmem : .createSessionTable p id ∈ copySteps s w id
  · obtain ⟨before, after, hsteps, hbefore, hafter, hrows⟩ :=
      stopSteps_split (createSessionTable_mem_stopSteps.mpr hmem)
    rw [hsteps, hrows, Tables.afterAll_append, Tables.afterAll_cons, Tables.sessions_afterAll hafter]
    by_cases hcopied : s.executed (.createSessionTable p id) ∧ w.tables.sessions id p = none
    · have hclear : .clearAllPackets p ∉ before := by
        intro h
        rw [stopSteps] at hsteps
        rcases List.append_eq_append_iff.mp hsteps with ⟨rest, _, hrest⟩ | ⟨rest, hrest, _⟩
        · obtain ⟨q, hq⟩ := clearAllPackets_of_mem_clearSteps
            (hrest ▸ List.mem_append_right rest List.mem_cons_self)
          cases hq
        · rcases List.mem_append.mp (hrest ▸ List.mem_append_left rest h) with h | h
          · exact clearAllPackets_notMem_stepsToTables h
          · exact clearAllPackets_notMem_copySteps h
      rw [if_pos ⟨hmem, hcopied⟩, Tables.copied hcopied.1, Tables.base_afterAll hclear]
      · simp [Schedule.landed]
      · rw [Tables.sessions_afterAll hbefore, hcopied.2]
    · rw [if_neg fun h => hcopied h.2, Tables.not_copied]
      · exact Tables.sessions_afterAll hbefore
      · rwa [Tables.sessions_afterAll hbefore]
  · rw [if_neg fun h => hmem h.1, Tables.sessions_afterAll]
    exact fun h => hmem (createSessionTable_mem_stopSteps.mp h)

/-- A row is taken out of a base table only if the Range's session table has it, and is in its base
table otherwise. -/
def KeepsRows (w w' : World Id Bpf Row) : Prop :=
  ∀ p,
    (∀ row ∈ w'.tables.removed p,
      ∃ range ∈ w.currentRange, ∃ rows ∈ w'.tables.sessions range.id p, row ∈ rows) ∧
    ∀ row ∈ w'.tables.landed p, row ∉ w'.tables.removed p → row ∈ w'.tables.base p

/-- When the stop comes to the tables, each truncation it carries out is of rows that the session
table has. -/
def CopiedBeforeCleared (s : Schedule Id Bpf Row) (w : World Id Bpf Row) : Prop :=
  ∀ range ∈ w.currentRange, reachesTables s w range.id → ∀ p, clears s p →
    rowsAt s w range.id p (.clearAllPackets p) ⊆ sessionRows s w range.id p

def World.observed (w : World Id Bpf Row) : World Id Bpf Row :=
  { w with tables := w.tables.observed }

private theorem mem_sessionRows {row : Row} :
    row ∈ sessionRows s w id p ↔
      ∃ rows ∈ (w.tables.afterAll s (stopSteps s w id)).sessions id p, row ∈ rows := by
  rw [sessions_stop, sessionRows]
  split
  · simp
  · cases w.tables.sessions id p with
    | none => simp
    | some rows => simp

theorem stop_keepsRows_iff (s : Schedule Id Bpf Row) (w : World Id Bpf Row) :
    KeepsRows w (run (answer s) stopRealtimeRangeAsync w.observed).2 ↔ CopiedBeforeCleared s w := by
  have hkept : ∀ steps : List (Step Id), (w.observed.tables.afterAll s steps).Accounted :=
    fun _ => Tables.accounted_afterAll Tables.accounted_observed
  rcases stop_run (s := s) (w := w.observed) with
    ⟨range, hrange, hreaches, stopped, w', hrun, hid, htables⟩ | ⟨hreaches, r, w', hrun, _, hq, _⟩
  · have hone : ∀ other ∈ w.currentRange, other = range := fun other h => Option.mem_unique h hrange
    have hremoved : ∀ p, w'.tables.removed p =
        if clears s p then rowsAt s w range.id p (.clearAllPackets p) else [] := fun p => by
      rw [htables]
      exact removed_stop
    have hsession : ∀ p row, row ∈ sessionRows s w range.id p ↔
        ∃ rows ∈ w'.tables.sessions range.id p, row ∈ rows := fun p row => by
      rw [htables]
      exact mem_sessionRows (w := w.observed)
    rw [hrun]
    constructor
    · intro hkeeps other hother _ p hclears row hrow
      cases hone other hother
      obtain ⟨other, hother, hrows⟩ := (hkeeps p).1 row (by rwa [hremoved, if_pos hclears])
      cases hone other hother
      exact (hsession p row).mpr hrows
    · intro hcovered p
      refine ⟨fun row hrow => ?_, fun row hlanded hrow => ?_⟩
      · rw [hremoved] at hrow
        split at hrow
        case isTrue hclears =>
          exact ⟨range, hrange, (hsession p row).mp (hcovered range hrange hreaches p hclears hrow)⟩
        case isFalse => cases hrow
      · rw [htables] at hlanded hrow ⊢
        exact (hkept _ p row hlanded).resolve_left hrow
  · rw [hrun]
    obtain ⟨steps, hquiet, htables⟩ := hq
    refine iff_of_true (fun p => ?_) fun range hrange h => ?_
    · have hremoved : w'.tables.removed p = [] := by
        rw [htables, Tables.removed_afterAll]
        · rfl
        · exact fun h => Bool.false_ne_true (hquiet _ h)
      rw [hremoved]
      refine ⟨fun row hrow => (nomatch hrow), fun row hlanded _ => ?_⟩
      rw [htables] at hlanded ⊢
      refine (hkept _ p row hlanded).resolve_left fun hrow => ?_
      rw [← htables, hremoved] at hrow
      cases hrow
    · exact absurd ((hreaches range hrange).symm.trans h) Bool.false_ne_true

/-- A stop whose first copy fails; nothing else does, and no row lands. -/
def failedCopy : Schedule ℕ Unit ℕ where
  validated := some
  utcNow := 5
  newGuid := 2
  reply step := if step = .createSessionTable .motion 1 then .failed else .done
  landing _ _ := []

/-- Range 1 is current and has one motion packet. -/
def onePacket : World ℕ Unit ℕ where
  tables :=
    { base := fun p => if p = .motion then [7] else []
      sessions := fun _ _ => none
      landed := fun _ => []
      removed := fun _ => [] }
  ranges := [{ id := 1, startTime := 0, endTime := -1, description := "" }]
  currentRange := some { id := 1, startTime := 0, endTime := -1, description := "", config := none }
  isActive := true

theorem failedCopy_loses_rows :
    ¬KeepsRows onePacket (run (answer failedCopy) stopRealtimeRangeAsync onePacket.observed).2 := by
  intro h
  have hremoved : (run (answer failedCopy) stopRealtimeRangeAsync onePacket.observed).2.tables.removed
      .motion = [7] := by rfl
  have hsession : (run (answer failedCopy) stopRealtimeRangeAsync
      onePacket.observed).2.tables.sessions 1 .motion = none := by rfl
  obtain ⟨range, hrange, rows, hrows, _⟩ := (h .motion).1 7 (by rw [hremoved]; decide)
  cases hrange
  rw [hsession] at hrows
  cases hrows

end Kanat.RangeService
