import Kanat.Telemetry
import Mathlib.Data.List.Chain
import Mathlib.Tactic.SplitIfs

/-! # What the telemetry pushes show, and when

What a step of the broadcaster and of the calls can do is a relation, `Moves`; the invariants rest on it. Past the
last change they leave the broadcaster one wait and one push at most. -/
namespace Kanat.Telemetry

variable {dto dto' : TelemetryDto} {s : TelemetryService}

def Field.Agrees (dto dto' : TelemetryDto) : Field → Prop
  | .counter c => dto.counter c = dto'.counter c
  | .avgLatency => dto.avgLatency = dto'.avgLatency
  | .channel c => dto.channel c = dto'.channel c

private theorem agrees_read (dto : TelemetryDto) (s : TelemetryService) (f : Field) :
    f.Agrees (dto.read s f) s.current := by
  cases f with
  | counter c => exact Function.update_self c _ _
  | avgLatency => rfl
  | channel c => exact Function.update_self c _ _

theorem agrees_read_of_ne {f g : Field} (hne : g ≠ f) (h : g.Agrees dto dto') : g.Agrees (dto.read s f) dto' := by
  cases f with
  | counter c =>
    cases g with
    | counter c' =>
      have hc : c' ≠ c := fun heq => hne (heq ▸ rfl)
      exact (Function.update_of_ne hc _ _).trans h
    | avgLatency => exact h
    | channel c' => exact h
  | avgLatency =>
    cases g with
    | counter c' => exact h
    | avgLatency => exact absurd rfl hne
    | channel c' => exact h
  | channel c =>
    cases g with
    | counter c' => exact h
    | avgLatency => exact h
    | channel c' =>
      have hc : c' ≠ c := fun heq => hne (heq ▸ rfl)
      exact (Function.update_of_ne hc _ _).trans h

private theorem eq_of_agrees (h : ∀ f : Field, f.Agrees dto dto') : dto = dto' :=
  TelemetryDto.ext (funext fun c => h (.counter c)) (h .avgLatency) (funext fun c => h (.channel c))

theorem mem_all (f : Field) : f ∈ Field.all := by
  cases f with
  | counter c => cases c <;> decide
  | avgLatency => decide
  | channel c => cases c <;> decide

/-- When the push under way started, if one is. -/
def Stage.started : Stage → Option ℚ
  | .checking _ started | .reading started _ _ | .sending started _ | .marking started => some started
  | _ => none

/-- No new call, no failure, no stop. -/
def Act.isQuiet : Act → Bool
  | .call _ | .sends false | .stop => false
  | _ => true

namespace World
variable {o : TelemetryBroadcasterOptions} {late : ℚ} {w w' : World} {a : Act} {acts : List Act}

inductive Moves (o : TelemetryBroadcasterOptions) (late : ℚ) (w : World) : Act → World → Prop where
  | tick {d : ℚ} (hd : 0 ≤ d) (hlate : w.stage.isStopped ∨ w.now + d ≤ w.due o + late) :
    Moves o late w (.tick d) { w with now := w.now + d }
  | call (c : Call) : Moves o late w (.call c) { w with threads := w.threads ++ [⟨c.ops, 0, 0⟩] }
  | goes {i : ℕ} {op : Op} {left : List Op} {total count : ℤ} (ht : w.threads[i]? = some ⟨op :: left, total, count⟩) :
    Moves o late w (.goes i) (w.go o i ⟨op :: left, total, count⟩ left op)
  | wakes {u : ℚ} (hs : w.stage = .waiting u) (hn : 0 < w.notifications) :
    Moves o late w .wakes { w with stage := .draining, since := w.due o }
  | timesOut {u : ℚ} (hs : w.stage = .waiting u) (hu : u ≤ w.now) :
    Moves o late w .timesOut { w with stage := .pushing true, since := w.due o }
  | drains (hs : w.stage = .draining) (hn : 0 < w.notifications) :
    Moves o late w .drains { w with notifications := w.notifications - 1 }
  | drained (hs : w.stage = .draining) (hn : w.notifications = 0) :
    Moves o late w .drains { w with stage := .pushing false }
  | limited {ignore : Bool} {last : ℚ} (hs : w.stage = .pushing ignore) (hlast : w.lastPushTime = some last)
    (hl : w.now - last < o.minInterval) : Moves o late w .starts (w.wait o)
  | starts {ignore : Bool} (hs : w.stage = .pushing ignore)
    (hl : ∀ last, w.lastPushTime = some last → o.minInterval ≤ w.now - last) :
    Moves o late w .starts { w with stage := .checking ignore w.now }
  | unchanged {started : ℚ} (hs : w.stage = .checking false started) : Moves o late w .checks (w.wait o)
  | checks {ignore : Bool} {started : ℚ} (hs : w.stage = .checking ignore started) :
    Moves o late w .checks { w with stage := .reading started Field.all .empty, hasInitialPush := true }
  | reads {started : ℚ} {f : Field} {left : List Field} {dto : TelemetryDto}
    (hs : w.stage = .reading started (f :: left) dto) :
    Moves o late w .reads { w with stage := .reading started left (dto.read w.service f) }
  | readAll {started : ℚ} {dto : TelemetryDto} (hs : w.stage = .reading started [] dto) :
    Moves o late w .reads { w with stage := .sending started dto }
  | sent {started : ℚ} {dto : TelemetryDto} (hs : w.stage = .sending started dto) :
    Moves o late w (.sends true) { w with stage := .marking started, pushed := w.pushed ++ [(started, dto)] }
  | failed {started : ℚ} {dto : TelemetryDto} (hs : w.stage = .sending started dto) :
    Moves o late w (.sends false) (w.wait o)
  | marks {started : ℚ} (hs : w.stage = .marking started) :
    Moves o late w .marks
      ({ w with service := { w.service with hasChanges := false }, lastPushTime := some started }.wait o)
  | stop : Moves o late w .stop { w with stage := .stopped }

theorem moves_of_step (h : w.step o late a = some w') : Moves o late w a w' := by
  cases a with
  | tick d =>
    simp only [step] at h
    split_ifs at h with hd
    cases h
    exact .tick hd.1 hd.2
  | call c =>
    cases h
    exact .call c
  | goes i =>
    simp only [step] at h
    split at h
    · next ht =>
      cases h
      exact .goes ht
    · cases h
  | wakes =>
    simp only [step] at h
    split at h
    · next hs =>
      split_ifs at h with hn
      cases h
      exact .wakes hs hn
    · cases h
  | timesOut =>
    simp only [step] at h
    split at h
    · next hs =>
      split_ifs at h with hu
      cases h
      exact .timesOut hs hu
    · cases h
  | drains =>
    simp only [step] at h
    split at h
    · next hs =>
      split_ifs at h with hn
      · cases h
        exact .drains hs hn
      · cases h
        exact .drained hs (by omega)
    · cases h
  | starts =>
    simp only [step] at h
    split at h
    · next hs =>
      split_ifs at h with hl
      · cases h
        cases hlast : w.lastPushTime with
        | none =>
          rw [hlast] at hl
          cases hl
        | some last =>
          rw [hlast] at hl
          exact .limited hs hlast (of_decide_eq_true hl)
      · cases h
        refine .starts hs fun last hlast => not_lt.mp fun hlt => hl ?_
        rw [hlast]
        exact decide_eq_true hlt
    · cases h
  | checks =>
    simp only [step] at h
    split at h
    · next hs =>
      split_ifs at h with hc
      · cases h
        simp only [Bool.and_eq_true, Bool.not_eq_true'] at hc
        rw [hc.1.2] at hs
        exact .unchanged hs
      · cases h
        exact .checks hs
    · cases h
  | reads =>
    simp only [step] at h
    split at h
    · next hs =>
      cases h
      exact .reads hs
    · next hs =>
      cases h
      exact .readAll hs
    · cases h
  | sends answered =>
    simp only [step] at h
    split at h
    · next hs =>
      split_ifs at h with ha
      · cases h
        subst ha
        exact .sent hs
      · cases h
        rw [Bool.not_eq_true] at ha
        subst ha
        exact .failed hs
    · cases h
  | marks =>
    simp only [step] at h
    split at h
    · next hs =>
      cases h
      exact .marks hs
    · cases h
  | stop =>
    cases h
    exact .stop

/-- What every step keeps, every run keeps. -/
theorem run_induction {P : World → Prop} (hstep : ∀ w a w', P w → a ∈ acts → Moves o late w a w' → P w') (h : P w)
    (hrun : w.run o late acts = some w') : P w' := by
  induction acts generalizing w with
  | nil =>
    cases hrun
    exact h
  | cons a acts ih =>
    obtain ⟨w₁, hw₁, hrun⟩ := Option.bind_eq_some_iff.mp hrun
    refine ih (fun w a w' hw ha => hstep w a w' hw (List.mem_cons_of_mem _ ha)) ?_ hrun
    exact hstep w a w₁ h List.mem_cons_self (moves_of_step hw₁)

structure Clocked (o : TelemetryBroadcasterOptions) (late : ℚ) (w : World) : Prop where
  timely : w.stage.isStopped ∨ w.now ≤ w.due o + late
  notified : w.notifiedAt ≤ w.now
  since : w.since ≤ w.now
  entered : ∀ u, w.stage = .waiting u → u - o.minIntervalMs ≤ w.now
  started : ∀ started, w.stage.started = some started → started ≤ w.now
  last : ∀ last, w.lastPushTime = some last → last ≤ w.now

theorem due_of_waiting {u : ℚ} (hs : w.stage = .waiting u) :
    w.due o = if w.notifications = 0 then u else min u (max (u - o.minIntervalMs) w.notifiedAt) := by
  simp only [due, hs]

theorem due_of_not_waiting (hs : ∀ u, w.stage ≠ .waiting u) : w.due o = w.since := by
  unfold due
  split
  · next hw => exact absurd hw (hs _)
  · rfl

theorem due_le {u : ℚ} (hs : w.stage = .waiting u) : w.due o ≤ u := by
  rw [due_of_waiting hs]
  split_ifs
  · exact le_rfl
  · exact min_le_left _ _

theorem due_le_of_notified {u c : ℚ} (hs : w.stage = .waiting u) (hn : 0 < w.notifications)
    (hu : u - o.minIntervalMs ≤ c) (hnotified : w.notifiedAt ≤ c) : w.due o ≤ c := by
  rw [due_of_waiting hs, if_neg (by omega)]
  exact (min_le_right _ _).trans (max_le hu hnotified)

/-- A wait that begins is due no earlier than now. -/
theorem le_due_wait (w : World) : w.now ≤ (w.wait o).due o := by
  have hinterval := o.interval_nonneg
  rw [due_of_waiting rfl]
  split_ifs
  · exact le_add_of_nonneg_right hinterval
  · refine le_min (le_add_of_nonneg_right hinterval) (le_max_of_le_left ?_)
    change w.now ≤ w.now + o.minIntervalMs - o.minIntervalMs
    linarith

theorem Clocked.on_time (h : Clocked o late w) (hlive : w.stage.isStopped = false) : w.now ≤ w.due o + late := by
  refine h.timely.resolve_left ?_
  rw [hlive]
  exact Bool.false_ne_true

theorem Clocked.wait (h : Clocked o late w) (hlate : 0 ≤ late) : Clocked o late (w.wait o) where
  timely := .inr ((le_due_wait w).trans (le_add_of_nonneg_right hlate))
  notified := h.notified
  since := h.since
  entered := by
    rintro u hu
    cases hu
    change w.now + o.minIntervalMs - o.minIntervalMs ≤ w.now
    linarith
  started := nofun
  last := h.last

/-- A notification changes the notifications alone. -/
theorem notify_eq (w : World) : ∃ notifications notifiedAt, w.notify o = { w with notifications, notifiedAt } := by
  rw [notify]
  split_ifs <;> exact ⟨_, _, rfl⟩

/-- A call's step leaves all of the broadcaster but its notifications. -/
theorem go_eq (w : World) (i : ℕ) (t : Thread) (left : List Op) (op : Op) : ∃ notifications notifiedAt,
    w.go o i t left op = { w with
      service := w.service.perform t op
      threads := w.threads.set i (t.perform w.service left op)
      notifications
      notifiedAt } := by
  cases op <;> first | exact ⟨_, _, rfl⟩ | exact notify_eq _

/-- A notification makes no wait due before now. -/
theorem min_le_due_notify (w : World) : min (w.due o) w.now ≤ (w.notify o).due o := by
  by_cases he : o.enabled
  · have hnotify : w.notify o = { w with
        notifications := min CAPACITY (w.notifications + 1)
        notifiedAt := if w.notifications = 0 then w.now else w.notifiedAt } := if_pos he
    by_cases hs : ∃ u, w.stage = .waiting u
    · obtain ⟨u, hs⟩ := hs
      have hpos : ¬(w.notify o).notifications = 0 := by
        rw [hnotify]
        dsimp only
        rw [CAPACITY]
        omega
      have hstage : (w.notify o).stage = .waiting u := by
        rw [hnotify]
        exact hs
      rw [due_of_waiting hs, due_of_waiting hstage, if_neg hpos, hnotify]
      dsimp only
      split_ifs
      · exact min_le_min_left u (le_max_right _ _)
      · exact min_le_left _ _
    · have hnot : ∀ u, w.stage ≠ .waiting u := fun u hu => hs ⟨u, hu⟩
      rw [hnotify, due_of_not_waiting hnot, due_of_not_waiting]
      · exact min_le_left _ _
      · exact hnot
  · rw [notify, if_neg he]
    exact min_le_left _ _

private theorem timely_notify (hlate : 0 ≤ late) (h : w.now ≤ w.due o + late) : w.now ≤ (w.notify o).due o + late := by
  have hle := min_le_due_notify (o := o) w
  rcases min_choice (w.due o) w.now with hmin | hmin <;> linarith

private theorem notifiedAt_notify (h : w.notifiedAt ≤ w.now) : (w.notify o).notifiedAt ≤ (w.notify o).now := by
  rw [notify]
  split_ifs
  · exact le_rfl
  · exact h
  · exact h

theorem Clocked.go (h : Clocked o late w) (hlate : 0 ≤ late) (i : ℕ) (t : Thread) (left : List Op) (op : Op) :
    Clocked o late (w.go o i t left op) := by
  have hnotified : (w.go o i t left op).notifiedAt ≤ (w.go o i t left op).now := by
    cases op <;> first | exact h.notified | exact notifiedAt_notify h.notified
  have htimely : w.stage.isStopped ∨ w.now ≤ (w.go o i t left op).due o + late := by
    refine h.timely.imp_right fun hle => ?_
    cases op <;> first | exact hle | exact timely_notify hlate hle
  obtain ⟨_, _, hgo⟩ := go_eq (o := o) w i t left op
  rw [hgo] at hnotified htimely ⊢
  exact ⟨htimely, hnotified, h.since, h.entered, h.started, h.last⟩

/-- The broadcaster leaves its wait, late from when the wait was due. -/
theorem Clocked.leaves {u : ℚ} {stage : Stage} (h : Clocked o late w) (hs : w.stage = .waiting u)
    (hdue : w.due o ≤ w.now) (hwaiting : ∀ u, stage ≠ .waiting u) (hstarted : stage.started = none) :
    Clocked o late { w with stage, since := w.due o } where
  timely := by
    rw [due_of_not_waiting (w := { w with stage, since := w.due o }) hwaiting]
    exact .inr (h.on_time (hs ▸ rfl))
  notified := h.notified
  since := hdue
  entered := fun u hu => absurd hu (hwaiting u)
  started := by
    intro started hst
    rw [hstarted] at hst
    cases hst
  last := h.last

/-- The broadcaster goes on with a push. -/
theorem Clocked.goes_on {w' : World} (h : Clocked o late w) (hs : ∀ u, w.stage ≠ .waiting u)
    (hlive : w.stage.isStopped = false) (hnow : w'.now = w.now) (hnotified : w'.notifiedAt = w.notifiedAt)
    (hsince : w'.since = w.since) (hlast : w'.lastPushTime = w.lastPushTime) (hwaiting : ∀ u, w'.stage ≠ .waiting u)
    (hstarted : ∀ started, w'.stage.started = some started →
      started = w.now ∨ w.stage.started = some started) : Clocked o late w' where
  timely := by
    refine .inr ?_
    rw [due_of_not_waiting hwaiting, hnow, hsince, ← due_of_not_waiting (o := o) hs]
    exact h.on_time hlive
  notified := by
    rw [hnotified, hnow]
    exact h.notified
  since := by
    rw [hsince, hnow]
    exact h.since
  entered := fun u hu => absurd hu (hwaiting u)
  started := by
    intro started hst
    rw [hnow]
    rcases hstarted started hst with rfl | hst
    · exact le_rfl
    · exact h.started started hst
  last := by
    rw [hlast, hnow]
    exact h.last

theorem Clocked.step (h : Clocked o late w) (hlate : 0 ≤ late) (hstep : Moves o late w a w') :
    Clocked o late w' := by
  cases hstep with
  | tick hd htick =>
    refine ⟨htick, h.notified.trans (le_add_of_nonneg_right hd), h.since.trans (le_add_of_nonneg_right hd),
      fun u hu => (h.entered u hu).trans (le_add_of_nonneg_right hd),
      fun started hst => (h.started started hst).trans (le_add_of_nonneg_right hd),
      fun last hlast => (h.last last hlast).trans (le_add_of_nonneg_right hd)⟩
  | call c => exact ⟨h.timely, h.notified, h.since, h.entered, h.started, h.last⟩
  | goes ht => exact h.go hlate _ _ _ _
  | wakes hs hn => exact h.leaves hs (due_le_of_notified hs hn (h.entered _ hs) h.notified) nofun rfl
  | timesOut hs hu => exact h.leaves hs ((due_le hs).trans hu) nofun rfl
  | drains hs hn =>
    refine h.goes_on (hs ▸ nofun) (hs ▸ rfl) rfl rfl rfl rfl (hs ▸ nofun) fun started hst => .inr hst
  | drained hs hn => exact h.goes_on (hs ▸ nofun) (hs ▸ rfl) rfl rfl rfl rfl nofun nofun
  | limited hs hlast hl => exact h.wait hlate
  | starts hs hl =>
    exact h.goes_on (hs ▸ nofun) (hs ▸ rfl) rfl rfl rfl rfl nofun fun started hst => .inl (Option.some_inj.mp hst).symm
  | unchanged hs => exact h.wait hlate
  | checks hs =>
    exact h.goes_on (hs ▸ nofun) (hs ▸ rfl) rfl rfl rfl rfl nofun fun started hst => .inr (hs ▸ hst)
  | reads hs =>
    exact h.goes_on (hs ▸ nofun) (hs ▸ rfl) rfl rfl rfl rfl nofun fun started hst => .inr (hs ▸ hst)
  | readAll hs =>
    exact h.goes_on (hs ▸ nofun) (hs ▸ rfl) rfl rfl rfl rfl nofun fun started hst => .inr (hs ▸ hst)
  | sent hs =>
    exact h.goes_on (hs ▸ nofun) (hs ▸ rfl) rfl rfl rfl rfl nofun fun started hst => .inr (hs ▸ hst)
  | failed hs => exact h.wait hlate
  | @marks started hs =>
    refine Clocked.wait ?_ hlate
    have hmarked : started ≤ w.now := h.started started (by rw [hs, Stage.started])
    exact ⟨h.timely, h.notified, h.since, h.entered, h.started, fun last hlast => Option.some_inj.mp hlast ▸ hmarked⟩
  | stop => exact ⟨.inl rfl, h.notified, h.since, nofun, nofun, h.last⟩

private theorem clocked_start (hlate : 0 ≤ late) (now : ℚ) : Clocked o late (start o now) := by
  have hstage : ∀ u, (start o now).stage ≠ .waiting u := by
    rw [start]
    dsimp only
    split_ifs <;> nofun
  refine ⟨.inr ?_, le_rfl, le_rfl, fun u hu => absurd hu (hstage u), fun started hst => ?_, nofun⟩
  · rw [due_of_not_waiting hstage]
    exact le_add_of_nonneg_right hlate
  · rw [start] at hst
    dsimp only at hst
    split_ifs at hst <;> cases hst

/-- The snapshot being taken or sent is of `v`. -/
def Ahead (v : TelemetryDto) : Stage → Prop
  | .reading _ left dto => ∀ f ∉ left, f.Agrees dto v
  | .sending _ dto => dto = v
  | _ => True

def Shown (v : TelemetryDto) (w : World) : Prop := w.pushed.getLast?.map Prod.snd = some v

section
variable (o late)

/-- How long past `T` a push may still be held back, or a notification still unread. -/
def grace : ℚ := max late o.minInterval

/-- How long past `T` the wait before the push that shows everything may last. -/
def reach : ℚ := o.minIntervalMs + grace o late + late

/-- The windows may still show what was before `T`, but not for long. -/
def Behind (T : ℚ) (v : TelemetryDto) (w : World) : Prop :=
  (∀ last, w.lastPushTime = some last → last ≤ T) ∧
    match w.stage with
    | .waiting u => u ≤ T + reach o late ∧ (0 < w.notifications → u - o.minIntervalMs ≤ T + grace o late)
    | .draining => w.since ≤ T + grace o late
    | .pushing true | .checking true _ => w.since ≤ T + reach o late
    | .pushing false | .checking false _ => w.since ≤ T + grace o late ∧ (0 < w.notifications → w.since ≤ T)
    | .reading started _ _ | .sending started _ =>
      w.since ≤ T + reach o late ∧ Ahead v w.stage ∨ w.since ≤ T ∧ started ≤ T
    | .marking started => w.since ≤ T ∧ started ≤ T
    | .stopped => False

/-- Of the state past `T`, where no call is under way and the service has `v`. -/
structure Quiet (T : ℚ) (v : TelemetryDto) (w : World) : Prop where
  clocked : Clocked o late w
  idle : ∀ t ∈ w.threads, t.left = []
  shows : w.service.current = v
  notified : w.notifiedAt ≤ T
  phase : Shown v w ∧ Ahead v w.stage ∨ Behind o late T v w

end

variable {T : ℚ} {v : TelemetryDto}

theorem grace_bounds (hlate : 0 ≤ late) :
    late ≤ grace o late ∧ o.minInterval ≤ grace o late ∧ grace o late + o.minIntervalMs + late = reach o late ∧
      grace o late ≤ reach o late := by
  have hinterval := o.interval_nonneg
  have hreach : reach o late = o.minIntervalMs + grace o late + late := rfl
  exact ⟨le_max_left _ _, le_max_right _ _, by linarith, by linarith⟩

private theorem behind_now (hlate : 0 ≤ late) (h : Clocked o late w) (hlive : w.stage.isStopped = false) :
    Behind o late w.now v w := by
  obtain ⟨hgrace, -, hreach, hle⟩ := grace_bounds (o := o) hlate
  have hinterval := o.interval_nonneg
  have hsince := h.since
  refine ⟨h.last, ?_⟩
  split
  · next hs =>
    have hentered := h.entered _ hs
    exact ⟨by linarith, fun _ => by linarith⟩
  · linarith
  · linarith
  · linarith
  · exact ⟨by linarith, fun _ => hsince⟩
  · exact ⟨by linarith, fun _ => hsince⟩
  · next hs => exact .inr ⟨hsince, h.started _ (by rw [hs, Stage.started])⟩
  · next hs => exact .inr ⟨hsince, h.started _ (by rw [hs, Stage.started])⟩
  · next hs => exact ⟨hsince, h.started _ (by rw [hs, Stage.started])⟩
  · next hs =>
    rw [hs] at hlive
    cases hlive

/-- A wait that begins in time. -/
theorem Behind.wait {lastPushTime : Option ℚ} (hlast : ∀ last, lastPushTime = some last → last ≤ T)
    (hnow : w.now + o.minIntervalMs ≤ T + reach o late) (hn : 0 < w.notifications → w.now ≤ T + grace o late) :
    Behind o late T v ({ w with lastPushTime }.wait o) := by
  refine ⟨hlast, hnow, fun hpos => ?_⟩
  change w.now + o.minIntervalMs - o.minIntervalMs ≤ _
  have hle := hn hpos
  linarith

theorem Clocked.now_le (h : Clocked o late w) (hs : ∀ u, w.stage ≠ .waiting u)
    (hlive : w.stage.isStopped = false) : w.now ≤ w.since + late := by
  rw [← due_of_not_waiting (o := o) hs]
  exact h.on_time hlive

theorem ahead_reads {started : ℚ} {f : Field} {left : List Field} {dto : TelemetryDto} {s : TelemetryService}
    (hv : s.current = v) (h : Ahead v (.reading started (f :: left) dto)) :
    Ahead v (.reading started left (dto.read s f)) := by
  intro g hg
  by_cases hgf : g = f
  · rw [hgf, ← hv]
    exact agrees_read dto s f
  · refine agrees_read_of_ne hgf (h g fun hmem => ?_)
    exact hg (List.mem_of_ne_of_mem hgf hmem)

theorem ahead_readAll {started : ℚ} {dto : TelemetryDto} (h : Ahead v (.reading started [] dto)) :
    Ahead v (.sending started dto) :=
  eq_of_agrees fun f => h f List.not_mem_nil

theorem ahead_checks (started : ℚ) : Ahead v (.reading started Field.all .empty) := fun f hf => absurd (mem_all f) hf

theorem Quiet.step (hlate : 0 ≤ late) (h : Quiet o late T v w) (ha : a.isQuiet) (hstep : Moves o late w a w') :
    Quiet o late T v w' := by
  have hclocked := h.clocked.step hlate hstep
  obtain ⟨hgrace, hpush, hreach, hle⟩ := grace_bounds (o := o) hlate
  cases hstep with
  | tick hd htick => exact ⟨hclocked, h.idle, h.shows, h.notified, h.phase⟩
  | call c => cases ha
  | goes ht =>
    have hleft := h.idle _ (List.mem_of_getElem? ht)
    cases hleft
  | wakes hs hn =>
    refine ⟨hclocked, h.idle, h.shows, h.notified, h.phase.imp (fun hshown => ⟨hshown.1, trivial⟩) ?_⟩
    rintro ⟨hlast, hbehind⟩
    rw [hs] at hbehind
    exact ⟨hlast, due_le_of_notified hs hn (hbehind.2 hn) (h.notified.trans (by linarith))⟩
  | timesOut hs hu =>
    refine ⟨hclocked, h.idle, h.shows, h.notified, h.phase.imp (fun hshown => ⟨hshown.1, trivial⟩) ?_⟩
    rintro ⟨hlast, hbehind⟩
    rw [hs] at hbehind
    exact ⟨hlast, (due_le hs).trans hbehind.1⟩
  | drains hs hn =>
    refine ⟨hclocked, h.idle, h.shows, h.notified, h.phase.imp id ?_⟩
    rintro ⟨hlast, hbehind⟩
    refine ⟨hlast, ?_⟩
    rw [hs] at hbehind
    dsimp only
    rw [hs]
    exact hbehind
  | drained hs hn =>
    refine ⟨hclocked, h.idle, h.shows, h.notified, h.phase.imp (fun hshown => ⟨hshown.1, trivial⟩) ?_⟩
    rintro ⟨hlast, hbehind⟩
    rw [hs] at hbehind
    exact ⟨hlast, hbehind, fun hpos => absurd hpos (by dsimp only; omega)⟩
  | limited hs hlast hl =>
    refine ⟨hclocked, h.idle, h.shows, h.notified, h.phase.imp (fun hshown => ⟨hshown.1, trivial⟩) fun hbehind => ?_⟩
    have hlastle := hbehind.1 _ hlast
    exact Behind.wait hbehind.1 (by linarith) fun _ => by linarith
  | @starts ignore hs hl =>
    refine ⟨hclocked, h.idle, h.shows, h.notified, h.phase.imp (fun hshown => ⟨hshown.1, trivial⟩) ?_⟩
    rintro ⟨hlast, hbehind⟩
    rw [hs] at hbehind
    cases ignore with
    | true => exact ⟨hlast, hbehind⟩
    | false => exact ⟨hlast, hbehind⟩
  | unchanged hs =>
    refine ⟨hclocked, h.idle, h.shows, h.notified, h.phase.imp (fun hshown => ⟨hshown.1, trivial⟩) ?_⟩
    rintro ⟨hlast, hbehind⟩
    rw [hs] at hbehind
    have hnow := h.clocked.now_le (hs ▸ nofun) (hs ▸ rfl)
    refine Behind.wait hlast ?_ fun hpos => ?_
    · have hsince := hbehind.1
      linarith
    · have hsince := hbehind.2 hpos
      linarith
  | @checks ignore started hs =>
    refine ⟨hclocked, h.idle, h.shows, h.notified, h.phase.imp (fun hshown => ⟨hshown.1, ahead_checks started⟩) ?_⟩
    rintro ⟨hlast, hbehind⟩
    rw [hs] at hbehind
    refine ⟨hlast, .inl ⟨?_, ahead_checks started⟩⟩
    cases ignore with
    | true => exact hbehind
    | false => exact hbehind.1.trans (by linarith)
  | reads hs =>
    refine ⟨hclocked, h.idle, h.shows, h.notified, ?_⟩
    rcases h.phase with ⟨hshown, hahead⟩ | ⟨hlast, hbehind⟩
    · rw [hs] at hahead
      exact .inl ⟨hshown, ahead_reads h.shows hahead⟩
    · simp only [hs] at hbehind
      exact .inr ⟨hlast, hbehind.imp_left fun hin => ⟨hin.1, ahead_reads h.shows hin.2⟩⟩
  | readAll hs =>
    refine ⟨hclocked, h.idle, h.shows, h.notified, ?_⟩
    rcases h.phase with ⟨hshown, hahead⟩ | ⟨hlast, hbehind⟩
    · rw [hs] at hahead
      exact .inl ⟨hshown, ahead_readAll hahead⟩
    · simp only [hs] at hbehind
      exact .inr ⟨hlast, hbehind.imp_left fun hin => ⟨hin.1, ahead_readAll hin.2⟩⟩
  | @sent started dto hs =>
    refine ⟨hclocked, h.idle, h.shows, h.notified, ?_⟩
    have hshown : dto = v → Shown v { w with stage := .marking started, pushed := w.pushed ++ [(started, dto)] } := by
      rintro rfl
      change (w.pushed ++ [(started, dto)]).getLast?.map Prod.snd = some dto
      rw [List.getLast?_concat]
      rfl
    rcases h.phase with ⟨-, hahead⟩ | ⟨hlast, hbehind⟩
    · rw [hs] at hahead
      exact .inl ⟨hshown hahead, trivial⟩
    · simp only [hs] at hbehind
      rcases hbehind with ⟨-, hahead⟩ | hbefore
      · exact .inl ⟨hshown hahead, trivial⟩
      · exact .inr ⟨hlast, hbefore⟩
  | failed hs => cases ha
  | @marks started hs =>
    refine ⟨hclocked, h.idle, h.shows, h.notified, h.phase.imp (fun hshown => ⟨hshown.1, trivial⟩) ?_⟩
    rintro ⟨-, hbehind⟩
    simp only [hs] at hbehind
    obtain ⟨hsince, hstarted⟩ := hbehind
    have hnow := h.clocked.now_le (hs ▸ nofun) (hs ▸ rfl)
    refine Behind.wait (w := { w with service := { w.service with hasChanges := false } })
      (fun last hlast => Option.some_inj.mp hlast ▸ hstarted) ?_ fun _ => ?_
    · change w.now + o.minIntervalMs ≤ _
      linarith
    · change w.now ≤ _
      linarith
  | stop => cases ha

/-- A window that is behind is not behind for long. -/
theorem Behind.now_le (hlate : 0 ≤ late) (h : Behind o late T v w) (hclocked : Clocked o late w) :
    w.now ≤ T + reach o late + late := by
  obtain ⟨hgrace, -, hreach, hle⟩ := grace_bounds (o := o) hlate
  have hinterval := o.interval_nonneg
  obtain ⟨hlast, hbehind⟩ := h
  by_cases hs : ∃ u, w.stage = .waiting u
  · obtain ⟨u, hs⟩ := hs
    rw [hs] at hbehind
    have hnow := hclocked.on_time (hs ▸ rfl)
    have hdue := due_le (o := o) hs
    have hu := hbehind.1
    linarith
  · have hnot : ∀ u, w.stage ≠ .waiting u := fun u hu => hs ⟨u, hu⟩
    have hsince : w.since ≤ T + reach o late := by
      split at hbehind
      · next hw => exact absurd hw (hnot _)
      · linarith
      · exact hbehind
      · exact hbehind
      · linarith [hbehind.1]
      · linarith [hbehind.1]
      · rcases hbehind with hin | hbefore
        · exact hin.1
        · linarith [hbefore.1]
      · rcases hbehind with hin | hbefore
        · exact hin.1
        · linarith [hbefore.1]
      · linarith [hbehind.1]
      · exact hbehind.elim
    have hlive : w.stage.isStopped = false := by
      cases hw : w.stage <;> first | rfl | skip
      rw [hw] at hbehind
      exact hbehind.elim
    have hnow := hclocked.now_le hnot hlive
    linarith

theorem clocked_run {now : ℚ} (hlate : 0 ≤ late) (hrun : (start o now).run o late acts = some w) : Clocked o late w :=
  run_induction (fun _ _ _ h _ hmoves => h.step hlate hmoves) (clocked_start hlate now) hrun

/-- Nothing that changed stays unseen: whenever the calls of the service are all through, the windows show what it has
within a wait, the time between pushes and twice the broadcaster's lateness, although a push under way may have cleared
the mark of a change it did not show. -/
theorem changes_shown {now : ℚ} {done later : List Act} (hlate : 0 ≤ late)
    (hdone : (start o now).run o late done = some w) (hlive : w.stage.isStopped = false)
    (hidle : ∀ t ∈ w.threads, t.left = []) (hquiet : ∀ a ∈ later, a.isQuiet)
    (hlater : w.run o late later = some w')
    (hwhen : w.now + o.minIntervalMs + max late o.minInterval + 2 * late < w'.now) :
    Shown w.service.current w' ∧ w'.service.current = w.service.current := by
  have hclocked := clocked_run hlate hdone
  have hstart : Quiet o late w.now w.service.current w :=
    ⟨hclocked, hidle, rfl, hclocked.notified, .inr (behind_now hlate hclocked hlive)⟩
  have h : Quiet o late w.now w.service.current w' :=
    run_induction (fun _ _ _ h ha hmoves => h.step hlate (hquiet _ ha) hmoves) hstart hlater
  refine ⟨?_, h.shows⟩
  rcases h.phase with hshown | hbehind
  · exact hshown.1
  · have hle := hbehind.now_le hlate h.clocked
    have hreach : reach o late = o.minIntervalMs + max late o.minInterval + late := rfl
    linarith

/-- A packet is captured while the first push is read, after the counter is. -/
def countedWhileRead : List Act :=
  [.starts, .checks, .reads, .call (.increment .captured 5), .goes 0, .goes 0, .goes 0] ++
    List.replicate 31 .reads ++ [.sends true, .marks]

def pushAgain : List Act := [.timesOut, .starts, .checks] ++ List.replicate 32 .reads ++ [.sends true, .marks]

/-- Its notification finds nothing marked as changed, or comes too soon. -/
def pushedTwiceMore : List Act :=
  [.wakes, .drains, .drains, .starts, .tick 100] ++ pushAgain ++ .tick 100 :: pushAgain ++ [.tick 1]

theorem changes_shown_overtaken : ∃ w w', (start .default 0).run .default 0 countedWhileRead = some w ∧
    w.run .default 0 pushedTwiceMore = some w' ∧ Shown w.service.current w' ∧ w.service.hasChanges = false ∧
      w'.pushed.map (fun push => push.2.counter .captured) = [0, 5, 5] := by
  have hruns : ((start .default 0).run .default 0 countedWhileRead).isSome := by decide
  obtain ⟨w, hw⟩ := Option.isSome_iff_exists.mp hruns
  have hfacts : ∀ w ∈ (start .default 0).run .default 0 countedWhileRead, w.stage.isStopped = false ∧
      (∀ t ∈ w.threads, t.left = []) ∧ w.service.hasChanges = false ∧ w.now = 0 := by
    decide
  obtain ⟨hlive, hidle, hflag, hnow⟩ := hfacts w hw
  have hlater : ∀ w ∈ (start .default 0).run .default 0 countedWhileRead, ∃ w' ∈ w.run .default 0 pushedTwiceMore,
      w'.now = 201 ∧ w'.pushed.map (fun push => push.2.counter .captured) = [0, 5, 5] := by
    decide +kernel
  obtain ⟨w', hw', hnow', hpushed⟩ := hlater w hw
  have hinterval : TelemetryBroadcasterOptions.default.minInterval = 100 := by decide +kernel
  have hwhen : w.now + (100 : ℚ) + max 0 TelemetryBroadcasterOptions.default.minInterval + 2 * 0 < w'.now := by
    rw [hnow, hnow', hinterval]
    norm_num
  have hshown := changes_shown (o := .default) le_rfl hw hlive hidle (by decide) hw' hwhen
  exact ⟨w, w', hw, hw', hshown.1, hflag, hpushed⟩

end World
end Kanat.Telemetry
