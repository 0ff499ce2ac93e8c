import Kanat.OneCapture
import Kanat.RangeModelValidator
import Kanat.RangeServiceStarts

/-! # What a start that fails leaves behind

The Range service together with the devices its handlers capture on. -/
namespace Kanat.RangeService
open ResumptionPrograms ScheduledPrograms

variable {Id Row α : Type}

structure Host (Id Row : Type) where
  service : World Id BPFConfDto Row
  devices : DeviceService.World Pipe

/-- What a start meets outside the service: the devices listed to it, unless that fails, and what each handler's
subscription finds. -/
structure Surroundings where
  toUpperInvariant : Char → Char
  configuration : Configuration
  available : Option (List String)
  attempt : Pipe → DeviceService.Attempt

def Surroundings.validated (e : Surroundings) (range : RangeDto Id BPFConfDto) : Option (RangeDto Id BPFConfDto) :=
  e.available.bind fun available =>
    (RangeModelValidator.validateAndHydrate e.toUpperInvariant available e.configuration range).toOption

/-- The handler's device is there by this very name. -/
def Surroundings.subscribes (e : Surroundings) (config : BPFConfDto) (p : Pipe) : Bool :=
  !isNullOrWhiteSpace config.device &&
    ((e.attempt p).devices.find? fun d => d.name = config.device.getD "").any DeviceService.BaseDevice.hasInterface

section
variable [DecidableEq Id] (e : Surroundings) (s : Schedule Id BPFConfDto Row)

/-- The validation and the subscriptions are the ones that look beyond the service. -/
def Host.answer (h : Host Id Row) (o : Op Id BPFConfDto) : Ans Id BPFConfDto o × Host Id Row :=
  let w := (RangeService.answer s h.service o).2
  match o with
  | .validateAndHydrate range =>
      (match e.validated range with
        | some validated => .ok validated
        | none => .error .validateAndHydrate, { h with service := w })
  | .subscribe p config =>
      let subscribed := HandlerService.subscribeToDevice e.configuration config (e.attempt p) p h.devices
      (subscribed.1.mapError fun _ => .subscribe p, ⟨w, subscribed.2⟩)
  | o => ((RangeService.answer s h.service o).1, { h with service := w })

def Host.start (h : Host Id Row) (range : RangeDto Id BPFConfDto) :
    Except (Step Id) (RangeDto Id BPFConfDto) × Host Id Row :=
  run (Host.answer e s) (startRealtimeRangeAsync range) h

end

/-- Is a packet type being captured? -/
def Host.Captures (h : Host Id Row) (p : Pipe) : Prop := ∃ dev ∈ h.devices.capturing, dev.observer = p

/-- Of the tables, whatever landed meanwhile is there too. -/
structure Host.Untouched (h h' : Host Id Row) : Prop where
  tables : ∀ p, ∃ rows, h'.service.tables.landed p = h.service.tables.landed p ++ rows ∧
    h'.service.tables.base p = h.service.tables.base p ++ rows
  ranges : h'.service.ranges = h.service.ranges
  currentRange : h'.service.currentRange = h.service.currentRange
  isActive : h'.service.isActive = h.service.isActive
  captures : ∀ p, h'.Captures p ↔ h.Captures p

/-- A call that stays within the service. -/
def Op.within (o : Op Id BPFConfDto) : Prop :=
  (∀ range, o ≠ .validateAndHydrate range) ∧ ∀ p config, o ≠ .subscribe p config

section
variable [DecidableEq Id] {e : Surroundings} {s : Schedule Id BPFConfDto Row} {h : Host Id Row}
  {range : RangeDto Id BPFConfDto} {config : BPFConfDto}

theorem run_within {p : Program Id BPFConfDto α} (hp : Watched (fun o => Op.within o) p) (h : Host Id Row) :
    run (Host.answer e s) p h =
      ((run (RangeService.answer s) p h.service).1,
        { h with service := (run (RangeService.answer s) p h.service).2 }) := by
  refine run_map (f := fun w => ({ h with service := w } : Host Id Row)) (fun w o ho => ?_) hp h.service
  cases o with
  | validateAndHydrate range => exact absurd rfl (ho.1 range)
  | subscribe p config => exact absurd rfl (ho.2 p config)
  | _ => rfl

/-- With the devices as one handler's subscription leaves them. -/
def Host.subscribe (e : Surroundings) (s : Schedule Id BPFConfDto Row) (config : BPFConfDto) (h : Host Id Row)
    (p : Pipe) : Host Id Row where
  service := h.service.afterAll s [.subscribe p]
  devices := (HandlerService.subscribeToDevice e.configuration config (e.attempt p) p h.devices).2

omit [DecidableEq Id] in
private theorem subscribeToDevice_eq_ok {w : DeviceService.World Pipe} {p : Pipe} :
    (HandlerService.subscribeToDevice e.configuration config (e.attempt p) p w).1 = .ok () ↔
      e.subscribes config p = true := by
  rw [HandlerService.subscribeToDevice, Surroundings.subscribes]
  cases isNullOrWhiteSpace config.device with
  | true => exact iff_of_false (fun h => by cases h) (by simp)
  | false =>
    rw [if_neg Bool.false_ne_true, DeviceService.World.subscribeWithFilter]
    cases (e.attempt p).devices.find? fun d => d.name = config.device.getD "" with
    | none => exact iff_of_false (fun h => by cases h) (by simp)
    | some baseDev =>
      cases hinterface : baseDev.hasInterface with
      | false =>
        dsimp only
        rw [if_neg (by simp [hinterface])]
        exact iff_of_false (fun h => by cases h) (by simp [hinterface])
      | true =>
        refine iff_of_true ?_ (by simp [hinterface])
        dsimp only
        rw [if_pos hinterface]
        split_ifs <;> rfl

theorem subscribe_host (p : Pipe) (h : Host Id Row) :
    (run (Host.answer e s) (perform (.subscribe p config) >>= Prog.ofExcept) h).2 = h.subscribe e s config p ∧
      ((run (Host.answer e s) (perform (.subscribe p config) >>= Prog.ofExcept) h).1 = .ok () ↔
        e.subscribes config p = true) := by
  have hrun : run (Host.answer e s) (perform (.subscribe p config) >>= Prog.ofExcept) h =
      ((HandlerService.subscribeToDevice e.configuration config (e.attempt p) p h.devices).1.mapError
        fun _ => .subscribe p, h.subscribe e s config p) := run_ofExcept
  rw [hrun, ← subscribeToDevice_eq_ok (w := h.devices)]
  refine ⟨rfl, ?_⟩
  cases (HandlerService.subscribeToDevice e.configuration config (e.attempt p) p h.devices).1 with
  | ok u => exact iff_of_true rfl rfl
  | error x => exact iff_of_false (fun h => by cases h) fun h => by cases h

/-- The handlers before the one that fails have subscribed. -/
theorem startAsync_failed {step : Step Id}
    (hfail : (run (Host.answer e s) (Realtime.startAsync config) h).1 = .error step) :
    pipes.all (e.subscribes config) = false ∧ (run (Host.answer e s) (Realtime.startAsync config) h).2 =
      (attempted (e.subscribes config) pipes).foldl (Host.subscribe e s config) h := by
  have hloop : (run (Host.answer e s) (pipes.forM fun p => perform (.subscribe p config) >>= Prog.ofExcept) h).2 =
      (attempted (e.subscribes config) pipes).foldl (Host.subscribe e s config) h ∧
        ((run (Host.answer e s) (pipes.forM fun p => perform (.subscribe p config) >>= Prog.ofExcept) h).1 = .ok () ↔
          pipes.all (e.subscribes config)) :=
    run_forM (fun _ _ => True) (fun p _ h _ => ⟨(subscribe_host p h).1, (subscribe_host p h).2, trivial⟩) trivial
  rw [Realtime.startAsync, Prog.bind_eq, run_bind] at hfail ⊢
  generalize run (Host.answer e s) (pipes.forM fun p => perform (.subscribe p config) >>= Prog.ofExcept) h = r
    at hloop hfail
  obtain ⟨hh, hok⟩ := hloop
  obtain ⟨r, h'⟩ := r
  cases hh
  cases r with
  | ok u => cases hfail
  | error x => exact ⟨Bool.eq_false_iff.mpr fun hall => (by cases hok.mpr hall), rfl⟩

theorem foldl_subscribe (ps : List Pipe) (h : Host Id Row) :
    (ps.foldl (Host.subscribe e s config) h).service = h.service.afterAll s (ps.map .subscribe) := by
  induction ps generalizing h with
  | nil => rfl
  | cons p ps ih => exact (ih _).trans World.afterAll_append.symm

/-- The handler's device opens, takes the filter and starts. -/
def Surroundings.comesUp (e : Surroundings) (config : BPFConfDto) (p : Pipe) : Bool :=
  !isNullOrWhiteSpace config.device && (e.attempt p).comesUp (config.device.getD "")

/-- A subscription adds its own handler to those capturing, if its device comes up. -/
theorem captures_subscribe {p q : Pipe} :
    (h.subscribe e s config p).Captures q ↔ h.Captures q ∨ q = p ∧ e.comesUp config p = true := by
  rw [Host.Captures, Host.subscribe, HandlerService.subscribeToDevice, Surroundings.comesUp]
  cases isNullOrWhiteSpace config.device with
  | true =>
    refine (or_iff_left ?_).symm
    rintro ⟨-, hup⟩
    cases hup
  | false =>
    dsimp only
    rw [if_neg Bool.false_ne_true, DeviceService.capturing_subscribe]
    cases (e.attempt p).comesUp (config.device.getD "") with
    | true =>
      constructor
      · rintro ⟨dev, hdev, rfl⟩
        rcases List.mem_append.mp hdev with hdev | hdev
        · exact .inl ⟨dev, hdev, rfl⟩
        · rw [if_pos rfl, List.mem_singleton] at hdev
          exact .inr ⟨by rw [hdev]; rfl, rfl⟩
      · rintro (⟨dev, hdev, rfl⟩ | ⟨rfl, -⟩)
        · exact ⟨dev, List.mem_append_left _ hdev, rfl⟩
        · exact ⟨_, List.mem_append_right _ List.mem_cons_self, rfl⟩
    | false =>
      rw [if_neg Bool.false_ne_true, List.append_nil]
      refine (or_iff_left ?_).symm
      rintro ⟨-, hup⟩
      cases hup

private theorem captures_foldl {ps : List Pipe} {q : Pipe} (h : Host Id Row) :
    (ps.foldl (Host.subscribe e s config) h).Captures q ↔ h.Captures q ∨ q ∈ ps ∧ e.comesUp config q = true := by
  induction ps generalizing h with
  | nil => simp
  | cons p ps ih =>
    rw [List.foldl_cons, ih, captures_subscribe, or_assoc, List.mem_cons]
    refine or_congr_right ⟨?_, ?_⟩
    · rintro (⟨rfl, hup⟩ | ⟨hq, hup⟩)
      · exact ⟨.inl rfl, hup⟩
      · exact ⟨.inr hq, hup⟩
    · rintro ⟨rfl | hq, hup⟩
      · exact .inl ⟨rfl, hup⟩
      · exact .inr ⟨hq, hup⟩

omit [DecidableEq Id] in
private theorem config_of_validated {validated : RangeDto Id BPFConfDto} (hv : e.validated range = some validated) :
    ∃ config, validated.config.bind RangeConfig.bpfConfig = some config := by
  obtain ⟨available, -, hok⟩ := Option.bind_eq_some_iff.mp hv
  cases hval : RangeModelValidator.validateAndHydrate e.toUpperInvariant available e.configuration range with
  | error x =>
    rw [hval] at hok
    cases hok
  | ok validated' =>
    rw [hval] at hok
    cases hok
    obtain ⟨config, bpf, -, -, -, -, rfl⟩ := RangeModelValidator.validateAndHydrate_eq_ok.mp hval
    exact ⟨_, rfl⟩

private theorem start_host_refused (h : Host Id Row) (hv : e.validated range = none) :
    h.start e s range =
      (.error .validateAndHydrate, { h with service := h.service.afterAll s [.validateAndHydrate] }) := by
  have hanswer : Host.answer e s h (.validateAndHydrate range) =
      (.error .validateAndHydrate, { h with service := h.service.afterAll s [.validateAndHydrate] }) := by
    rw [Host.answer, hv]
    rfl
  show run (Host.answer e s) (Prog.call (.validateAndHydrate range) _) h = _
  rw [run_call, hanswer]
  rfl

/-- Once validated, a start clears the base tables and makes the Range. -/
theorem start_host_validated (h : Host Id Row) {validated : RangeDto Id BPFConfDto}
    (hv : e.validated range = some validated) (hconfig : validated.config.bind RangeConfig.bpfConfig = some config) :
    h.start e s range = run (Host.answer e s) (beginRange { validated with startTime := s.utcNow } config)
      { h with service := (h.service.afterAll s [.validateAndHydrate, .utcNow]).afterAll s (clearSteps s) } := by
  have hvalidate : run (Host.answer e s) (perform (.validateAndHydrate range) >>= Prog.ofExcept) h =
      (.ok validated, { h with service := h.service.afterAll s [.validateAndHydrate] }) := by
    have hanswer : Host.answer e s h (.validateAndHydrate range) =
        (.ok validated, { h with service := h.service.afterAll s [.validateAndHydrate] }) := by
      rw [Host.answer, hv]
      rfl
    show run (Host.answer e s) (Prog.call (.validateAndHydrate range) _) h = _
    rw [run_call, hanswer]
    rfl
  rw [Host.start, startRealtimeRangeAsync, Prog.bind_eq, run_bind, hvalidate]
  dsimp only
  rw [hconfig]
  show run (Host.answer e s) (Prog.call .utcNow _) _ = _
  rw [run_call]
  show run (Host.answer e s)
    ((tryCatch (pipes.forM clearAllPacketsAsync) fun _ => pure ()).bind fun _ => beginRange _ config)
    { h with service := h.service.afterAll s [.validateAndHydrate, .utcNow] } = _
  rw [run_bind, run_within (watched_clears fun p => ⟨by simp, by simp⟩), clears_run]
  rfl

/-- The Range as the service holds it once it is made. -/
def RangeDto.current {Bpf : Type} (dto : RangeDto Id Bpf) (newGuid : Id) : RangeDto Id Bpf :=
  { (RangeMapper.toDto (dto.made newGuid) : RangeDto Id Bpf) with config := dto.config }

theorem run_createRange (h : Host Id Row) (dto : RangeDto Id BPFConfDto) :
    run (Host.answer e s) (createRangeAsync dto) h =
      ((s.told .add).map fun _ => RangeMapper.toDto (dto.made s.newGuid), { h with service :=
        (RangeService.answer s (h.service.afterAll s [.newGuid]) (.add (dto.made s.newGuid))).2 }) := by
  rw [run_within (watched_createRange dto ⟨by simp, by simp⟩ fun _ => ⟨by simp, by simp⟩), createRange_run]

private theorem begin_host_unmade (h : Host Id Row) (dto : RangeDto Id BPFConfDto) (hadd : s.done .add = false) :
    run (Host.answer e s) (beginRange dto config) h = (.error .add, { h with service :=
      (RangeService.answer s (h.service.afterAll s [.newGuid]) (.add (dto.made s.newGuid))).2 }) := by
  rw [beginRange, Prog.bind_eq, run_bind, run_createRange, Schedule.told, hadd]
  rfl

/-- The service with the Range made and current. -/
def Host.making (s : Schedule Id BPFConfDto Row) (dto : RangeDto Id BPFConfDto) (h : Host Id Row) : Host Id Row :=
  { h with service := { h.service.afterAll s [.newGuid, .add, .setCurrentRange] with
      ranges := h.service.ranges ++ [dto.made s.newGuid]
      currentRange := some (dto.current s.newGuid) } }

/-- Once its row is written a Range stays made and current, whatever becomes of the subscriptions. -/
theorem begin_host_made (h : Host Id Row) (dto : RangeDto Id BPFConfDto) (hadd : s.done .add = true) {step : Step Id}
    (hfail : (run (Host.answer e s) (beginRange dto config) h).1 = .error step) :
    pipes.all (e.subscribes config) = false ∧ (run (Host.answer e s) (beginRange dto config) h).2 =
      (attempted (e.subscribes config) pipes).foldl (Host.subscribe e s config) (h.making s dto) := by
  have hadded : (RangeService.answer s (h.service.afterAll s [.newGuid]) (.add (dto.made s.newGuid))).2 =
      { h.service.afterAll s [.newGuid, .add] with ranges := h.service.ranges ++ [dto.made s.newGuid] } :=
    if_pos (executed_of_done hadd)
  have hrun : run (Host.answer e s) (beginRange dto config) h =
      run (Host.answer e s) ((Realtime.startAsync config).bind fun _ => pure (dto.current s.newGuid))
        (h.making s dto) := by
    rw [beginRange, Prog.bind_eq, run_bind, run_createRange, Schedule.told, hadd, if_pos rfl, hadded]
    rfl
  rw [hrun, run_bind] at hfail ⊢
  have hstart : ∀ x, (run (Host.answer e s) (Realtime.startAsync config) (h.making s dto)).1 = .error x → _ :=
    fun x hx => startAsync_failed hx
  generalize run (Host.answer e s) (Realtime.startAsync config) (h.making s dto) = r at hfail hstart ⊢
  obtain ⟨r, h'⟩ := r
  cases r with
  | ok u => cases hfail
  | error x => exact hstart x rfl

theorem answer_add (w : World Id BPFConfDto Row) (entity : RangeEntity Id) :
    (RangeService.answer s w (.add entity)).2 = { w with
      tables := w.tables.after s .add
      ranges := if s.executed .add then w.ranges ++ [entity] else w.ranges } := by
  show (if s.executed .add then _ else _ : World Id BPFConfDto Row) = _
  split <;> rfl

/-- How a start fails, and what is left: refused by the validation; at the Range's row, which may be there all the same;
or at a subscription, with the Range made and current and the handlers before it subscribed. -/
theorem start_failed {step : Step Id} (hfail : (h.start e s range).1 = .error step) :
    (e.validated range = none ∧ (h.start e s range).2 =
      { h with service := h.service.afterAll s [.validateAndHydrate] }) ∨
    ((e.validated range).isSome ∧ s.done .add = false ∧ ∃ dto : RangeDto Id BPFConfDto, (h.start e s range).2 =
      { h with service := (RangeService.answer s (h.service.afterAll s ([.validateAndHydrate, .utcNow] ++ clearSteps s ++
        [.newGuid])) (.add (dto.made s.newGuid))).2 }) ∨
    ((e.validated range).isSome ∧ s.done .add = true ∧ ∃ (config : BPFConfDto) (dto : RangeDto Id BPFConfDto),
      pipes.all (e.subscribes config) = false ∧ (h.start e s range).2 =
        (attempted (e.subscribes config) pipes).foldl (Host.subscribe e s config) (Host.making s dto
          { h with service := h.service.afterAll s ([.validateAndHydrate, .utcNow] ++ clearSteps s) })) := by
  cases hv : e.validated range with
  | none =>
    rw [start_host_refused h hv]
    exact .inl ⟨rfl, rfl⟩
  | some validated =>
    obtain ⟨config, hconfig⟩ := config_of_validated hv
    rw [start_host_validated h hv hconfig] at hfail ⊢
    rw [World.afterAll_append, World.afterAll_append]
    cases hadd : s.done .add with
    | false =>
      rw [begin_host_unmade _ _ hadd]
      exact .inr (.inl ⟨rfl, rfl, _, rfl⟩)
    | true =>
      obtain ⟨hall, hleft⟩ := begin_host_made _ _ hadd hfail
      exact .inr (.inr ⟨rfl, rfl, config, _, hall, hleft⟩)

/-- Failed at a subscription, the start leaves its Range without an end and current, the service not active for it, and
the handlers it came to before capturing. -/
theorem failed_subscription_leaves {step : Step Id} (hfail : (h.start e s range).1 = .error step)
    (hv : (e.validated range).isSome) (hadd : s.done .add = true) :
    ∃ (config : BPFConfDto) (entity : RangeEntity Id), entity.id = s.newGuid ∧ entity.endTime = -1 ∧
      (h.start e s range).2.service.ranges = h.service.ranges ++ [entity] ∧
      (h.start e s range).2.service.currentRange.map RangeDto.id = some s.newGuid ∧
      (h.start e s range).2.service.isActive = h.service.isActive ∧
      ∀ p, (h.start e s range).2.Captures p ↔
        h.Captures p ∨ p ∈ attempted (e.subscribes config) pipes ∧ e.comesUp config p = true := by
  rcases start_failed hfail with ⟨hn, -⟩ | ⟨-, hnot, -⟩ | ⟨-, -, config, dto, -, hleft⟩
  · rw [hn] at hv
    cases hv
  · rw [hnot] at hadd
    cases hadd
  · refine ⟨config, dto.made s.newGuid, rfl, rfl, ?_, ?_, ?_, fun p => ?_⟩
    · rw [hleft, foldl_subscribe]
      rfl
    · rw [hleft, foldl_subscribe]
      rfl
    · rw [hleft, foldl_subscribe]
      rfl
    · rw [hleft]
      exact captures_foldl _

namespace Tables
variable {t : Tables Id Row} {steps : List (Step Id)} {p : Pipe}

theorem landed_afterAll : (t.afterAll s steps).landed p = t.landed p ++ s.landed p steps := by
  induction steps generalizing t with
  | nil => exact (List.append_nil _).symm
  | cons step steps ih =>
    refine (ih (t := t.after s step)).trans ?_
    rw [landed_after, List.append_assoc, Schedule.landed, Schedule.landed, List.flatMap_cons]

/-- Every row that was there or landed is left if and only if a truncation that is carried out meets none. -/
theorem kept_iff (hnodup : steps.Nodup) :
    (∃ rows, (t.afterAll s steps).landed p = t.landed p ++ rows ∧ (t.afterAll s steps).base p = t.base p ++ rows) ↔
      (.clearAllPackets p ∈ steps → s.executed (.clearAllPackets p) →
        t.base p ++ s.landed p (steps.takeWhile (· ≠ .clearAllPackets p) ++ [.clearAllPackets p]) = []) := by
  have hrows : (∃ rows, (t.afterAll s steps).landed p = t.landed p ++ rows ∧
      (t.afterAll s steps).base p = t.base p ++ rows) ↔
        (t.afterAll s steps).base p = t.base p ++ s.landed p steps := by
    rw [landed_afterAll]
    constructor
    · rintro ⟨rows, hlanded, hbase⟩
      rw [hbase, List.append_cancel_left hlanded]
    · exact fun hbase => ⟨_, rfl, hbase⟩
  rw [hrows]
  by_cases hmem : .clearAllPackets p ∈ steps
  · obtain ⟨before, after, hsteps, hbefore⟩ := List.eq_append_cons_of_mem hmem
    have hafter : .clearAllPackets p ∉ after := by
      rw [hsteps, List.nodup_append] at hnodup
      exact (List.nodup_cons.mp hnodup.2.1).1
    have hlanded : s.landed p steps =
        s.landed p (before ++ [.clearAllPackets p]) ++ s.landed p after := by
      rw [hsteps]
      simp [Schedule.landed]
    rw [hlanded, ← List.append_assoc]
    cases hexec : s.executed (.clearAllPackets p) with
    | true =>
      have hbase : (t.afterAll s steps).base p = s.landed p after := by
        rw [hsteps, afterAll_append, afterAll_cons, base_afterAll hafter, (truncated hexec).1, List.nil_append]
      have htake : steps.takeWhile (· ≠ .clearAllPackets p) = before := hsteps ▸ takeWhile_ne hbefore
      rw [hbase, htake]
      constructor
      · exact fun heq _ _ => List.append_left_eq_self.mp heq.symm
      · intro hempty
        rw [hempty hmem rfl, List.nil_append]
    | false =>
      refine iff_of_true ?_ fun _ h => by cases h
      rw [hsteps, afterAll_append, afterAll_cons, base_afterAll hafter, not_truncated hexec]
      show ((t.afterAll s before).base p ++ s.landing (.clearAllPackets p) p) ++ s.landed p after = _
      rw [base_afterAll hbefore]
      simp [Schedule.landed]
  · exact iff_of_true (base_afterAll hmem) fun h => absurd h hmem

end Tables

omit [DecidableEq Id] in
private theorem stepsToMade_nodup : (stepsToMade s).Nodup := by
  rw [stepsToMade, List.nodup_append, List.nodup_append]
  refine ⟨⟨by simp, clearSteps_nodup, fun a ha b hb => ?_⟩, by simp, fun a ha b hb => ?_⟩
  · rintro rfl
    obtain ⟨p, rfl⟩ := clearAllPackets_of_mem_clearSteps hb
    simp at ha
  · rintro rfl
    rcases List.mem_append.mp ha with ha | ha
    · rcases List.mem_pair.mp ha with rfl | rfl
      · simp at hb
      · simp at hb
    · obtain ⟨p, rfl⟩ := clearAllPackets_of_mem_clearSteps ha
      simp at hb

end

/-- The rows a start takes out of a base table. -/
def rowsCleared [DecidableEq Id] (s : Schedule Id BPFConfDto Row) (t : Tables Id Row) (p : Pipe) : List Row :=
  if clears s p then
    t.base p ++ s.landed p ((stepsToMade s).takeWhile (· ≠ .clearAllPackets p) ++ [.clearAllPackets p])
  else []

section
variable [DecidableEq Id] {e : Surroundings} {s : Schedule Id BPFConfDto Row} {h : Host Id Row}
  {range : RangeDto Id BPFConfDto}

private theorem rowsCleared_eq_nil {t : Tables Id Row} {p : Pipe} : rowsCleared s t p = [] ↔
    (.clearAllPackets p ∈ stepsToMade s → s.executed (.clearAllPackets p) →
      t.base p ++ s.landed p ((stepsToMade s).takeWhile (· ≠ .clearAllPackets p) ++ [.clearAllPackets p]) = []) := by
  have hmem : .clearAllPackets p ∈ stepsToMade s ↔ .clearAllPackets p ∈ clearSteps s :=
    ⟨clearAllPackets_mem_stepsToMade, fun hc => List.mem_append_left _ (List.mem_append_right _ hc)⟩
  rw [rowsCleared, hmem]
  by_cases hclears : clears s p
  · rw [if_pos hclears]
    exact ⟨fun hnil _ _ => hnil, fun hnil => hnil hclears.1 hclears.2⟩
  · rw [if_neg hclears]
    exact iff_of_true rfl fun hc hexec => absurd ⟨hc, hexec⟩ hclears

/-- A start that fails leaves all as it was if and only if the validation refuses it, or its row is not written and its
truncations take no row. -/
theorem failed_start_untouched_iff {step : Step Id} (hfail : (h.start e s range).1 = .error step) :
    h.Untouched (h.start e s range).2 ↔
      e.validated range = none ∨ s.reply .add = .failed ∧ ∀ p, rowsCleared s h.service.tables p = [] := by
  rcases start_failed hfail with ⟨hv, hleft⟩ | ⟨hv, hadd, dto, hleft⟩ | ⟨hv, hadd, config, dto, -, hleft⟩
  · rw [hleft]
    refine iff_of_true ⟨fun p => ?_, rfl, rfl, rfl, fun p => Iff.rfl⟩ (.inl hv)
    exact ⟨_, Tables.landed_afterAll, Tables.base_afterAll (by simp)⟩
  · have hv' : e.validated range ≠ none := fun hn => by rw [hn] at hv; cases hv
    rw [or_iff_right hv', hleft]
    have htables : (h.service.tables.afterAll s ([.validateAndHydrate, .utcNow] ++ clearSteps s ++ [.newGuid])).after s
        .add = h.service.tables.afterAll s (stepsToMade s) := by
      simp only [stepsToMade, Tables.afterAll_append]
      rfl
    cases hexec : s.executed .add with
    | true =>
      refine iff_of_false (fun hu => ?_) fun hc => ?_
      · have hranges := hu.ranges
        rw [answer_add, hexec] at hranges
        exact absurd (List.append_right_eq_self.mp hranges) (List.cons_ne_nil _ _)
      · rw [Schedule.executed, hc.1] at hexec
        cases hexec
    | false =>
      have hfailed : s.reply .add = .failed := by simpa [Schedule.executed] using hexec
      rw [and_iff_right hfailed, answer_add, hexec]
      have hrows : ∀ p, rowsCleared s h.service.tables p = [] ↔ _ := fun p =>
        rowsCleared_eq_nil.trans (Tables.kept_iff stepsToMade_nodup).symm
      constructor
      · exact fun hu p => (hrows p).mpr (htables ▸ hu.tables p)
      · exact fun hnil => ⟨fun p => htables.symm ▸ (hrows p).mp (hnil p), rfl, rfl, rfl, fun p => Iff.rfl⟩
  · refine iff_of_false (fun hu => ?_) ?_
    · have hranges := hu.ranges
      rw [hleft, foldl_subscribe] at hranges
      exact absurd (List.append_right_eq_self.mp hranges) (List.cons_ne_nil _ _)
    · rintro (hn | ⟨hfailed, -⟩)
      · rw [hn] at hv
        cases hv
      · rw [Schedule.done, hfailed] at hadd
        cases hadd

end

/-- Motion packet 7 is in its base table; `eth0` is there for every handler. -/
def idleHost : Host ℕ ℕ where
  service :=
    { tables := empty.tables.land fun p => if p = .motion then [7] else []
      ranges := []
      currentRange := none
      isActive := false }
  devices := DeviceService.World.start

def eth0 : Surroundings where
  toUpperInvariant := Char.toUpper
  configuration := { protocol := fun _ => "udp", ips := fun _ => [], ports := fun _ => [] }
  available := some ["eth0"]
  attempt _ := ⟨[⟨"eth0", true⟩], true, true, true⟩

def capture (device : String) : RangeDto ℕ BPFConfDto where
  id := 0
  startTime := 0
  endTime := 0
  description := " run "
  config := some ⟨some ⟨none, none, none, some device⟩⟩

def answered : Schedule ℕ BPFConfDto ℕ where
  validated _ := none
  utcNow := 5
  newGuid := 1
  reply _ := .done
  landing _ _ := []

theorem failed_start_untouched_iff_eth1 :
    idleHost.Untouched (idleHost.start eth0 answered (capture "eth1")).2 := by
  have hfail : (idleHost.start eth0 answered (capture "eth1")).1 = .error .validateAndHydrate := by decide
  have hrefused : eth0.validated (capture "eth1") = none := by decide
  exact (failed_start_untouched_iff hfail).mpr (.inl hrefused)

/-- The validator takes `ETH0` for `eth0`, and no handler does: packet 7 is gone, and Range 1 is made and current. -/
theorem failed_start_leaves_range :
    (idleHost.start eth0 answered (capture "ETH0")).1 = .error (.subscribe .motion) ∧
      (idleHost.start eth0 answered (capture "ETH0")).2.service.tables.base .motion = [] ∧
      (idleHost.start eth0 answered (capture "ETH0")).2.service.ranges.map RangeEntity.id = [1] ∧
      (idleHost.start eth0 answered (capture "ETH0")).2.service.currentRange.map RangeDto.id = some 1 ∧
      ¬idleHost.Untouched (idleHost.start eth0 answered (capture "ETH0")).2 := by
  have hranges : (idleHost.start eth0 answered (capture "ETH0")).2.service.ranges.map RangeEntity.id = [1] := by
    decide
  refine ⟨by decide, by decide, hranges, by decide, fun hu => ?_⟩
  rw [hu.ranges] at hranges
  cases hranges

end Kanat.RangeService
