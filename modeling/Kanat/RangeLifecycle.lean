import Kanat.ConditionalRuns
import Kanat.SessionTables

/-! # The life of a Range

What starts and stops make of the service's flag, of the Range it holds as current and of the ends in the Ranges'
rows. -/
namespace Kanat.RangeService
open ResumptionPrograms ScheduledPrograms

/-- Each row as its Range and its end, `-1` until it has one. -/
structure Life (Id : Type) where
  isActive : Bool
  ends : List (Id × ℤ)
  current : Option Id

variable {Id Bpf Row : Type}

def World.life (w : World Id Bpf Row) : Life Id where
  isActive := w.isActive
  ends := w.ranges.map fun r => (r.id, r.endTime)
  current := w.currentRange.map RangeDto.id

/-- Every packet type is subscribed to. -/
def Schedule.comesUp (s : Schedule Id Bpf Row) : Bool := pipes.all fun p => s.done (.subscribe p)

/-- Every packet type is unsubscribed from. -/
def Schedule.comesDown (s : Schedule Id Bpf Row) : Bool := pipes.all fun p => s.done (.unsubscribe p)

/-- A start whose Range is valid. -/
def Life.start (s : Schedule Id Bpf Row) (l : Life Id) : Life Id :=
  if s.executed .add then
    let l := { l with ends := l.ends ++ [(s.newGuid, -1)] }
    if s.done .add then { l with current := some s.newGuid, isActive := l.isActive || s.comesUp } else l
  else l

/-- A stop comes to the row of the current Range, and changes it. -/
def Schedule.writesEnd (s : Schedule Id Bpf Row) : Bool := s.done .resetStats && s.done .getById && s.executed .update

/-- The Ranges without an end. -/
def Life.opened (l : Life Id) : List Id := (l.ends.filter fun e => e.2 = -1).map Prod.fst

/-- The service is active if and only if exactly one Range has no end and it is the current one. -/
def Life.Agrees (l : Life Id) : Prop := l.isActive ↔ ∃ id, l.opened = [id] ∧ l.current = some id

/-- A start that writes a row is made while the service is not active; if its Range becomes the current one, then every
subscription is made when, and only when, no other Range is without an end. -/
def Life.StartFits (s : Schedule Id Bpf Row) (l : Life Id) : Prop :=
  s.executed .add → l.isActive = false ∧ (s.done .add → (s.comesUp ↔ l.opened = []))

/-- The current Range has a row. -/
def Life.CurrentKnown (l : Life Id) : Prop := ∀ id, l.current = some id → id ∈ l.ends.map Prod.fst

section
variable [DecidableEq Id]

def Life.endTime (l : Life Id) (id : Id) : Option ℤ := (l.ends.find? fun e => e.1 = id).map Prod.snd

/-- A Range that has an end keeps it. -/
def Life.EndsKept (l l' : Life Id) : Prop :=
  ∀ id endTime, l.endTime id = some endTime → endTime ≠ -1 → l'.endTime id = some endTime

/-- A stop that takes every subscription down finds no current Range; or it writes the end of one that has none, or that
very end; or it does not come to write, and the service was not active. -/
def Life.StopFits (s : Schedule Id Bpf Row) (l : Life Id) : Prop :=
  s.comesDown → ∀ id, l.current = some id →
    if s.writesEnd then ∀ endTime, l.endTime id = some endTime → endTime = -1 ∨ endTime = s.utcNow
    else l.isActive = false

def Life.setEnd (l : Life Id) (id : Id) (endTime : ℤ) : Life Id :=
  { l with ends := l.ends.map fun e => if e.1 = id then (id, endTime) else e }

def Life.ended (s : Schedule Id Bpf Row) (l : Life Id) : Life Id :=
  match l.current with
  | none => l
  | some id => if s.writesEnd then l.setEnd id s.utcNow else l

def Life.stop (s : Schedule Id Bpf Row) (l : Life Id) : Life Id :=
  if s.comesDown then { l with isActive := false }.ended s else l

variable {w w' : World Id Bpf Row} {s : Schedule Id Bpf Row} {id : Id}

/-- A step after which flag, current Range and rows are as before. -/
def Op.still : Op Id Bpf → Bool
  | .add _ | .setCurrentRange _ | .setIsActive _ | .update _ => false
  | _ => true

private theorem life_answer {o : Op Id Bpf} (ho : o.still) : (answer s w o).2.life = w.life := by
  cases o with
  | setEndTime endTime =>
    simp only [answer, World.life]
    cases w.currentRange <;> rfl
  | add entity => cases ho
  | setCurrentRange range => cases ho
  | setIsActive active => cases ho
  | update entity => cases ho
  | _ => rfl

private theorem life_watched {α : Type} {p : Program Id Bpf α} (hp : Watched (fun o => Op.still o) p) :
    (run (answer s) p w).2.life = w.life :=
  run_watched (I := fun w' : World Id Bpf Row => w'.life = w.life) (fun _ _ ho h => (life_answer ho).trans h) hp rfl

private theorem startAsync_life (w : World Id Bpf Row) (config : Bpf) :
    (run (answer s) (Realtime.startAsync config) w).2.life = { w.life with isActive := w.isActive || s.comesUp } := by
  obtain ⟨hw, hok⟩ : _ ∧ _ := loop_run (s := s) (w := w) .subscribe pipes (subscribe_run config)
  rw [Realtime.startAsync, Prog.bind_eq, run_bind]
  generalize run (answer s) (pipes.forM fun p => perform (.subscribe p config) >>= Prog.ofExcept) w = r at hw hok
  obtain ⟨r, w'⟩ := r
  cases hw
  cases r with
  | ok u =>
    have hup : s.comesUp = true := hok.mp rfl
    rw [hup, Bool.or_true]
    rfl
  | error e =>
    have hup : s.comesUp = false := Bool.eq_false_iff.mpr fun h => by cases hok.mpr h
    rw [hup, Bool.or_false]
    rfl

private theorem stopAsync_life (w : World Id Bpf Row) :
    (run (answer s) Realtime.stopAsync w).2.life = (if s.comesDown then { w.life with isActive := false } else w.life) ∧
      (run (answer s) Realtime.stopAsync w).2.currentRange = w.currentRange ∧
      ((run (answer s) Realtime.stopAsync w).1 = .ok () ↔ s.comesDown) := by
  obtain ⟨hw, hok⟩ : _ ∧ _ := loop_run (s := s) (w := w) .unsubscribe pipes unsubscribe_run
  rw [Realtime.stopAsync, Prog.bind_eq, run_bind]
  generalize run (answer s) (pipes.forM fun p => perform (.unsubscribe p) >>= Prog.ofExcept) w = r at hw hok
  obtain ⟨r, w'⟩ := r
  cases hw
  cases r with
  | ok u =>
    have hdown : s.comesDown = true := hok.mp rfl
    rw [hdown, if_pos rfl]
    exact ⟨rfl, rfl, iff_of_true rfl rfl⟩
  | error e =>
    have hdown : s.comesDown = false := Bool.eq_false_iff.mpr fun h => by cases hok.mpr h
    rw [hdown, if_neg Bool.false_ne_true]
    exact ⟨rfl, rfl, iff_of_false (fun h => by cases h) Bool.false_ne_true⟩

private theorem add_life (w : World Id Bpf Row) (entity : RangeEntity Id) :
    (answer s w (.add entity)).2.life =
      if s.executed .add then { w.life with ends := w.life.ends ++ [(entity.id, entity.endTime)] } else w.life := by
  change (if s.executed .add then _ else _ : World Id Bpf Row).life = _
  split
  · simp only [World.life, List.map_append, List.map_cons, List.map_nil]
  · rfl

private theorem update_life (w : World Id Bpf Row) (entity : RangeEntity Id) :
    (answer s w (.update entity)).2.life =
      if s.executed .update then w.life.setEnd entity.id entity.endTime else w.life := by
  change (if s.executed .update then _ else _ : World Id Bpf Row).life = _
  split
  · simp only [World.life, Life.setEnd, replace, List.map_map]
    congr 1
    refine List.map_congr_left fun r _ => ?_
    by_cases h : r.id = entity.id
    · simp [h]
    · simp [h]
  · rfl

private theorem life_start (w : World Id Bpf Row) (range : RangeDto Id Bpf) :
    (run (answer s) (startRealtimeRangeAsync range) w).2.life =
      if (s.accepted range).isSome then w.life.start s else w.life := by
  cases haccepted : s.accepted range with
  | none =>
    rw [start_refused haccepted]
    rfl
  | some config =>
    obtain ⟨dto, hrun⟩ := start_accepted (w := w) haccepted
    let w₁ := (((w.afterAll s [.validateAndHydrate, .utcNow]).afterAll s (clearSteps s)).afterAll s [.newGuid])
    let entity := dto.made s.newGuid
    have hadd : (answer s w₁ (.add entity)).2.life =
        if s.executed .add then { w.life with ends := w.life.ends ++ [(s.newGuid, -1)] } else w.life :=
      add_life w₁ entity
    rw [hrun, beginRange, Prog.bind_eq, run_bind, createRange_run, Schedule.told, Option.isSome_some, if_pos rfl, Life.start]
    cases hdone : s.done .add with
    | false =>
      rw [if_neg Bool.false_ne_true]
      change (answer s w₁ (.add entity)).2.life = _
      rw [hadd, if_neg Bool.false_ne_true]
    | true =>
      have hexec : s.executed .add := executed_of_done hdone
      rw [if_pos hexec] at hadd
      rw [if_pos rfl, if_pos hexec]
      let created : RangeDto Id Bpf := { (RangeMapper.toDto entity : RangeDto Id Bpf) with config := dto.config }
      let w₂ := (answer s (answer s w₁ (.add entity)).2 (.setCurrentRange created)).2
      have hw₂ : w₂.life = { w.life with ends := w.life.ends ++ [(s.newGuid, -1)], current := some s.newGuid } := by
        change { (answer s w₁ (.add entity)).2.life with current := some s.newGuid } = _
        rw [hadd]
      change (run (answer s) ((Realtime.startAsync config).bind fun _ => .ret created) w₂).2.life = _
      have hstart := startAsync_life (s := s) w₂ config
      rw [run_bind]
      generalize run (answer s) (Realtime.startAsync config) w₂ = r at hstart
      obtain ⟨r, w₃⟩ := r
      have hactive : w₂.isActive = w.isActive := congrArg Life.isActive hw₂
      rw [hw₂, hactive] at hstart
      cases r with
      | ok u => exact hstart
      | error e => exact hstart

theorem setEnd_of_absent {l : Life Id} (h : ∀ e ∈ l.ends, e.1 ≠ id) (endTime : ℤ) : l.setEnd id endTime = l := by
  have hmap : (l.ends.map fun e => if e.1 = id then (id, endTime) else e) = l.ends := by
    conv_rhs => rw [← List.map_id l.ends]
    exact List.map_congr_left fun e he => if_neg (h e he)
  rw [Life.setEnd, hmap]

private theorem absent_of_foundRange (h : foundRange w id = none) : ∀ e ∈ w.life.ends, e.1 ≠ id := by
  intro e he hid
  obtain ⟨r, hr, rfl⟩ := List.mem_map.mp he
  have hne := List.find?_eq_none.mp h r hr
  exact hne (decide_eq_true hid)

private theorem recordEnd_life {range : RangeDto Id Bpf} (hcurrent : w.currentRange = some range) :
    (run (answer s) (recordEnd range) w).2.life =
      if s.done .getById && s.executed .update then w.life.setEnd range.id s.utcNow else w.life := by
  let ended : RangeDto Id Bpf := { range with endTime := s.utcNow }
  let w₀ : World Id Bpf Row := { w.afterAll s [.utcNow, .setEndTime] with currentRange := some ended }
  have hw₀ : (answer s (answer s w .utcNow).2 (.setEndTime s.utcNow)).2 = w₀ := by
    simp [answer, hcurrent, w₀, ended, Op.step]
    exact ⟨rfl, rfl, rfl⟩
  have hlife : w₀.life = w.life := by
    simp only [World.life, hcurrent]
    rfl
  rw [recordEnd, run_perform_bind, run_perform_bind, show (answer s w .utcNow).1 = s.utcNow from rfl, hw₀, Prog.bind_eq,
    run_bind]
  cases hget : s.done .getById with
  | false =>
    rw [update_unanswered ended hget, Bool.false_and, if_neg Bool.false_ne_true]
    exact hlife
  | true =>
    rw [Bool.true_and]
    cases hfound : foundRange w₀ range.id with
    | none =>
      rw [update_unfound ended hget hfound, setEnd_of_absent (hlife ▸ absent_of_foundRange hfound), ite_self]
      exact hlife
    | some entity =>
      have hid : entity.id = range.id := id_of_foundRange hfound
      have hupdate : (answer s (w₀.afterAll s [.getById]) (.update (entity.changed ended))).2.life =
          if s.executed .update then w.life.setEnd range.id s.utcNow else w.life := by
        rw [update_life, show (w₀.afterAll s [.getById]).life = w.life from hlife,
          show (entity.changed ended).id = range.id from hid]
        rfl
      rw [update_found ended hget hfound, Schedule.told]
      cases s.done .update with
      | false => exact hupdate
      | true =>
        have hcurrent' : w.life.current = some range.id := congrArg (Option.map RangeDto.id) hcurrent
        change { (answer s (w₀.afterAll s [.getById]) (.update (entity.changed ended))).2.life with
          current := some entity.id } = _
        rw [hupdate, hid, ← hcurrent']
        split <;> rfl

private theorem ended_of_unwritten {l : Life Id} (h : s.writesEnd = false) : l.ended s = l := by
  rw [Life.ended, h]
  split <;> rfl

private theorem endCurrentRange_life (w : World Id Bpf Row) :
    (run (answer s) endCurrentRange w).2.life = w.life.stop s := by
  obtain ⟨hlife, hcurrent, hok⟩ := stopAsync_life (s := s) (w.afterAll s [.getCurrentRange])
  rw [endCurrentRange, run_perform_bind, Prog.bind_eq, run_bind,
    show (answer s w .getCurrentRange).2 = w.afterAll s [.getCurrentRange] from rfl,
    show (answer s w .getCurrentRange).1 = w.currentRange from rfl, Life.stop]
  generalize run (answer s) Realtime.stopAsync (w.afterAll s [.getCurrentRange]) = r at hlife hcurrent hok
  obtain ⟨r, w₁⟩ := r
  change w₁.life = if s.comesDown then { w.life with isActive := false } else w.life at hlife
  change w₁.currentRange = w.currentRange at hcurrent
  cases r with
  | error e =>
    have hdown : s.comesDown = false := Bool.eq_false_iff.mpr fun h => by cases hok.mpr h
    rw [hdown, if_neg Bool.false_ne_true] at hlife ⊢
    exact hlife
  | ok u =>
    have hdown : s.comesDown = true := hok.mp rfl
    rw [hdown, if_pos rfl] at hlife
    rw [hdown, if_pos rfl, ← hlife, ← hcurrent]
    have hreset : run (answer s) (perform .resetStats >>= Prog.ofExcept) w₁ =
        (s.told .resetStats, w₁.afterAll s [.resetStats]) := run_ofExcept
    dsimp only
    rw [Prog.bind_eq, run_bind, hreset, Schedule.told]
    cases hdone : s.done .resetStats with
    | false =>
      have hwrites : s.writesEnd = false := by rw [Schedule.writesEnd, hdone, Bool.false_and, Bool.false_and]
      rw [ended_of_unwritten hwrites]
      rfl
    | true =>
      cases hc : w₁.currentRange with
      | none =>
        have hnone : w₁.life.current = none := congrArg (Option.map RangeDto.id) hc
        rw [Life.ended, hnone]
        rfl
      | some range =>
        have hsome : w₁.life.current = some range.id := congrArg (Option.map RangeDto.id) hc
        have hrecord := recordEnd_life (s := s) (w := w₁.afterAll s [.resetStats]) hc
        rw [Life.ended, hsome, Schedule.writesEnd, hdone, Bool.true_and]
        change (run (answer s) ((recordEnd range).bind fun a => .ret (some a)) (w₁.afterAll s [.resetStats])).2.life = _
        rw [run_bind]
        generalize run (answer s) (recordEnd range) (w₁.afterAll s [.resetStats]) = r at hrecord
        obtain ⟨r, w₂⟩ := r
        cases r with
        | ok a => exact hrecord
        | error e => exact hrecord

theorem life_stop (w : World Id Bpf Row) : (run (answer s) stopRealtimeRangeAsync w).2.life = w.life.stop s := by
  rw [stopRealtimeRangeAsync, Prog.bind_eq, run_bind, ← endCurrentRange_life]
  generalize run (answer s) endCurrentRange w = r
  obtain ⟨e | _ | range, w'⟩ := r
  · rfl
  · rfl
  · refine life_watched (watched_bind (watched_copies range.id fun _ => rfl) fun _ => ?_)
    exact watched_bind (watched_clears fun _ => rfl) fun _ => watched_ret

section
variable {l l' : Life Id} {endTime : ℤ}

omit [DecidableEq Id] in
theorem opened_made (l : Life Id) (id : Id) (current : Option Id) (active : Bool) :
    Life.opened { ends := l.ends ++ [(id, -1)], current := current, isActive := active } = l.opened ++ [id] := by
  simp [Life.opened]

omit [DecidableEq Id] in
private theorem agrees_start (hcurrent : l.CurrentKnown)
    (hnew : s.executed .add → s.newGuid ∉ l.ends.map Prod.fst) (h : l.Agrees) : (l.start s).Agrees ↔ l.StartFits s := by
  rw [Life.start, Life.StartFits]
  split
  case isFalse hadd => exact iff_of_true h fun hexec => absurd hexec hadd
  case isTrue hadd =>
    rw [forall_prop_of_true hadd, Life.Agrees]
    dsimp only
    have halone {id : Id} : l.opened ++ [s.newGuid] = [id] ↔ l.opened = [] ∧ s.newGuid = id := by
      rw [List.append_eq_singleton_iff]
      simp
    split
    case isFalse hdone =>
      -- the row is written, but its Range does not become the current one
      have hnone : ¬∃ id, l.opened ++ [s.newGuid] = [id] ∧ l.current = some id := by
        rintro ⟨id, hid, hc⟩
        obtain ⟨-, rfl⟩ := halone.mp hid
        exact hnew hadd (hcurrent _ hc)
      rw [opened_made, iff_false_right hnone, Bool.not_eq_true]
      exact (and_iff_left fun hd => absurd hd hdone).symm
    case isTrue hdone =>
      have hcurrent' : (∃ id, l.opened ++ [s.newGuid] = [id] ∧ some s.newGuid = some id) ↔ l.opened = [] := by
        constructor
        · rintro ⟨id, hid, -⟩
          exact (halone.mp hid).1
        · exact fun hnil => ⟨s.newGuid, halone.mpr ⟨hnil, rfl⟩, rfl⟩
      rw [opened_made, hcurrent', forall_prop_of_true hdone]
      cases hactive : l.isActive with
      | false => rw [Bool.false_or, and_iff_right rfl]
      | true =>
        obtain ⟨id, hid, -⟩ := h.mp hactive
        simp [hid]

omit [DecidableEq Id] in
private theorem currentKnown_start (h : l.CurrentKnown) : (l.start s).CurrentKnown := by
  rw [Life.start]
  split
  · split
    · rintro id hid
      obtain rfl := Option.some.inj hid
      simp
    · intro id hid
      rw [List.map_append]
      exact List.mem_append_left _ (h id hid)
  · exact h

private theorem endsKept_start : l.EndsKept (l.start s) := by
  intro id endTime hid hne
  rw [Life.start]
  split
  · have hmade : (l.ends ++ [(s.newGuid, -1)]).find? (fun e => e.1 = id) = l.ends.find? fun e => e.1 = id := by
      obtain ⟨e, he, -⟩ := Option.map_eq_some_iff.mp hid
      rw [List.find?_append, he, Option.some_or]
    split
    · rwa [Life.endTime, hmade]
    · rwa [Life.endTime, hmade]
  · exact hid

private theorem endTime_setEnd (l : Life Id) (id id' : Id) (endTime : ℤ) :
    (l.setEnd id endTime).endTime id' = if id' = id then (l.endTime id).map fun _ => endTime else l.endTime id' := by
  have hfind : (l.setEnd id endTime).ends.find? (fun e => e.1 = id') =
      (l.ends.find? fun e => e.1 = id').map fun e => if e.1 = id then (id, endTime) else e := by
    rw [Life.setEnd, List.find?_map]
    congr 2
    funext e
    by_cases he : e.1 = id
    · simp [he]
    · simp [he]
  rw [Life.endTime, hfind, Option.map_map]
  have hfound {e : Id × ℤ} (he : l.ends.find? (fun e => e.1 = id') = some e) : e.1 = id' := by
    have := List.find?_some he
    exact of_decide_eq_true this
  split
  case isTrue hid =>
    subst hid
    rw [Life.endTime, Option.map_map]
    refine Option.map_congr fun e he => ?_
    simp [hfound he]
  case isFalse hid =>
    refine Option.map_congr fun e he => ?_
    simp [hfound he, hid]

private theorem endsKept_setEnd_iff :
    l.EndsKept (l.setEnd id endTime) ↔ ∀ before, l.endTime id = some before → before = -1 ∨ before = endTime := by
  simp only [Life.EndsKept, endTime_setEnd]
  constructor
  · intro h before hbefore
    by_cases hopen : before = -1
    · exact .inl hopen
    · have hkept := h id before hbefore hopen
      rw [if_pos rfl, hbefore] at hkept
      exact .inr (Option.some.inj hkept).symm
  · intro h id' before hbefore hclosed
    split
    case isTrue hid =>
      subst hid
      rcases h before hbefore with hopen | rfl
      · exact absurd hopen hclosed
      · rw [hbefore]
        rfl
    case isFalse hid => exact hbefore

private theorem currentKnown_stop (h : l.CurrentKnown) : (l.stop s).CurrentKnown := by
  have hids (id : Id) (endTime : ℤ) : (l.setEnd id endTime).ends.map Prod.fst = l.ends.map Prod.fst := by
    rw [Life.setEnd, List.map_map]
    refine List.map_congr_left fun e _ => ?_
    by_cases he : e.1 = id
    · simp [he]
    · simp [he]
  rw [Life.stop]
  split
  case isFalse => exact h
  case isTrue =>
    rw [Life.ended]
    split
    · exact h
    · split
      · intro id hid
        change id ∈ (l.setEnd _ s.utcNow).ends.map Prod.fst
        rw [hids]
        exact h id hid
      · exact h

private theorem not_mem_opened_setEnd (hend : endTime ≠ -1) : id ∉ (l.setEnd id endTime).opened := by
  intro h
  obtain ⟨e, he, rfl⟩ := List.mem_map.mp h
  obtain ⟨hmem, hopen⟩ := List.mem_filter.mp he
  obtain ⟨before, -, hset⟩ := List.mem_map.mp hmem
  have hopen : e.2 = -1 := of_decide_eq_true hopen
  split at hset
  case isTrue hid =>
    rw [← hset] at hopen
    exact hend hopen
  case isFalse hid =>
    rw [hset] at hid
    exact hid rfl

omit [DecidableEq Id] in
private theorem agrees_idle_iff (h : l.Agrees) : Life.Agrees { l with isActive := false } ↔ l.isActive = false := by
  constructor
  · intro h'
    exact Bool.eq_false_iff.mpr fun hactive => Bool.false_ne_true (h'.mpr (h.mp hactive))
  · rintro hidle
    exact iff_of_false Bool.false_ne_true fun hopen => Bool.eq_false_iff.mp hidle (h.mpr hopen)

private theorem stop_iff (hclock : s.utcNow ≠ -1) (h : l.Agrees) :
    (l.stop s).Agrees ∧ l.EndsKept (l.stop s) ↔ l.StopFits s := by
  have hidle : Life.Agrees { l with isActive := false } ∧ l.EndsKept { l with isActive := false } ↔ l.isActive = false :=
    (and_iff_left fun _ _ hid _ => hid).trans (agrees_idle_iff h)
  rw [Life.stop, Life.StopFits]
  split
  case isFalse hdown => exact iff_of_true ⟨h, fun _ _ hid _ => hid⟩ fun hd => absurd hd hdown
  case isTrue hdown =>
    rw [forall_prop_of_true hdown, Life.ended]
    dsimp only
    cases hc : l.current with
    | none =>
      rw [hc] at hidle
      refine iff_of_true (hidle.mpr (Bool.eq_false_iff.mpr fun hactive => ?_)) fun id hid => nomatch hid
      obtain ⟨id, -, hid⟩ := h.mp hactive
      rw [hc] at hid
      cases hid
    | some id =>
      rw [hc] at hidle
      simp only [Option.some.injEq, forall_eq']
      split
      case isFalse hwrites => exact hidle
      case isTrue hwrites =>
        refine (and_iff_right (iff_of_false Bool.false_ne_true ?_)).trans endsKept_setEnd_iff
        rintro ⟨id', hopened, hid⟩
        obtain rfl : id = id' := Option.some.inj hid
        exact not_mem_opened_setEnd hclock (hopened ▸ List.mem_singleton_self id)

end

/-- As the process finds it: the rows are there, no Range is current and the service is not active. -/
def World.startUp (t : Tables Id Row) (ranges : List (RangeEntity Id)) : World Id Bpf Row where
  tables := t
  ranges := ranges
  currentRange := none
  isActive := false

/-- A new row's key is not in the table yet, and the clock is past the millisecond before the epoch. -/
def KeyedAndClocked (c : Service Id Bpf Row) : Event Id Bpf Row → Prop
  | .start _ s => s.executed .add → s.newGuid ∉ c.world.ranges.map RangeEntity.id
  | .stop s => s.utcNow ≠ -1
  | .land _ => True

/-- What keeps flag, current Range and rows together, and the ends as they are. -/
def Fits (c : Service Id Bpf Row) : Event Id Bpf Row → Prop
  | .start range s => (s.accepted range).isSome → c.world.life.StartFits s
  | .stop s => c.world.life.StopFits s
  | .land _ => True

variable {c : Service Id Bpf Row} {e : Event Id Bpf Row}

theorem life_step (c : Service Id Bpf Row) (e : Event Id Bpf Row) :
    (c.step e).world.life = match e with
      | .start range s => if (s.accepted range).isSome then c.world.life.start s else c.world.life
      | .stop s => c.world.life.stop s
      | .land _ => c.world.life := by
  cases e with
  | start range s =>
    dsimp only
    rw [← life_start, Service.step]
    split
    next h => rw [h]
    next h => rw [h]
  | stop s =>
    dsimp only
    rw [← life_stop, Service.step]
    split
    next h => rw [h]
    next h => rw [h]
  | land rows => rfl

private theorem keeps_step (he : KeyedAndClocked c e) (hknown : c.world.life.CurrentKnown) (h : c.world.life.Agrees) :
    (c.step e).world.life.Agrees ∧ c.world.life.EndsKept (c.step e).world.life ↔ Fits c e := by
  rw [life_step]
  cases e with
  | start range s =>
    dsimp only [Fits]
    split
    case isTrue haccepted =>
      have hnew (hadd : s.executed .add) : s.newGuid ∉ c.world.life.ends.map Prod.fst := by
        have hkeys : c.world.life.ends.map Prod.fst = c.world.ranges.map RangeEntity.id := by
          rw [World.life, List.map_map]
          rfl
        rw [hkeys]
        exact he hadd
      rw [and_iff_left endsKept_start, agrees_start hknown hnew h, forall_prop_of_true haccepted]
    case isFalse hrefused =>
      exact iff_of_true ⟨h, fun _ _ hid _ => hid⟩ fun haccepted => absurd haccepted hrefused
  | stop s => exact stop_iff he h
  | land rows => exact iff_of_true ⟨h, fun _ _ hid _ => hid⟩ trivial

private theorem currentKnown_step (h : c.world.life.CurrentKnown) : (c.step e).world.life.CurrentKnown := by
  rw [life_step]
  cases e with
  | start range s =>
    dsimp only
    split
    · exact currentKnown_start h
    · exact h
  | stop s => exact currentKnown_stop h
  | land rows => exact h

theorem lifecycle_iff (t : Tables Id Row) (ranges : List (RangeEntity Id)) (events : List (Event Id Bpf Row))
    (h : ConditionalRuns.Each Service.step KeyedAndClocked ⟨World.startUp t ranges, []⟩ events) :
    (∀ n, (ConditionalRuns.run Service.step ⟨World.startUp t ranges, []⟩ (events.take n)).world.life.Agrees) ∧
        (∀ m n, m ≤ n → Life.EndsKept
          (ConditionalRuns.run Service.step ⟨World.startUp t ranges, []⟩ (events.take m)).world.life
          (ConditionalRuns.run Service.step ⟨World.startUp t ranges, []⟩ (events.take n)).world.life) ↔
      ConditionalRuns.Each Service.step Fits ⟨World.startUp t ranges, []⟩ events :=
  ConditionalRuns.run_iff_related (fun c : Service Id Bpf Row => c.world.life.CurrentKnown)
    (fun c : Service Id Bpf Row => c.world.life.Agrees)
    (fun c c' : Service Id Bpf Row => c.world.life.EndsKept c'.world.life) (fun _ _ _ hid _ => hid)
    (fun _ _ _ h h' id endTime hid hne => h' id endTime (h id endTime hid hne) hne) (fun _ _ h _ => currentKnown_step h)
    (fun _ _ hknown he hagrees => keeps_step he hknown hagrees) (fun _ hid => nomatch hid) h
    (iff_of_false Bool.false_ne_true fun ⟨_, _, hid⟩ => nomatch hid)

end

/-- Range 1 is started, and stopped at time 5. -/
def stoppedOnce : List (Event ℕ Unit ℕ) := [.start asked (plainly 1 some), .stop (plainly 0 some)]

theorem lifecycle_iff_stoppedOnce :
    (∀ n, (ConditionalRuns.run Service.step ⟨World.startUp empty.tables [], []⟩ (stoppedOnce.take n)).world.life.Agrees) ∧
      ∀ m n, m ≤ n → Life.EndsKept
        (ConditionalRuns.run Service.step ⟨World.startUp empty.tables [], []⟩ (stoppedOnce.take m)).world.life
        (ConditionalRuns.run Service.step ⟨World.startUp empty.tables [], []⟩ (stoppedOnce.take n)).world.life := by
  refine (lifecycle_iff empty.tables [] stoppedOnce ⟨fun _ hid => (nomatch hid), show (5 : ℤ) ≠ -1 by decide, trivial⟩).mpr
    ⟨fun _ _ => ⟨rfl, fun _ => iff_of_true rfl rfl⟩, fun _ id hid => ?_, trivial⟩
  obtain rfl : 1 = id := Option.some.inj hid
  exact fun endTime hend => .inl (Option.some.inj hend).symm

/-- Range 1 is stopped once more, at time 6. -/
def stoppedTwice : List (Event ℕ Unit ℕ) := stoppedOnce ++ [.stop { plainly 0 some with utcNow := 6 }]

/-- Range 1 becomes the current one, and its first subscription throws. -/
def halfStarted : List (Event ℕ Unit ℕ) :=
  [.start asked { plainly 1 some with reply := fun step => if step = .subscribe .motion then .failed else .done }]

theorem lifecycle_breaks :
    (ConditionalRuns.Each Service.step KeyedAndClocked ⟨World.startUp empty.tables [], []⟩ stoppedTwice ∧
      ¬Life.EndsKept
        (ConditionalRuns.run Service.step ⟨World.startUp empty.tables [], []⟩ (stoppedTwice.take 2)).world.life
        (ConditionalRuns.run Service.step ⟨World.startUp empty.tables [], []⟩ stoppedTwice).world.life) ∧
      ConditionalRuns.Each Service.step KeyedAndClocked ⟨World.startUp empty.tables [], []⟩ halfStarted ∧
      ¬(ConditionalRuns.run Service.step ⟨World.startUp empty.tables [], []⟩ halfStarted).world.life.Agrees := by
  refine ⟨⟨⟨fun _ hid => (nomatch hid), show (5 : ℤ) ≠ -1 by decide, show (6 : ℤ) ≠ -1 by decide, trivial⟩, fun h => ?_⟩,
    ⟨fun _ hid => (nomatch hid), trivial⟩, fun h => ?_⟩
  · have hmoved := h 1 5 rfl (by decide)
    have hlater : Life.endTime
        (ConditionalRuns.run Service.step ⟨World.startUp empty.tables [], []⟩ stoppedTwice).world.life 1 = some 6 := by rfl
    rw [hlater] at hmoved
    exact absurd hmoved (by decide)
  · have hactive := h.mpr ⟨1, by rfl, by rfl⟩
    exact Bool.false_ne_true hactive

end Kanat.RangeService
