import Kanat.DetectionBackend
import Kanat.ScheduledPrograms
import Mathlib.Algebra.Order.Field.Rat

/-! # One tick against a Detection Service that answers

The backend's memory and database beside the service's one Run; `calls` are the starts and ends asked of it. -/
namespace Kanat.DetectionSync
open ResumptionPrograms ScheduledPrograms InsertionOrderDict

variable {Id : Type} [DecidableEq Id]

structure Site (Id : Type) extends World Id where
  run : Option (Run Id)
  calls : List (Op Id)

namespace Site

/-- A start is answered with a watching Run, unless the service holds another's or one ending. -/
def startRun (s : Site Id) (session : Id) (aliasName : String) : Except (Exn Id) (Run Id) × Site Id :=
  let asked := { s with calls := s.calls ++ [.startRun session aliasName] }
  match s.run with
  | none => (.ok ⟨session, .watching⟩, { asked with run := some ⟨session, .watching⟩ })
  | some run =>
    if run.session ≠ session then (.error (.refused 409 "another Session's Run is active" (some run.session)), asked)
    else if run.state = .ending then
      (.error (.refused 409 "the Session's Run is ending" (some run.session)), asked)
    else (.ok ⟨session, .watching⟩, { asked with run := some ⟨session, .watching⟩ })

/-- An end is answered once the Session's Run has ended, or without one. -/
def endRun (s : Site Id) (session : Id) : Except (Exn Id) (Option (Run Id)) × Site Id :=
  let asked := { s with calls := s.calls ++ [.endRun session] }
  match s.run with
  | none => (.ok none, asked)
  | some run =>
    if run.session = session then (.ok (some ⟨session, .ended⟩), { asked with run := none }) else (.ok none, asked)

/-- Every call answered; the requests' own, which a tick never makes, fail. -/
def answer (s : Site Id) : (o : Op Id) → Ans Id o × Site Id
  | .status => (.ok s.run, s)
  | .startRun session aliasName => s.startRun session aliasName
  | .endRun session => s.endRun session
  | .storeRun .. => ((), s)
  | .follow .. => ((), s)
  | .set session detection onlyFrom =>
    let changed := s.memory.set s.clock session detection onlyFrom
    (changed.1, { s with memory := changed.2 })
  | .stateOf session => (s.memory.stateOf session, s)
  | .inStates session => ((s.memory.states.get session).isSome, s)
  | .discardWatched session =>
    ((), { s with memory := { s.memory with watched := s.memory.watched.erase session } })
  | .lockedRead activeIds => ((s.memory.ended activeIds, s.memory.stuck s.clock), s)
  | .listCameras => (.ok s.db.cameras, s)
  | .listActive => (.ok s.db.listActive, s)
  | .getSession _ | .readSession _ => (.error .other, s)
  | .sessionDetail _ | .saveSession .. | .deleteSession _ => (.error .other, s)
  | .cameraAlias _ => (.error .other, s)
  | .addSession _ => (.error .other, s)

/-- One round of `reconcile`, alone. -/
def tick (s : Site Id) : Except (Exn Id) Unit × Site Id := ScheduledPrograms.run answer reconcile s

end Site

/-- A call a tick makes. -/
def Ticks : Op Id → Prop
  | .getSession _ | .readSession _ | .sessionDetail _ | .saveSession .. | .deleteSession _ | .cameraAlias _
  | .addSession _ => False
  | _ => True

/-- Its answers are among those the backend may be given. -/
theorem site_answers (s : Site Id) (o : Op Id) (h : Ticks o) :
    ∃ choice, answer s.toWorld o choice = some ((s.answer o).1, (s.answer o).2.toWorld) := by
  cases o with
  | status => exact ⟨.run s.run, rfl⟩
  | startRun session aliasName =>
    show ∃ choice, answer s.toWorld (.startRun session aliasName) choice =
      some ((s.startRun session aliasName).1, (s.startRun session aliasName).2.toWorld)
    rw [Site.startRun]
    split
    · exact ⟨.run (some ⟨session, .watching⟩), rfl⟩
    next run _ =>
      split
      · exact ⟨.raises (.refused 409 "another Session's Run is active" (some run.session)), rfl⟩
      · split
        · exact ⟨.raises (.refused 409 "the Session's Run is ending" (some run.session)), rfl⟩
        · exact ⟨.run (some ⟨session, .watching⟩), rfl⟩
  | endRun session =>
    show ∃ choice, answer s.toWorld (.endRun session) choice =
      some ((s.endRun session).1, (s.endRun session).2.toWorld)
    rw [Site.endRun]
    split
    · exact ⟨.run none, rfl⟩
    · split
      · exact ⟨.run (some ⟨session, .ended⟩), rfl⟩
      · exact ⟨.run none, rfl⟩
  | set session detection onlyFrom => exact ⟨.done, rfl⟩
  | storeRun session aliasName run => exact ⟨.done, rfl⟩
  | follow session run => exact ⟨.done, rfl⟩
  | stateOf session => exact ⟨.done, rfl⟩
  | inStates session => exact ⟨.done, rfl⟩
  | discardWatched session => exact ⟨.done, rfl⟩
  | lockedRead activeIds => exact ⟨.done, rfl⟩
  | listCameras => exact ⟨.done, rfl⟩
  | listActive => exact ⟨.done, rfl⟩
  | getSession session => exact h.elim
  | readSession session => exact h.elim
  | sessionDetail session => exact h.elim
  | saveSession session status => exact h.elim
  | deleteSession session => exact h.elim
  | cameraAlias camera => exact h.elim
  | addSession camera => exact h.elim

namespace Memory
variable (now : ℚ) (activeIds : List Id)

/-- `letGo`, its Sessions' states set in turn. -/
def letGo (m : Memory Id) (stuck : List (Id × DetectionState)) : Memory Id :=
  stuck.foldl (fun m entry =>
    (m.set now entry.1 (if entry.1 ∈ activeIds then .none else .endUnconfirmed) (some [entry.2])).2) m

def readNone (m : Memory Id) (ended : List Id) : Memory Id :=
  ended.foldl (fun m session => (m.set now session .none (some idle)).2) m

end Memory

namespace Memory
variable {now : ℚ} {activeIds : List Id} {m : Memory Id} {session : Id} {detection : Detection}
  {onlyFrom : Option (List DetectionState)}

theorem stateOf_change_self (h : detection.state = .none → detection = .none) :
    (m.change now session detection).stateOf session = detection := by
  unfold change
  dsimp only
  split_ifs with heq hnone
  · exact heq.symm
  · rw [stateOf, Dict.get_pop_self]
    exact (h hnone).symm
  · simp [stateOf]

theorem stateOf_set_self (ha : admits onlyFrom (m.stateOf session).state) (hd : detection ≠ .endUnconfirmed)
    (h : detection.state = .none → detection = .none) :
    (m.set now session detection onlyFrom).2.stateOf session = detection := by
  rw [set_of_admits ha, readAs_of_ne hd, stateOf_change_self h]

variable (now) in
/-- A Session let go reads `none`, or that its end was not confirmed. -/
theorem stateOf_set_endUnconfirmed (ha : admits onlyFrom (m.stateOf session).state) :
    (m.set now session .endUnconfirmed onlyFrom).2.stateOf session = .none ∨
      (m.set now session .endUnconfirmed onlyFrom).2.stateOf session = .endUnconfirmed := by
  rw [set_of_admits ha, readAs]
  split
  · exact .inl (stateOf_change_self fun _ => rfl)
  · exact .inr (stateOf_change_self fun h => by cases h)

theorem stateOf_letGo_of_ne {stuck : List (Id × DetectionState)} (hs : ∀ entry ∈ stuck, entry.2 = .starting)
    (h : (m.stateOf session).state ≠ .starting) : (m.letGo now activeIds stuck).stateOf session = m.stateOf session := by
  induction stuck generalizing m with
  | nil => rfl
  | cons entry stuck ih =>
    have hstep : (m.set now entry.1 (if entry.1 ∈ activeIds then .none else .endUnconfirmed)
        (some [entry.2])).2.stateOf session = m.stateOf session := by
      by_cases he : entry.1 = session
      · rw [set_of_not_admits]
        rw [he, hs entry List.mem_cons_self]
        simpa [admits] using h
      · exact stateOf_set_of_ne he
    exact (ih (fun e he => hs e (List.mem_cons_of_mem _ he)) (hstep ▸ h)).trans hstep

variable (activeIds) in
theorem stateOf_letGo_of_mem {stuck : List (Id × DetectionState)} (hs : ∀ entry ∈ stuck, entry.2 = .starting)
    (hm : session ∈ stuck.map Prod.fst) (h : (m.stateOf session).state = .starting) :
    (m.letGo now activeIds stuck).stateOf session = .none ∨
      session ∉ activeIds ∧ (m.letGo now activeIds stuck).stateOf session = .endUnconfirmed := by
  induction stuck generalizing m with
  | nil => cases hm
  | cons entry stuck ih =>
    have hs' : ∀ e ∈ stuck, e.2 = .starting := fun e he => hs e (List.mem_cons_of_mem _ he)
    by_cases he : entry.1 = session
    · have ha : admits (some [entry.2]) (m.stateOf session).state := by
        rw [hs entry List.mem_cons_self, h]
        rfl
      -- once let go it is no longer starting
      have hrest : ∀ d : Detection, d.state ≠ .starting →
          (m.set now session (if session ∈ activeIds then .none else .endUnconfirmed) (some [entry.2])).2.stateOf
            session = d → (m.letGo now activeIds (entry :: stuck)).stateOf session = d := by
        intro d hd hset
        subst he
        exact (stateOf_letGo_of_ne hs' (by rw [hset]; exact hd)).trans hset
      by_cases hactive : session ∈ activeIds
      · refine .inl (hrest .none (by decide) ?_)
        rw [if_pos hactive]
        exact stateOf_set_self ha (by decide) fun _ => rfl
      · rw [if_neg hactive] at hrest
        rcases stateOf_set_endUnconfirmed now ha with hset | hset
        · exact .inl (hrest .none (by decide) hset)
        · exact .inr ⟨hactive, hrest .endUnconfirmed (by decide) hset⟩
    · have hm' : session ∈ stuck.map Prod.fst := (List.mem_cons.mp hm).resolve_left (Ne.symm he)
      exact ih hs' hm' ((congrArg _ (stateOf_set_of_ne he)).trans h)

theorem stateOf_readNone {ended : List Id} : (m.readNone now ended).stateOf session =
    if session ∈ ended ∧ (m.stateOf session).state ∈ idle then .none else m.stateOf session := by
  induction ended generalizing m with
  | nil => rfl
  | cons id ended ih =>
    show ((m.set now id .none (some idle)).2.readNone now ended).stateOf session = _
    rw [ih]
    by_cases he : id = session
    · subst he
      by_cases hi : (m.stateOf id).state ∈ idle
      · have ha : admits (some idle) (m.stateOf id).state := by simpa [admits] using hi
        rw [stateOf_set_self ha (by decide) fun _ => rfl, ite_self]
        exact (if_pos ⟨List.mem_cons_self, hi⟩).symm
      · have ha : admits (some idle) (m.stateOf id).state = false := by simpa [admits] using hi
        rw [set_of_not_admits ha, if_neg fun h => hi h.2, if_neg fun h => hi h.2]
    · rw [stateOf_set_of_ne he]
      simp [Ne.symm he]

theorem mem_stuck (h : (m.stateOf session).state = .starting) (hs : stuckS < now - (m.since.get session).getD now) :
    session ∈ (m.stuck now).map Prod.fst := by
  cases hg : m.states.get session with
  | none =>
    rw [stateOf, hg] at h
    cases h
  | some d =>
    rw [stateOf, hg] at h
    refine List.mem_map.mpr ⟨(session, d.state), List.mem_filterMap.mpr ⟨(session, d), Dict.mem_of_get hg, ?_⟩, rfl⟩
    exact if_pos ⟨h, hs⟩

theorem stuck_starting {entry : Id × DetectionState} (h : entry ∈ m.stuck now) : entry.2 = .starting := by
  obtain ⟨⟨id, d⟩, -, he⟩ := List.mem_filterMap.mp h
  split at he
  next hs =>
    cases he
    exact hs.1
  next => cases he

private theorem stateOf_of_not_ended (h : session ∉ activeIds) (hn : session ∉ m.ended activeIds) :
    m.stateOf session = .none := by
  have hk : session ∉ m.states.keys := fun hk => hn (List.mem_filter.mpr ⟨hk, by simpa using h⟩)
  rw [stateOf, Dict.get_eq_none.mpr hk]
  rfl

private theorem letGo_of_none_starting {stuck : List (Id × DetectionState)} (hs : ∀ entry ∈ stuck, entry.2 = .starting)
    (h : ∀ session, (m.stateOf session).state ≠ .starting) : m.letGo now activeIds stuck = m := by
  induction stuck with
  | nil => rfl
  | cons entry stuck ih =>
    have hstep : (m.set now entry.1 (if entry.1 ∈ activeIds then .none else .endUnconfirmed) (some [entry.2])).2 = m := by
      rw [set_of_not_admits]
      rw [hs entry List.mem_cons_self]
      simpa [admits] using h entry.1
    show (Memory.set m now entry.1 _ _).2.letGo now activeIds stuck = m
    rw [hstep]
    exact ih fun e he => hs e (List.mem_cons_of_mem _ he)

/-- Sessions that are not active read `none` or that their end was not confirmed; no start or end is under way of an
active one. -/
structure Still (m : Memory Id) (activeIds : List Id) : Prop where
  others : ∀ session ∉ activeIds, m.stateOf session = .none ∨ (m.stateOf session).state = .endUnconfirmed
  active : ∀ session ∈ activeIds, (m.stateOf session).state ∈ idle

theorem Still.ne_starting (h : m.Still activeIds) (session : Id) : (m.stateOf session).state ≠ .starting := by
  intro hs
  by_cases ha : session ∈ activeIds
  · exact absurd (hs ▸ h.active session ha) (by decide)
  · rcases h.others session ha with ho | ho
    · exact absurd (ho ▸ hs) (by decide)
    · exact absurd (ho.symm.trans hs) (by decide)

variable (activeIds) in
private theorem still_of_read (hstart : ∀ session, (m.stateOf session).state = .starting →
      stuckS < now - (m.since.get session).getD now)
    (hend : ∀ session, (m.stateOf session).state ≠ .ending)
    (hactive : ∀ session ∈ activeIds, (m.stateOf session).state ≠ .endUnconfirmed) :
    ((m.letGo now activeIds (m.stuck now)).readNone now (m.ended activeIds)).Still activeIds := by
  have hidle : ∀ {state : DetectionState}, state ≠ .starting → state ≠ .ending → state ≠ .endUnconfirmed →
      state ∈ idle := by
    intro state h₁ h₂ h₃
    cases state <;> simp_all [idle]
  refine ⟨fun session ha => ?_, fun session ha => ?_⟩
  · rw [stateOf_readNone]
    by_cases hs : (m.stateOf session).state = .starting
    · rcases stateOf_letGo_of_mem activeIds (fun _ => stuck_starting) (mem_stuck hs (hstart session hs)) hs with h | ⟨-, h⟩
      · rw [h, ite_self]
        exact .inl rfl
      · rw [h, if_neg (by rintro ⟨-, hi⟩; revert hi; decide)]
        exact .inr rfl
    · rw [stateOf_letGo_of_ne (fun _ => stuck_starting) hs]
      by_cases hu : (m.stateOf session).state = .endUnconfirmed
      · rw [if_neg (by rw [hu]; rintro ⟨-, hi⟩; revert hi; decide)]
        exact .inr hu
      · by_cases he : session ∈ m.ended activeIds
        · rw [if_pos ⟨he, hidle hs (hend session) hu⟩]
          exact .inl rfl
        · rw [if_neg fun h => he h.1]
          exact .inl (stateOf_of_not_ended ha he)
  · have he : session ∉ m.ended activeIds := fun h => absurd ha (by simpa using (List.mem_filter.mp h).2)
    rw [stateOf_readNone, if_neg fun h => he h.1]
    by_cases hs : (m.stateOf session).state = .starting
    · rcases stateOf_letGo_of_mem activeIds (fun _ => stuck_starting) (mem_stuck hs (hstart session hs)) hs with h | ⟨hn, -⟩
      · rw [h]
        decide
      · exact absurd ha hn
    · rw [stateOf_letGo_of_ne (fun _ => stuck_starting) hs]
      exact hidle hs (hend session) (hactive session ha)

theorem Still.change {m' : Memory Id} (h : m.Still activeIds) (ha : session ∈ activeIds)
    (ho : ∀ other, session ≠ other → m'.stateOf other = m.stateOf other) (hi : (m'.stateOf session).state ∈ idle) :
    m'.Still activeIds := by
  refine ⟨fun id hid => ?_, fun id hid => ?_⟩
  · have he : session ≠ id := fun he => hid (he ▸ ha)
    rw [ho id he]
    exact h.others id hid
  · by_cases he : session = id
    · exact he ▸ hi
    · rw [ho id he]
      exact h.active id hid

/-- Only the Sessions a Run has watched may differ. -/
structure Same (m m' : Memory Id) : Prop where
  states : m'.states = m.states
  published : m'.published = m.published

omit [DecidableEq Id] in
theorem Same.trans {m₁ m₂ m₃ : Memory Id} (h : Same m₁ m₂) (h' : Same m₂ m₃) : Same m₁ m₃ :=
  ⟨h'.states.trans h.states, h'.published.trans h.published⟩

theorem Same.stateOf {m' : Memory Id} (h : Same m m') : m'.stateOf session = m.stateOf session := by
  rw [Memory.stateOf, h.states, Memory.stateOf]

theorem Same.still {m' : Memory Id} (h : Same m m') (hs : m.Still activeIds) : m'.Still activeIds :=
  ⟨fun session ha => h.stateOf ▸ hs.others session ha, fun session ha => h.stateOf ▸ hs.active session ha⟩

/-- A state set that is read already is not pushed. -/
theorem same_set (hd : detection ≠ .endUnconfirmed) (h : m.stateOf session = detection) :
    Same m (m.set now session detection onlyFrom).2 := by
  cases ha : admits onlyFrom (m.stateOf session).state with
  | false =>
    rw [set_of_not_admits ha]
    exact ⟨rfl, rfl⟩
  | true =>
    rw [set_of_admits ha, readAs_of_ne hd]
    unfold change
    dsimp only
    rw [if_pos h.symm]
    exact ⟨rfl, rfl⟩

theorem Still.same_readNone {ended : List Id} (h : m.Still activeIds) (he : ∀ session ∈ ended, session ∉ activeIds) :
    Same m (m.readNone now ended) := by
  induction ended generalizing m with
  | nil => exact ⟨rfl, rfl⟩
  | cons session ended ih =>
    have hstep : Same m (m.set now session .none (some idle)).2 := by
      rcases h.others session (he session List.mem_cons_self) with ho | ho
      · exact same_set (by decide) ho
      · rw [set_of_not_admits (by rw [ho]; decide)]
        exact ⟨rfl, rfl⟩
    exact hstep.trans (ih (hstep.still h) fun id hid => he id (List.mem_cons_of_mem _ hid))

end Memory

/-- What follows of the tick once the Sessions that are not active are read. -/
def settle (run : Option (Run Id)) (session : Option (Session Id)) (wanted : Option (Session Id × Camera Id)) :
    M Id Unit := do
  showDisabled session wanted
  let run ← endOther run wanted
  match wanted with
  | some (session, camera) => askFor session camera run
  | none => return

section
variable {s : Site Id}

private theorem run_letGo (activeIds : List Id) (stuck : List (Id × DetectionState)) :
    ScheduledPrograms.run Site.answer (letGo activeIds stuck) s =
      (.ok ⟨⟩, { s with memory := s.memory.letGo s.clock activeIds stuck }) := by
  induction stuck generalizing s with
  | nil => rfl
  | cons entry stuck ih => exact ih

private theorem run_readNone (ended : List Id) :
    ScheduledPrograms.run Site.answer (readNone ended) s =
      (.ok ⟨⟩, { s with memory := s.memory.readNone s.clock ended }) := by
  induction ended generalizing s with
  | nil => rfl
  | cons session ended ih => exact ih

private theorem tick_eq : s.tick = ScheduledPrograms.run Site.answer
    ((letGo (s.db.listActive.map Session.id) (s.memory.stuck s.clock)).bind fun _ =>
      (readNone (s.memory.ended (s.db.listActive.map Session.id))).bind fun _ =>
        settle s.run s.db.listActive.head? (wantedOf s.db.cameras s.db.listActive.head?)) s := by
  rfl

theorem tick_settle : s.tick = ScheduledPrograms.run Site.answer
    (settle s.run s.db.listActive.head? (wantedOf s.db.cameras s.db.listActive.head?))
    { s with memory := (s.memory.letGo s.clock (s.db.listActive.map Session.id)
        (s.memory.stuck s.clock)).readNone s.clock (s.memory.ended (s.db.listActive.map Session.id)) } := by
  rw [tick_eq, run_bind, run_letGo]
  show ScheduledPrograms.run Site.answer ((readNone _).bind _) _ = _
  rw [run_bind, run_readNone]

theorem run_showDisabled_wanted (session : Option (Session Id)) (wanted : Session Id × Camera Id) :
    ScheduledPrograms.run Site.answer (showDisabled session (some wanted)) s = (.ok ⟨⟩, s) := by
  cases session <;> rfl

/-- Sets the Session's state, unless it has no camera and reads `none`. -/
theorem run_showDisabled (session : Session Id) :
    ScheduledPrograms.run Site.answer (showDisabled (some session) none) s =
      if session.camera ≠ none ∨ s.memory.stateOf session.id ≠ .none then
        (.ok ⟨⟩, { s with memory := (s.memory.set s.clock session.id .cameraDisabled (some idle)).2 })
      else (.ok ⟨⟩, s) := by
  let shown : M Id Unit := setState session.id .cameraDisabled (some idle) >>= fun _ => pure ()
  have heq : showDisabled (some session) none = if session.camera ≠ none then shown
      else Prog.call (.stateOf session.id) fun detection =>
        if decide (detection ≠ Detection.none) = true then shown else pure () := rfl
  rw [heq]
  by_cases hc : session.camera = none
  · rw [if_neg (not_not.mpr hc), run_call]
    show ScheduledPrograms.run Site.answer
      (if decide (s.memory.stateOf session.id ≠ .none) = true then shown else pure ()) s = _
    by_cases hd : s.memory.stateOf session.id = .none
    · rw [if_neg (by simpa using hd), if_neg (by simp [hc, hd])]
      rfl
    · rw [if_pos (by simpa using hd), if_pos (.inr hd)]
      rfl
  · rw [if_pos hc, if_pos (.inl hc)]
    rfl

private theorem run_endOther_none (wanted : Option (Session Id × Camera Id)) :
    ScheduledPrograms.run Site.answer (endOther none wanted) s = (.ok none, s) := rfl

theorem run_endOther_wanted {run : Run Id} {session : Session Id} (camera : Camera Id) (h : run.session = session.id) :
    ScheduledPrograms.run Site.answer (endOther (some run) (some (session, camera))) s = (.ok (some run), s) := by
  rw [endOther, if_neg fun hn => hn.2 (by rw [h]; rfl)]
  rfl

/-- The service's Run is ended. -/
theorem run_endOther {run : Run Id} {wanted : Option (Session Id × Camera Id)} (hs : s.run = some run)
    (hrun : run.state ≠ .ending) (h : wanted.map (fun w => w.1.id) ≠ some run.session) :
    ScheduledPrograms.run Site.answer (endOther (some run) wanted) s =
      (.ok none, { s with
        memory := { s.memory with watched := s.memory.watched.erase run.session }
        run := none
        calls := s.calls ++ [.endRun run.session] }) := by
  rw [endOther, if_pos ⟨hrun, h⟩]
  have hend : s.endRun run.session = (.ok (some ⟨run.session, .ended⟩), { s with
      run := none
      calls := s.calls ++ [.endRun run.session] }) := by
    rw [Site.endRun, hs]
    exact if_pos rfl
  show ScheduledPrograms.run Site.answer (Prog.call (.endRun run.session) _) s = _
  rw [run_call, show Site.answer s (.endRun run.session) = _ from hend]
  rfl

private theorem startRun_watching {session : Id} (aliasName : String)
    (h : ∀ run ∈ s.run, run.session = session ∧ run.state ≠ .ending) :
    s.startRun session aliasName = (.ok ⟨session, .watching⟩, { s with
      run := some ⟨session, .watching⟩
      calls := s.calls ++ [.startRun session aliasName] }) := by
  rw [Site.startRun]
  cases hs : s.run with
  | none => rfl
  | some run =>
    obtain ⟨hsession, hstate⟩ := h run hs
    show (if run.session ≠ session then _ else _) = _
    rw [if_neg (not_not.mpr hsession), if_neg hstate]

private theorem run_watch {session : Id} (aliasName : String) {onlyFrom : List DetectionState}
    (h : ∀ run ∈ s.run, run.session = session ∧ run.state ≠ .ending)
    (ha : admits (some onlyFrom) (s.memory.stateOf session).state) :
    ScheduledPrograms.run Site.answer (watch session aliasName onlyFrom) s = (.ok ⟨⟩, { s with
      memory := (s.memory.set s.clock session .watching (some onlyFrom)).2
      run := some ⟨session, .watching⟩
      calls := s.calls ++ [.startRun session aliasName] }) := by
  show ScheduledPrograms.run Site.answer (Prog.call (.startRun session aliasName) _) s = _
  rw [run_call, show Site.answer s (.startRun session aliasName) = _ from startRun_watching aliasName h]
  have hset : (s.memory.set s.clock session .watching (some onlyFrom)).1 = true := Memory.set_fst.trans ha
  show ScheduledPrograms.run Site.answer
    (if (!(s.memory.set s.clock session .watching (some onlyFrom)).1 && decide (Detection.watching.state = .watching)) =
      true then _ else _) _ = _
  rw [hset]
  rfl

/-- The Session's Run watches already. -/
theorem run_askFor_watching {wanted : Session Id} (camera : Camera Id) {run : Run Id} (hrun : run.state = .watching)
    (hi : (s.memory.stateOf wanted.id).state ∈ idle) :
    ScheduledPrograms.run Site.answer (askFor wanted camera (some run)) s =
      (.ok ⟨⟩, { s with memory := (s.memory.set s.clock wanted.id .watching (some idle)).2 }) := by
  have hne : (some run).map Run.state ≠ some .ending := by simp [hrun]
  show ScheduledPrograms.run Site.answer
    (if (s.memory.stateOf wanted.id).state ∉ idle ∨ (some run).map Run.state = some .ending then _ else _) s = _
  have hwatching : (some run).filter (fun r => r.state = .watching) = some run := by simp [hrun]
  rw [if_neg (not_or.mpr ⟨not_not.mpr hi, hne⟩), hwatching]
  rfl

/-- What the Session shows while its Run is asked for. -/
theorem run_shownMeanwhile {session : Id} (hi : (s.memory.stateOf session).state ∈ idle) :
    ∃ shown : Detection, ScheduledPrograms.run Site.answer
        (shownMeanwhile session (s.memory.stateOf session).state) s = (.ok shown, s) ∧
      (shown.state = .starting ∨ shown.state = .notWatching) := by
  rw [shownMeanwhile]
  by_cases hn : (s.memory.stateOf session).state = .none
  · rw [if_pos hn]
    exact ⟨.starting, rfl, .inl rfl⟩
  by_cases hw : (s.memory.stateOf session).state = .watching
  · rw [if_neg hn, if_pos hw]
    exact ⟨.runLost, rfl, .inr rfl⟩
  · rw [if_neg hn, if_neg hw]
    refine ⟨s.memory.stateOf session, rfl, .inr ?_⟩
    simpa [idle, hn, hw] using hi

/-- A Run is asked for, and watches. -/
theorem run_askFor {wanted : Session Id} (camera : Camera Id) {run : Option (Run Id)}
    (hrun : ∀ r ∈ run, r.state ≠ .watching ∧ r.state ≠ .ending)
    (hs : ∀ r ∈ s.run, r.session = wanted.id ∧ r.state ≠ .ending) (hi : (s.memory.stateOf wanted.id).state ∈ idle) :
    ∃ shown : Detection, (shown.state = .starting ∨ shown.state = .notWatching) ∧
      ScheduledPrograms.run Site.answer (askFor wanted camera run) s = (.ok ⟨⟩, { s with
        memory := ((s.memory.set s.clock wanted.id shown (some [(s.memory.stateOf wanted.id).state])).2.set s.clock
          wanted.id .watching (some [shown.state])).2
        run := some ⟨wanted.id, .watching⟩
        calls := s.calls ++ [.startRun wanted.id camera.aliasName] }) := by
  obtain ⟨shown, hshown, hstate⟩ := run_shownMeanwhile hi
  refine ⟨shown, hstate, ?_⟩
  have hne : run.map Run.state ≠ some .ending := by
    intro h
    obtain ⟨r, hr, hr'⟩ := Option.map_eq_some_iff.mp h
    exact (hrun r hr).2 hr'
  have hfilter : run.filter (fun r => r.state = .watching) = none :=
    Option.filter_eq_none_iff.mpr fun r hr => by simpa using (hrun r hr).1
  have ha : admits (some [(s.memory.stateOf wanted.id).state]) (s.memory.stateOf wanted.id).state = true := by
    simp [admits]
  have hread : ((s.memory.set s.clock wanted.id shown (some [(s.memory.stateOf wanted.id).state])).2.stateOf
      wanted.id) = shown :=
    Memory.stateOf_set_self ha (by rintro rfl; revert hstate; decide) fun hn => absurd (hn ▸ hstate) (by decide)
  show ScheduledPrograms.run Site.answer
    (if (s.memory.stateOf wanted.id).state ∉ idle ∨ run.map Run.state = some .ending then _ else _) s = _
  rw [if_neg (not_or.mpr ⟨not_not.mpr hi, hne⟩), hfilter]
  show ScheduledPrograms.run Site.answer ((shownMeanwhile wanted.id (s.memory.stateOf wanted.id).state).bind _) s = _
  rw [run_bind, hshown]
  show ScheduledPrograms.run Site.answer
    (if (s.memory.set s.clock wanted.id shown (some [(s.memory.stateOf wanted.id).state])).1 = true then
      watch wanted.id camera.aliasName [shown.state] else _) _ = _
  rw [if_pos (Memory.set_fst.trans ha)]
  refine run_watch camera.aliasName hs ?_
  exact (congrArg (admits _) (congrArg Detection.state hread)).trans (by simp [admits])

theorem wantedOf_eq_some {cameras : List (Camera Id)} {active : Option (Session Id)} {session : Session Id}
    {camera : Camera Id} : wantedOf cameras active = some (session, camera) ↔
      active = some session ∧ ∃ id, session.camera = some id ∧ cameras.find? (fun c => c.id = id) = some camera ∧
        camera.enabled = true := by
  simp only [wantedOf, Option.bind_eq_bind, Option.bind_eq_some_iff]
  constructor
  · rintro ⟨σ, hσ, id, hid, c, hc, h⟩
    split at h
    next he =>
      cases h
      exact ⟨hσ, id, hid, hc, he⟩
    next => cases h
  · rintro ⟨hσ, id, hid, hc, he⟩
    exact ⟨session, hσ, id, hid, camera, hc, if_pos he⟩

/-- A Run left is the wanted Session's. -/
theorem endOther_leaves (wanted : Option (Session Id × Camera Id)) (hrun : ∀ r ∈ s.run, r.state ≠ .ending) :
    ∃ s' : Site Id, ScheduledPrograms.run Site.answer (endOther s.run wanted) s = (.ok s'.run, s') ∧ s'.db = s.db ∧
      s.memory.Same s'.memory ∧ ∀ r ∈ s'.run, wanted.map (fun w => w.1.id) = some r.session ∧ r.state ≠ .ending := by
  cases hs : s.run with
  | none => exact ⟨s, by rw [run_endOther_none, hs], rfl, ⟨rfl, rfl⟩, fun r hr => by rw [hs] at hr; cases hr⟩
  | some run =>
    by_cases hw : wanted.map (fun w => w.1.id) = some run.session
    · refine ⟨s, ?_, rfl, ⟨rfl, rfl⟩, fun r hr => ?_⟩
      · rw [endOther, if_neg fun hn => hn.2 hw, hs]
        rfl
      · cases hs.symm.trans hr
        exact ⟨hw, hrun run hs⟩
    · let s' : Site Id := { s with
        memory := { s.memory with watched := s.memory.watched.erase run.session }
        run := none
        calls := s.calls ++ [.endRun run.session] }
      exact ⟨s', run_endOther hs (hrun run hs) hw, rfl, ⟨rfl, rfl⟩, fun r (hr : none = some r) => by cases hr⟩

/-- The wanted Session's Run is asked for, or watches already. -/
theorem askFor_watches {session : Session Id} (camera : Camera Id)
    (hs : ∀ r ∈ s.run, r.session = session.id ∧ r.state ≠ .ending) (hi : (s.memory.stateOf session.id).state ∈ idle) :
    ∃ s' : Site Id, ScheduledPrograms.run Site.answer (askFor session camera s.run) s = (.ok ⟨⟩, s') ∧ s'.db = s.db ∧
      s'.run = some ⟨session.id, .watching⟩ ∧ s'.memory.stateOf session.id = .watching ∧
      ∀ other, session.id ≠ other → s'.memory.stateOf other = s.memory.stateOf other := by
  by_cases hw : ∃ r ∈ s.run, r.state = .watching
  · obtain ⟨r, hr, hstate⟩ := hw
    have hr' : r = ⟨session.id, .watching⟩ := by
      cases r
      cases (hs _ hr).1
      cases hstate
      rfl
    rw [show s.run = some r from hr]
    refine ⟨_, run_askFor_watching camera hstate hi, rfl, hr' ▸ hr, ?_, fun other ho => Memory.stateOf_set_of_ne ho⟩
    exact Memory.stateOf_set_self (by simpa [admits] using hi) (by decide) fun hn => by cases hn
  · have hrun : ∀ r ∈ s.run, r.state ≠ .watching ∧ r.state ≠ .ending :=
      fun r hr => ⟨fun he => hw ⟨r, hr, he⟩, (hs r hr).2⟩
    obtain ⟨shown, hshown, hask⟩ := run_askFor camera hrun hs hi
    refine ⟨_, hask, rfl, rfl, ?_, fun other ho => ?_⟩
    · refine Memory.stateOf_set_self ?_ (by decide) fun hn => by cases hn
      rw [Memory.stateOf_set_self (by simp [admits]) (by rintro rfl; revert hshown; decide)
        fun hn => absurd (hn ▸ hshown) (by decide)]
      simp [admits]
    · exact (Memory.stateOf_set_of_ne ho).trans (Memory.stateOf_set_of_ne ho)

end

/-- The camera a Session has. -/
def Db.cameraOf (db : Db Id) (session : Session Id) : Option (Camera Id) :=
  session.camera.bind fun id => db.cameras.find? fun camera => camera.id = id

/-- The Run and the Sessions' states are those the database asks for. -/
structure Site.Settled (s : Site Id) : Prop where
  still : s.memory.Still (s.db.listActive.map Session.id)
  wanted : ∀ session camera, wantedOf s.db.cameras s.db.listActive.head? = some (session, camera) →
    s.run = some ⟨session.id, .watching⟩ ∧ s.memory.stateOf session.id = .watching
  unwanted : wantedOf s.db.cameras s.db.listActive.head? = none → s.run = none ∧ ∀ session ∈ s.db.listActive.head?,
    s.memory.stateOf session.id = .cameraDisabled ∨ session.camera = none ∧ s.memory.stateOf session.id = .none

section
variable {s : Site Id}

omit [DecidableEq Id] in
theorem mem_of_head? {session : Session Id} (h : s.db.listActive.head? = some session) :
    session.id ∈ s.db.listActive.map Session.id :=
  List.mem_map_of_mem (List.mem_of_head? h)

private theorem settle_settles (hstill : s.memory.Still (s.db.listActive.map Session.id))
    (hrun : ∀ r ∈ s.run, r.state ≠ .ending) :
    ∃ s' : Site Id, ScheduledPrograms.run Site.answer
        (settle s.run s.db.listActive.head? (wantedOf s.db.cameras s.db.listActive.head?)) s = (.ok ⟨⟩, s') ∧
      s'.db = s.db ∧ s'.Settled := by
  cases hw : wantedOf s.db.cameras s.db.listActive.head? with
  | none =>
    have hleft : ∀ s₁ : Site Id, s₁.run = s.run → s₁.db = s.db → s₁.memory.Still (s.db.listActive.map Session.id) →
        (∀ session ∈ s.db.listActive.head?, s₁.memory.stateOf session.id = .cameraDisabled ∨
          session.camera = none ∧ s₁.memory.stateOf session.id = .none) →
        ∃ s', ScheduledPrograms.run Site.answer ((endOther s.run none).bind fun _ => pure ()) s₁ = (.ok ⟨⟩, s') ∧
          s'.db = s.db ∧ s'.Settled := by
      intro s₁ hr hdb hstill₁ hshown
      obtain ⟨s', hend, hdb', hsame, hruns⟩ := endOther_leaves (s := s₁) none (hr ▸ hrun)
      refine ⟨s', ?_, hdb'.trans hdb, ⟨?_, ?_, ?_⟩⟩
      · rw [run_bind, ← hr, hend]
        rfl
      · rw [hdb', hdb]
        exact hsame.still hstill₁
      · rw [hdb', hdb, hw]
        intro session camera h
        cases h
      · intro _
        refine ⟨Option.eq_none_iff_forall_not_mem.mpr fun r hr' => ?_, fun session hs => ?_⟩
        · cases (hruns r hr').1
        · rw [hdb', hdb] at hs
          rw [hsame.stateOf]
          exact hshown session hs
    cases hhead : s.db.listActive.head? with
    | none =>
      exact hleft s rfl rfl hstill fun session hs => by rw [hhead] at hs; cases hs
    | some session =>
      show ∃ s', ScheduledPrograms.run Site.answer ((showDisabled (some session) none).bind fun _ =>
        (endOther s.run none).bind fun _ => pure ()) s = _ ∧ _
      rw [run_bind, run_showDisabled]
      by_cases hs : session.camera ≠ none ∨ s.memory.stateOf session.id ≠ .none
      · rw [if_pos hs]
        have hi := hstill.active session.id (mem_of_head? hhead)
        have hset : (s.memory.set s.clock session.id .cameraDisabled (some idle)).2.stateOf session.id =
            .cameraDisabled :=
          Memory.stateOf_set_self (by simpa [admits] using hi) (by decide) fun hn => by cases hn
        refine hleft _ rfl rfl ?_ fun σ hσ => ?_
        · exact hstill.change (mem_of_head? hhead) (fun other ho => Memory.stateOf_set_of_ne ho) (by rw [hset]; decide)
        · cases hhead.symm.trans hσ
          exact .inl hset
      · rw [if_neg hs]
        obtain ⟨hc, hd⟩ := not_or.mp hs
        refine hleft s rfl rfl hstill fun σ hσ => ?_
        cases hhead.symm.trans hσ
        exact .inr ⟨not_not.mp hc, not_not.mp hd⟩
  | some wanted =>
    obtain ⟨session, camera⟩ := wanted
    have hhead := (wantedOf_eq_some.mp hw).1
    obtain ⟨s₁, hend, hdb, hsame, hruns⟩ := endOther_leaves (some (session, camera)) hrun
    have hstill₁ := hsame.still hstill
    obtain ⟨s', hask, hdb', hrun', hwatching, hothers⟩ := askFor_watches (s := s₁) camera
      (fun r hr => ⟨(Option.some.inj (hruns r hr).1).symm, (hruns r hr).2⟩)
      (hstill₁.active session.id (mem_of_head? hhead))
    refine ⟨s', ?_, hdb'.trans hdb, ⟨?_, ?_, ?_⟩⟩
    · show ScheduledPrograms.run Site.answer ((showDisabled _ (some (session, camera))).bind fun _ =>
        (endOther s.run (some (session, camera))).bind fun run => askFor session camera run) s = _
      rw [run_bind, run_showDisabled_wanted]
      show ScheduledPrograms.run Site.answer ((endOther s.run (some (session, camera))).bind _) s = _
      rw [run_bind, hend]
      exact hask
    · rw [hdb', hdb]
      exact hstill₁.change (mem_of_head? hhead) hothers (by rw [hwatching]; decide)
    · rw [hdb', hdb, hw]
      rintro _ _ ⟨⟩
      exact ⟨hrun', hwatching⟩
    · rw [hdb', hdb, hw]
      intro h
      cases h

private theorem tick_settles (hstart : ∀ id, (s.memory.stateOf id).state = .starting →
      stuckS < s.clock - (s.memory.since.get id).getD s.clock)
    (hend : ∀ id, (s.memory.stateOf id).state ≠ .ending)
    (hactive : ∀ session ∈ s.db.listActive, (s.memory.stateOf session.id).state ≠ .endUnconfirmed)
    (hrun : ∀ run ∈ s.run, run.state ≠ .ending) :
    ∃ s', s.tick = (.ok ⟨⟩, s') ∧ s'.db = s.db ∧ s'.Settled := by
  have hstill := Memory.still_of_read (s.db.listActive.map Session.id) hstart hend fun id hid => by
    obtain ⟨session, hs, rfl⟩ := List.mem_map.mp hid
    exact hactive session hs
  rw [tick_settle]
  exact settle_settles (s := { s with memory := _ }) hstill hrun

theorem Site.Settled.later (h : s.Settled) (clock : ℚ) : ({ s with clock := clock } : Site Id).Settled :=
  ⟨h.still, h.wanted, h.unwanted⟩

theorem Site.Settled.same (h : s.Settled) {memory : Memory Id} (hm : s.memory.Same memory) :
    ({ s with memory := memory } : Site Id).Settled := by
  refine ⟨hm.still h.still, fun session camera hw => ?_, fun hw => ⟨(h.unwanted hw).1, fun session hs => ?_⟩⟩
  · exact ⟨(h.wanted session camera hw).1, hm.stateOf.trans (h.wanted session camera hw).2⟩
  · show memory.stateOf session.id = _ ∨ _ ∧ memory.stateOf session.id = _
    rw [hm.stateOf]
    exact (h.unwanted hw).2 session hs

theorem Site.Settled.settle_silent (h : s.Settled) : ∃ memory, s.memory.Same memory ∧
    ScheduledPrograms.run Site.answer
      (settle s.run s.db.listActive.head? (wantedOf s.db.cameras s.db.listActive.head?)) s =
        (.ok ⟨⟩, { s with memory := memory }) := by
  cases hw : wantedOf s.db.cameras s.db.listActive.head? with
  | some wanted =>
    obtain ⟨session, camera⟩ := wanted
    obtain ⟨hrun, hwatching⟩ := h.wanted session camera hw
    have hsame : s.memory.Same (s.memory.set s.clock session.id .watching (some idle)).2 :=
      Memory.same_set (by decide) hwatching
    refine ⟨_, hsame, ?_⟩
    show ScheduledPrograms.run Site.answer ((showDisabled _ (some (session, camera))).bind fun _ =>
      (endOther s.run (some (session, camera))).bind fun run => askFor session camera run) s = _
    rw [run_bind, run_showDisabled_wanted]
    nth_rewrite 1 [hrun]
    show ScheduledPrograms.run Site.answer ((endOther _ (some (session, camera))).bind _) s = _
    rw [run_bind, run_endOther_wanted camera rfl]
    exact run_askFor_watching camera rfl (by rw [hwatching]; decide)
  | none =>
    obtain ⟨hrun, hshown⟩ := h.unwanted hw
    nth_rewrite 1 [hrun]
    cases hhead : s.db.listActive.head? with
    | none => exact ⟨s.memory, ⟨rfl, rfl⟩, rfl⟩
    | some session =>
      show ∃ memory, _ ∧ ScheduledPrograms.run Site.answer ((showDisabled (some session) none).bind fun _ =>
        (endOther none none).bind fun _ => pure ()) s = _
      rcases hshown session hhead with hd | ⟨hc, hn⟩
      · have hsame : s.memory.Same (s.memory.set s.clock session.id .cameraDisabled (some idle)).2 :=
          Memory.same_set (by decide) hd
        refine ⟨_, hsame, ?_⟩
        rw [run_bind, run_showDisabled, if_pos (.inr (by rw [hd]; decide))]
        rfl
      · refine ⟨s.memory, ⟨rfl, rfl⟩, ?_⟩
        rw [run_bind, run_showDisabled, if_neg (by simp [hc, hn])]
        rfl

/-- With nothing to change a tick makes no call and pushes nothing. -/
theorem Site.Settled.silent (h : s.Settled) : ∃ memory, s.memory.Same memory ∧
    s.tick = (.ok ⟨⟩, { s with memory := memory }) := by
  have hsame : s.memory.Same (s.memory.readNone s.clock (s.memory.ended (s.db.listActive.map Session.id))) :=
    h.still.same_readNone fun id hid => by simpa using (List.mem_filter.mp hid).2
  obtain ⟨memory, hm, hrun⟩ := (h.same hsame).settle_silent
  rw [tick_settle, Memory.letGo_of_none_starting (fun _ => Memory.stuck_starting) h.still.ne_starting]
  exact ⟨memory, hsame.trans hm, hrun⟩

/-- A tick whose calls are answered leaves the service and the memory as the database asks, and the next one finds
nothing to change, whenever it comes. -/
theorem reconcile_converges (s : Site Id)
    (hstart : ∀ id, (s.memory.stateOf id).state = .starting →
      stuckS < s.clock - (s.memory.since.get id).getD s.clock)
    (hend : ∀ id, (s.memory.stateOf id).state ≠ .ending)
    (hactive : ∀ session ∈ s.db.listActive, (s.memory.stateOf session.id).state ≠ .endUnconfirmed)
    (hrun : ∀ run ∈ s.run, run.state ≠ .ending) :
    ∃ s', s.tick = (.ok ⟨⟩, s') ∧
      (∀ session ∈ s.db.listActive.head?, ∀ camera ∈ s.db.cameraOf session, camera.enabled = true →
        s'.run = some ⟨session.id, .watching⟩ ∧ s'.memory.stateOf session.id = .watching) ∧
      ((∀ session ∈ s.db.listActive.head?, ∀ camera ∈ s.db.cameraOf session, camera.enabled = false) → s'.run = none) ∧
      (∀ session ∈ s.db.listActive.head?, ∀ camera ∈ s.db.cameraOf session, camera.enabled = false →
        s'.memory.stateOf session.id = .cameraDisabled) ∧
      (∀ id ∉ s.db.listActive.map Session.id,
        (s'.memory.stateOf id).state = .none ∨ (s'.memory.stateOf id).state = .endUnconfirmed) ∧
      ∀ clock, ∃ s'', ({ s' with clock := clock } : Site Id).tick = (.ok ⟨⟩, s'') ∧ s''.calls = s'.calls ∧
        s''.memory.published = s'.memory.published := by
  obtain ⟨s', htick, hdb, h⟩ := tick_settles hstart hend hactive hrun
  have hwanted : ∀ session camera, camera ∈ s.db.cameraOf session → camera.enabled = true →
      session ∈ s.db.listActive.head? → wantedOf s'.db.cameras s'.db.listActive.head? = some (session, camera) := by
    intro session camera hc he hs
    obtain ⟨id, hid, hfind⟩ := Option.bind_eq_some_iff.mp hc
    rw [hdb]
    exact wantedOf_eq_some.mpr ⟨hs, id, hid, hfind, he⟩
  have hunwanted : (∀ session ∈ s.db.listActive.head?, ∀ camera ∈ s.db.cameraOf session, camera.enabled = false) →
      wantedOf s'.db.cameras s'.db.listActive.head? = none := by
    intro hdisabled
    refine Option.eq_none_iff_forall_ne_some.mpr fun wanted hw => ?_
    rw [hdb] at hw
    obtain ⟨hs, id, hid, hfind, he⟩ := wantedOf_eq_some.mp hw
    have hdis := hdisabled wanted.1 hs wanted.2 (Option.bind_eq_some_iff.mpr ⟨id, hid, hfind⟩)
    rw [he] at hdis
    cases hdis
  refine ⟨s', htick, ?_, fun hd => (h.unwanted (hunwanted hd)).1, ?_, ?_, fun clock => ?_⟩
  · exact fun session hs camera hc he => h.wanted session camera (hwanted session camera hc he hs)
  · intro session hs camera hc he
    have hnone := hunwanted fun σ hσ c hc' => by
      cases hs.symm.trans hσ
      cases hc.symm.trans hc'
      exact he
    rcases (h.unwanted hnone).2 session (by rw [hdb]; exact hs) with hd | ⟨hcamera, -⟩
    · exact hd
    · obtain ⟨id, hid, -⟩ := Option.bind_eq_some_iff.mp hc
      cases hcamera.symm.trans hid
  · intro id hid
    rcases h.still.others id (by rw [hdb]; exact hid) with hn | hu
    · exact .inl (by rw [hn]; rfl)
    · exact .inr hu
  · obtain ⟨memory, hsame, hsilent⟩ := (h.later clock).silent
    exact ⟨_, hsilent, rfl, hsame.published⟩

end

/-- An active Session with its camera enabled, its start under way for `clock` seconds, beside another's Run. -/
def asked (clock : ℚ) : Site Bool where
  memory := { Memory.empty with states := [(true, .starting)], since := [(true, 0)] }
  clock := clock
  db := { cameras := [⟨false, "CamA", true⟩], sessions := [⟨true, .active, some false⟩] }
  run := some ⟨false, .watching⟩
  calls := []

theorem reconcile_converges_asked61 : ∃ s', (asked 61).tick = (.ok ⟨⟩, s') ∧ s'.run = some ⟨true, .watching⟩ ∧
    s'.memory.stateOf true = .watching := by
  obtain ⟨s', htick, hwatching, -⟩ := reconcile_converges (asked 61) (by decide +kernel) (by decide)
    (by decide) (by decide)
  exact ⟨s', htick, hwatching ⟨true, .active, some false⟩ rfl ⟨false, "CamA", true⟩ rfl rfl⟩

/-- A start under way for exactly `stuckS` is not let go: the other Run is ended, and none asked for. -/
theorem asked60_not_watched :
    (∀ id, ((asked 60).memory.stateOf id).state = .starting →
      stuckS ≤ (asked 60).clock - ((asked 60).memory.since.get id).getD (asked 60).clock) ∧
    (∀ id, ((asked 60).memory.stateOf id).state ≠ .ending) ∧
    (∀ session ∈ (asked 60).db.listActive, ((asked 60).memory.stateOf session.id).state ≠ .endUnconfirmed) ∧
    (∀ run ∈ (asked 60).run, run.state ≠ .ending) ∧
    (∃ session ∈ (asked 60).db.listActive, ∃ camera ∈ (asked 60).db.cameraOf session, camera.enabled = true) ∧
    (asked 60).tick.1.isOk = true ∧ (asked 60).tick.2.run = none ∧
    ((asked 60).tick.2.memory.stateOf true).state = .starting := by
  decide +kernel

end Kanat.DetectionSync
