import Kanat.DetectionContract

/-! # Every request and tick keeps to its contract

By the structure of the programs: each function is shown to keep to the contract from any state it can be called in,
the smallest first, up to the requests and the tick. -/
namespace Kanat.DetectionSync
open ResumptionPrograms InterleavedThreads

variable {Id α : Type}

namespace Local
variable {l : Local Id}

/-- What the thread knows but for what its starts and ends change. -/
structure Later (l l' : Local Id) : Prop where
  request : l'.request = l.request
  activeIds : l'.activeIds = l.activeIds
  reported : l'.reported = l.reported
  reopening : l.reopening = false → l'.reopening = false
  started : l.started = [] → l'.started = []
  ends : ∀ session ∈ l.ends, session ∈ l'.ends

/-- Nor has it given a Session up. -/
structure Steady (l l' : Local Id) : Prop extends Later l l' where
  gaveUp : l'.gaveUp = l.gaveUp

theorem Later.refl (l : Local Id) : l.Later l :=
  ⟨rfl, rfl, rfl, fun h => h, fun h => h, fun _ h => h⟩

theorem Later.trans {l₁ l₂ l₃ : Local Id} (h : l₁.Later l₂) (h' : l₂.Later l₃) : l₁.Later l₃ where
  request := h'.request.trans h.request
  activeIds := h'.activeIds.trans h.activeIds
  reported := h'.reported.trans h.reported
  reopening hr := h'.reopening (h.reopening hr)
  started hs := h'.started (h.started hs)
  ends session hs := h'.ends session (h.ends session hs)

theorem Steady.refl (l : Local Id) : l.Steady l :=
  ⟨Later.refl l, rfl⟩

theorem Steady.trans {l₁ l₂ l₃ : Local Id} (h : l₁.Steady l₂) (h' : l₂.Steady l₃) :
    l₁.Steady l₃ :=
  ⟨h.toLater.trans h'.toLater, h'.gaveUp.trans h.gaveUp⟩

theorem Over.later {l' : Local Id} (h : l.Later l') (hd : l.Over) : l'.Over :=
  ⟨h.reopening hd.reopening, h.started hd.started⟩

theorem Done.later {l' : Local Id} (h : l.Later l') (hd : l.Done) : l'.Done where
  toOver := hd.toOver.later h
  ended run hrun hstate := by
    rw [h.reported] at hrun
    obtain ⟨ids, hids, hin⟩ := hd.ended run hrun hstate
    exact ⟨ids, h.activeIds.trans hids, hin.imp_right (h.ends _)⟩

variable [DecidableEq Id]

def afterEnd (l : Local Id) (session : Id) (confirmed : Bool) : Local Id :=
  { l with
    confirmed := confirmed
    started := l.lookedAfter session
    ends := session :: l.ends }

theorem later_afterSet {session : Id} {detection : Detection}
    {onlyFrom : Option (List DetectionState)} {changed : Bool} :
    l.Later (l.afterSet session detection onlyFrom changed) where
  request := rfl
  activeIds := rfl
  reported := rfl
  reopening h := by simp [afterSet, h]
  started h := by simp [afterSet, h, lookedAfter]
  ends _ h := h

theorem steady_afterSet {session : Id} {detection : Detection} {states : List DetectionState}
    {changed : Bool} (h : ∀ current ∈ idle, states ≠ [current]) :
    l.Steady (l.afterSet session detection (some states) changed) where
  toLater := later_afterSet
  gaveUp := if_neg fun hn => by
    obtain ⟨_, current, hmem, heq⟩ := hn
    exact h current hmem (Option.some.inj heq)

theorem steady_afterIdle {session : Id} {detection : Detection} {changed : Bool} :
    l.Steady (l.afterSet session detection (some idle) changed) :=
  steady_afterSet fun _ _ => nofun

theorem steady_stateOf {session : Id} {detection : Detection} :
    l.Steady (l.next (.stateOf session) detection) where
  request := rfl
  activeIds := rfl
  reported := rfl
  reopening h := h
  started h := by simp [next, h, lookedAfter]
  ends _ h := h
  gaveUp := rfl

theorem steady_afterEnd {session : Id} {confirmed : Bool} :
    l.Steady (l.afterEnd session confirmed) where
  request := rfl
  activeIds := rfl
  reported := rfl
  reopening h := h
  started h := lookedAfter_nil h
  ends _ h := List.mem_cons_of_mem _ h
  gaveUp := rfl

end Local

open Local

variable {l : Local Id} {session : Id} {Q : Local Id → α → Prop}
  {E : Local Id → Exn Id → Prop}

theorem allows_set_some {detection : Detection} {states : List DetectionState}
    (hd : detection.state ≠ .endUnconfirmed ∧ detection.state ≠ .ending)
    (hw : .endUnconfirmed ∈ states → l.showed = some (session, .endUnconfirmed))
    (he : .ending ∈ states → l.showed = some (session, .ending)) :
    l.Allows (.set session detection (some states)) where
  fromWarning h := Or.inr (hw h)
  fromEnding := he
  toWarning h := (h.elim hd.1 hd.2).elim

variable [DecidableEq Id]

theorem obeys_op {o : Op Id} {Q : Local Id → Ans Id o → Prop} (h : l.Allows o)
    (hQ : ∀ r, Possible o r → Q (l.next o r) r) :
    Obeys contract.toMonitor Q E (perform o) l := ⟨h, hQ⟩

theorem obeys_setState {detection : Detection} {onlyFrom : Option (List DetectionState)}
    {Q : Local Id → Bool → Prop} (h : l.Allows (.set session detection onlyFrom))
    (hQ : ∀ r, Q (l.afterSet session detection onlyFrom r) r) :
    Obeys contract.toMonitor Q E (setState session detection onlyFrom) l :=
  obeys_op h fun r _ => hQ r

theorem obeys_endRun {Q : Local Id → Bool → Prop} (hQ : ∀ b, Q (l.afterEnd session b) b)
    (hE : ∀ e, E (l.afterEnd session false) e) :
    Obeys contract.toMonitor Q E (endRun session) l := by
  refine obeys_bind.mpr (obeys_op trivial fun r _ => ?_)
  rcases r with e | _ | run
  · cases e with
    | unreachable => exact hQ false
    | _ => exact hE _
  · exact hQ false
  · exact ⟨trivial, fun _ _ => ⟨trivial, fun _ _ => hQ true⟩⟩

private theorem obeys_started {aliasName : String} {answer : Except (Exn Id) (Run Id)}
    {Q : Local Id → Detection → Prop} (hok : ∀ run, answer = .ok run → Q l .watching)
    (herror : ∀ e d, answer = .error e → d.state = .notWatching → Q l d) :
    Obeys contract.toMonitor Q E (started session aliasName answer) l := by
  cases answer with
  | ok run => exact ⟨trivial, fun _ _ => hok run rfl⟩
  | error e =>
    cases e with
    | refused status detail holder =>
      refine herror _ _ rfl ?_
      unfold refusedAs
      split_ifs <;> rfl
    | _ => exact herror _ _ rfl rfl

theorem obeys_watch {aliasName : String} {states : List DetectionState}
    {Q : Local Id → Unit → Prop} (hstart : l.Allows (.startRun session aliasName))
    (hw : .endUnconfirmed ∈ states → l.showed = some (session, .endUnconfirmed))
    (he : .ending ∈ states → l.showed = some (session, .ending))
    (hQ : ∀ l', l.Later l' → Q l' ()) (hE : ∀ l' e, l.Later l' → E l' e) :
    Obeys contract.toMonitor Q E (watch session aliasName states) l := by
  refine obeys_bind.mpr (obeys_op hstart fun answer _ => ?_)
  refine obeys_bind.mpr (obeys_started (fun run ha => ?_) fun e d ha hd => ?_)
  · -- the Run is watching: set, or looked after
    subst ha
    generalize hl₁ : l.next (.startRun session aliasName) (.ok run) = l₁
    have hstarted : l.started = [] → l₁.started = [session] := fun h => by
      rw [← hl₁]
      simp [Local.next, h]
    have hkept : ∀ l', l₁.request = l'.request ∧ l₁.activeIds = l'.activeIds ∧
        l₁.reported = l'.reported ∧ (l₁.reopening = false → l'.reopening = false) ∧
        (∀ s ∈ l₁.ends, s ∈ l'.ends) → (l₁.started = [session] → l'.started = []) → l.Later l' := by
      rintro l' ⟨hrequest, hids, hreported, hreopening, hends⟩ hs
      rw [← hl₁] at hrequest hids hreported hreopening hends
      exact ⟨hrequest.symm, hids.symm, hreported.symm, hreopening, fun h => hs (hstarted h), hends⟩
    have hshowed : l₁.showed = l.showed := by rw [← hl₁]; rfl
    rw [← hshowed] at hw he
    refine obeys_bind.mpr (obeys_setState (allows_set_some (by simp [Detection.watching]) hw he) fun changed => ?_)
    cases changed with
    | true =>
      refine hQ _ (hkept _ ⟨rfl, rfl, rfl, fun h => ?_, fun _ h => h⟩ fun h => ?_)
      · simp [afterSet, h]
      · simp [afterSet, lookedAfter_singleton h]
    | false =>
      refine obeys_bind.mpr (obeys_op trivial fun seen _ => ?_)
      split_ifs with hseen
      · have hended : ∀ b, l.Later (((l₁.afterSet session .watching (some states) false).next
            (.stateOf session) seen).afterEnd session b) := fun b =>
          hkept _ ⟨rfl, rfl, rfl, fun h => by simp [afterEnd, Local.next, afterSet, h],
            fun _ h => List.mem_cons_of_mem _ h⟩ fun h => by
              simp [afterEnd, lookedAfter, Local.next, afterSet, h, hseen]
        exact obeys_bind.mpr (obeys_endRun (fun b => hQ _ (hended b)) fun e => hE _ _ (hended false))
      · refine hQ _ (hkept _ ⟨rfl, rfl, rfl, fun h => ?_, fun _ h => h⟩ fun h => ?_)
        · simp [Local.next, afterSet, h]
        · simp only [Local.next, afterSet]
          rw [if_neg hseen]
          simp [lookedAfter, h]
  · -- nothing to look after
    subst ha
    have hnext : l.next (.startRun session aliasName) (.error e) = l := rfl
    rw [hnext]
    refine obeys_bind.mpr (obeys_setState (allows_set_some ?_ hw he) fun changed => ?_)
    · rw [hd]
      simp
    · have hwatch : (!changed && decide (d.state = .watching)) = false := by simp [hd]
      rw [hwatch]
      exact hQ _ later_afterSet

/-- What an ending block's thread knows while it is in the block. -/
structure InBlock (l : Local Id) (session : Id) (confirmed : Bool) : Prop where
  entered : l.entered = some session
  confirmed : l.confirmed = confirmed
  isOver : l.Over
  reported : l.reported = none

omit [DecidableEq Id] in
theorem InBlock.done {confirmed : Bool} (h : InBlock l session confirmed) : l.Done where
  toOver := h.isOver
  ended run hrun := by rw [h.reported] at hrun; cases hrun

private theorem obeys_stillActive (h : l.entered = some session) {Q : Local Id → Bool → Prop}
    (hactive : ∀ b, ∀ word, (word = .active ↔ b = true) → word ≠ .none → Q { l with word := word } b) :
    Obeys contract.toMonitor Q E (stillActive session) l := by
  refine obeys_bind.mpr (obeys_op h fun r _ => ?_)
  rcases r with e | _ | row
  · exact hactive false .unread (by simp) nofun
  · exact hactive false .inactive (by simp) nofun
  · cases hrow : row.status with
    | active => simpa [Local.next, hrow] using hactive true .active (by simp) nofun
    | completed => simpa [Local.next, hrow] using hactive false .inactive (by simp) nofun

theorem obeys_leave {confirmed : Bool} {e : Exn Id} (h : InBlock l session confirmed)
    (hE : ∀ l', l'.Over → E l' e) :
    Obeys contract.toMonitor Q E (leave session confirmed e) l := by
  cases confirmed with
  | true =>
    simp only [leave, if_true, Prog.pure_eq, Prog.bind_eq, Prog.ret_bind]
    refine obeys_bind.mpr (obeys_setState (Or.inr ⟨h.entered, ?_⟩) fun r => hE _ ?_)
    · exact Or.inr (Or.inl ⟨rfl, Or.inl h.confirmed⟩)
    · exact h.isOver.later later_afterSet
  | false =>
    simp only [leave, if_neg Bool.false_ne_true, Prog.bind_eq]
    refine obeys_bind.mpr (obeys_stillActive h.entered fun kept word hword hne => ?_)
    refine obeys_bind.mpr (obeys_setState (Or.inr ⟨h.entered, ?_⟩) fun r => hE _ ?_)
    · cases kept with
      | true => exact Or.inr (Or.inl ⟨rfl, Or.inr (hword.mpr rfl)⟩)
      | false =>
        refine Or.inr (Or.inr ⟨rfl, h.confirmed, ?_⟩)
        cases word <;> simp_all
    · exact Over.later later_afterSet ⟨h.isOver.reopening, h.isOver.started⟩

/-- A block whose body, once it returns, knows its Session inactive. -/
theorem obeys_ending {row : Session Id} {body : M Id Unit} {Q : Local Id → Unit → Prop}
    (hapart : row.status ≠ .active → Obeys contract.toMonitor Q E body l)
    (hleft : Obeys contract.toMonitor Q E body { l with entered := none })
    (hblock : row.status = .active → InBlock l row.id l.confirmed)
    (hbody : ∀ l' confirmed, InBlock l' row.id confirmed → Obeys contract.toMonitor
      (fun l'' _ => InBlock l'' row.id confirmed ∧ l''.word = .inactive)
      (fun l'' _ => InBlock l'' row.id confirmed) body l')
    (hQ : ∀ l', l'.Done → Q l' ()) (hE : ∀ l' e, l'.Over → E l' e) :
    Obeys contract.toMonitor Q E (ending row body) l := by
  have hin : ∀ l', InBlock l' row.id l'.confirmed → Obeys contract.toMonitor Q E
      (do
        let _ ← setState row.id .ending none
        let confirmed ← (endRun row.id).tryCatch (leave row.id false)
        let result ← body.tryCatch (leave row.id confirmed)
        let _ ← setState row.id (if confirmed then .none else .endUnconfirmed) none
        return result) l' := by
    intro l' hl'
    refine obeys_bind.mpr (obeys_setState (Or.inr ⟨hl'.entered, Or.inl rfl⟩) fun r => ?_)
    have hset : InBlock (l'.afterSet row.id .ending none r) row.id l'.confirmed :=
      ⟨by simpa [afterSet, Detection.ending, Detection.none, Detection.endUnconfirmed] using
        hl'.entered, rfl, hl'.isOver.later later_afterSet, hl'.reported⟩
    have hend : ∀ b, InBlock ((l'.afterSet row.id .ending none r).afterEnd row.id b) row.id b :=
      fun b => ⟨hset.entered, rfl, hset.isOver.later steady_afterEnd.toLater, hset.reported⟩
    refine obeys_bind.mpr (obeys_tryCatch.mpr (obeys_endRun (fun b => ?_) fun e => ?_))
    · refine obeys_bind.mpr (obeys_tryCatch.mpr ((hbody _ b (hend b)).mono ?_ ?_))
      · rintro l'' _ ⟨hin, hword⟩
        refine obeys_bind.mpr (obeys_setState (Or.inr ⟨hin.entered, ?_⟩) fun r => hQ _ ?_)
        · cases b with
          | true => exact Or.inr (Or.inl ⟨rfl, Or.inl hin.confirmed⟩)
          | false => exact Or.inr (Or.inr ⟨rfl, hin.confirmed, Or.inl hword⟩)
        · exact hin.done.later later_afterSet
      · exact fun l'' e hin => obeys_leave hin fun l' => hE l' e
    · exact obeys_leave (hend false) fun l' => hE l' e
  refine obeys_bind.mpr ?_
  unfold noRun
  split_ifs with hstatus hcamera
  · exact hapart hstatus
  · refine obeys_bind.mpr (obeys_op trivial fun known _ => ?_)
    cases known with
    | true => exact hin l (hblock (not_not.mp hstatus))
    | false => exact hleft
  · exact hin l (hblock (not_not.mp hstatus))

private theorem obeys_letGo {ids : List Id} {stuck : List (Id × DetectionState)}
    (hstuck : ∀ entry ∈ stuck, entry.2 = .starting) (hids : l.activeIds = some ids) :
    Obeys contract.toMonitor (fun l' _ => l.Steady l') E (letGo ids stuck) l := by
  refine obeys_forM (fun entry hentry l' hl' => ?_) (Steady.refl l)
  have hstarting := hstuck entry hentry
  refine obeys_bind.mpr (obeys_setState ⟨?_, ?_, fun hd => ?_⟩ fun r =>
    hl'.trans (steady_afterSet fun current hmem heq => ?_))
  · simp [hstarting]
  · simp [hstarting]
  · refine Or.inl ?_
    split_ifs at hd ⊢ with hmem
    · rcases hd with hd | hd <;> cases hd
    · exact ⟨rfl, by rw [hstarting], ids, hl'.activeIds.trans hids, hmem⟩
  · rw [← List.head_eq_of_cons_eq heq, hstarting] at hmem
    simp [idle] at hmem

omit [DecidableEq Id] in
theorem allows_idle {detection : Detection}
    (hd : detection.state ≠ .endUnconfirmed ∧ detection.state ≠ .ending) :
    l.Allows (.set session detection (some idle)) :=
  allows_set_some hd (fun h => by simp [idle] at h) fun h => by simp [idle] at h

private theorem obeys_readNone {ended : List Id} :
    Obeys contract.toMonitor (fun l' _ => l.Steady l') E (readNone ended) l :=
  obeys_forM (fun _ _ _ hl' => obeys_bind.mpr (obeys_setState (allows_idle ⟨nofun, nofun⟩)
    fun _ => hl'.trans steady_afterIdle)) (Steady.refl l)

private theorem obeys_showDisabled {row : Option (Session Id)} {wanted : Option (Session Id × Camera Id)} :
    Obeys contract.toMonitor (fun l' _ => l.Steady l') E (showDisabled row wanted) l := by
  unfold showDisabled
  split
  · next session =>
    have hset : ∀ l', l.Steady l' → Obeys contract.toMonitor (fun l'' _ => l.Steady l'') E
        (do let _ ← setState session.id .cameraDisabled (some idle)) l' := fun l' hl' =>
      obeys_bind.mpr (obeys_setState (allows_idle ⟨nofun, nofun⟩) fun _ =>
        hl'.trans steady_afterIdle)
    split_ifs with hcamera
    · exact hset l (Steady.refl l)
    · refine obeys_bind.mpr (obeys_bind.mpr (obeys_op trivial fun detection _ => ?_))
      by_cases hd : detection = Detection.none
      · simpa [hd] using steady_stateOf
      · simpa [hd] using hset _ steady_stateOf
  · exact Steady.refl l

private theorem mem_of_wantedOf {cameras : List (Camera Id)} {rows : List (Session Id)}
    {wanted : Session Id × Camera Id} (h : wantedOf cameras rows.head? = some wanted) :
    wanted.1.id ∈ rows.map Session.id := by
  cases rows with
  | nil => cases h
  | cons row rows =>
    simp only [wantedOf, List.head?_cons, Option.bind_eq_bind, Option.bind_some,
      Option.bind_eq_some_iff] at h
    obtain ⟨id, _, camera, _, h⟩ := h
    split_ifs at h
    cases h
    exact List.mem_cons_self

/-- A Run that is not the wanted Session's is ended, unless it is ending already. -/
theorem obeys_endOther {run : Option (Run Id)} {wanted : Option (Session Id × Camera Id)}
    {ids : List Id} (hwanted : ∀ w ∈ wanted, w.1.id ∈ ids)
    (hE : ∀ l' e, l.Later l' → E l' e) :
    Obeys contract.toMonitor (fun l' _ => l.Steady l' ∧
      ∀ r ∈ run, r.state ≠ .ending → r.session ∈ ids ∨ r.session ∈ l'.ends) E
      (endOther run wanted) l := by
  cases run with
  | none => exact ⟨Steady.refl l, nofun⟩
  | some r =>
    unfold endOther
    dsimp only
    split_ifs with h
    · refine obeys_bind.mpr (obeys_endRun (fun b => ⟨steady_afterEnd, fun r' hr' _ => ?_⟩)
        fun e => hE _ e steady_afterEnd.toLater)
      cases hr'
      exact Or.inr List.mem_cons_self
    · refine ⟨Steady.refl l, fun r' hr' hstate => ?_⟩
      cases hr'
      obtain ⟨w, hw, heq⟩ := Option.map_eq_some_iff.mp (not_not.mp (not_and.mp h hstate))
      exact Or.inl (heq ▸ hwanted w hw)

private theorem obeys_askFor {wanted : Session Id} {camera : Camera Id} {run : Option (Run Id)}
    (hids : ∃ ids ∈ l.activeIds, wanted.id ∈ ids) (hgaveUp : l.gaveUp = [])
    (hE : ∀ l' e, l.Later l' → E l' e) :
    Obeys contract.toMonitor (fun l' _ => l.Later l') E (askFor wanted camera run) l := by
  refine obeys_bind.mpr (obeys_op trivial fun seen _ => ?_)
  generalize hl₁ : l.next (.stateOf wanted.id) seen = l₁
  have h₁ : l.Steady l₁ := hl₁ ▸ steady_stateOf
  dsimp only
  split_ifs with hbusy
  · exact h₁.toLater
  have hcurrent : seen.state ∈ idle := not_not.mp (not_or.mp hbusy).1
  split
  · refine obeys_bind.mpr (obeys_op trivial fun _ _ => ?_)
    exact obeys_bind.mpr (obeys_setState (allows_idle ⟨nofun, nofun⟩) fun _ =>
      h₁.toLater.trans later_afterSet)
  · -- the state is put back only if it is still the one the tick has seen
    have hask : ∀ l' shown, l₁.Steady l' →
        (shown.state = .endUnconfirmed ∨ shown.state = .ending →
          seen.state = .notWatching ∧ l'.lastRead = some (wanted.id, shown.state)) →
        Obeys contract.toMonitor (fun l'' _ => l.Later l'') E (do
          if ← setState wanted.id shown (some [seen.state]) then
            watch wanted.id camera.aliasName [shown.state]) l' := by
      intro l' shown hl' hshown
      refine obeys_bind.mpr (obeys_setState ⟨fun h => ?_, fun h => ?_, fun h => ?_⟩ fun r => ?_)
      · rw [← List.mem_singleton.mp h] at hcurrent
        simp [idle] at hcurrent
      · rw [← List.mem_singleton.mp h] at hcurrent
        simp [idle] at hcurrent
      · exact Or.inr ⟨by rw [(hshown h).1], (hshown h).2⟩
      · have hset : l.Later (l'.afterSet wanted.id shown (some [seen.state]) r) :=
          (h₁.trans hl').toLater.trans later_afterSet
        cases r with
        | false => exact hset
        | true =>
          rw [if_pos rfl]
          refine obeys_watch (fun _ => ⟨by simp [afterSet], ?_, ?_⟩) (fun h => ?_) (fun h => ?_)
            (fun l'' h'' => hset.trans h'') fun l'' e h'' => hE l'' e (hset.trans h'')
          · rw [hset.activeIds]
            exact hids
          · simp [afterSet, (h₁.trans hl').gaveUp, hgaveUp]
          · have h := (List.mem_singleton.mp h).symm
            simp [afterSet, (hshown (Or.inl h)).1, h]
          · have h := (List.mem_singleton.mp h).symm
            simp [afterSet, (hshown (Or.inr h)).1, h]
    refine obeys_bind.mpr ?_
    unfold shownMeanwhile
    split_ifs with hnone hwatching
    · exact hask l₁ _ (Steady.refl l₁) fun h => by rcases h with h | h <;> cases h
    · exact hask l₁ _ (Steady.refl l₁) fun h => by rcases h with h | h <;> cases h
    · refine obeys_op trivial fun shown _ => hask _ shown steady_stateOf fun _ => ⟨?_, rfl⟩
      simp only [idle, List.mem_cons, List.not_mem_nil, or_false] at hcurrent
      exact (hcurrent.resolve_left hnone).resolve_left hwatching

/-- A thread that has made no call yet. -/
def Local.fresh (request : Request Id) : Local Id := { request := request }

private theorem obeys_reconcile {request : Request Id} (hE : ∀ l' e, l'.Over → E l' e) :
    Obeys contract.toMonitor (fun l' _ => l'.Done) E reconcile (Local.fresh request) := by
  have hstatus : Obeys contract.toMonitor (fun l' answer => l'.Over ∧ l'.gaveUp = [] ∧
      l'.reported = answer.1 ∧ (answer.2 = false → answer.1 = none)) E
      statusRead (Local.fresh request) := by
    refine obeys_bind.mpr (obeys_op trivial fun r _ => ?_)
    rcases r with e | run
    · cases e with
      | unreachable => exact ⟨⟨rfl, rfl⟩, rfl, rfl, fun _ => rfl⟩
      | _ => exact hE _ _ ⟨rfl, rfl⟩
    · exact ⟨⟨rfl, rfl⟩, rfl, rfl, nofun⟩
  refine obeys_bind.mpr (hstatus.mono (fun l₁ answer ⟨ho, hg, hrun, hdown⟩ => ?_) fun _ _ h => h)
  refine obeys_bind.mpr (obeys_bind.mpr (obeys_op (o := .listCameras) trivial fun r _ =>
    obeys_ofExcept.mpr ⟨fun cameras _ => ?_, fun e _ => hE _ e ho⟩))
  refine obeys_bind.mpr (obeys_bind.mpr (obeys_op (o := .listActive) trivial fun r' _ =>
    obeys_ofExcept.mpr ⟨fun rows hrows => ?_, fun e he => hE _ e (by rw [he]; exact ho)⟩))
  subst hrows
  generalize hl₂ : Local.next _ .listActive (.ok rows) = l₂
  have hids : l₂.activeIds = some (rows.map Session.id) := by rw [← hl₂]; rfl
  have ho₂ : l₂.Over := by rw [← hl₂]; exact ⟨ho.reopening, ho.started⟩
  have hg₂ : l₂.gaveUp = [] := by rw [← hl₂]; exact hg
  have hrun₂ : l₂.reported = answer.1 := by rw [← hl₂]; exact hrun
  have hraise : ∀ l' e, l₂.Later l' → E l' e := fun l' e h => hE l' e (ho₂.later h)
  refine obeys_bind.mpr (obeys_op trivial fun locked hlocked => ?_)
  refine obeys_bind.mpr ((obeys_letGo hlocked hids).mono (fun l₃ _ h₃ => ?_) fun _ _ h => h)
  refine obeys_bind.mpr (obeys_readNone.mono (fun l₄ _ h₄ => ?_) fun _ _ h => h)
  refine obeys_bind.mpr (obeys_showDisabled.mono (fun l₅ _ h₅ => ?_) fun _ _ h => h)
  have h₂ : l₂.Steady l₅ := (h₃.trans h₄).trans h₅
  have hwanted : ∀ w ∈ wantedOf cameras rows.head?, w.1.id ∈ rows.map Session.id :=
    fun w hw => mem_of_wantedOf hw
  cases hanswer : answer.2 with
  | true =>
    simp only [if_true]
    refine obeys_bind.mpr ((obeys_endOther hwanted fun l' e h =>
      hraise l' e (h₂.toLater.trans h)).mono (fun l₆ run ⟨h₆, hends⟩ => ?_) fun _ _ h => h)
    have h : l₂.Steady l₆ := h₂.trans h₆
    have hids₆ : l₆.activeIds = some (rows.map Session.id) := h.activeIds.trans hids
    have hdone : l₆.Done := by
      refine ⟨ho₂.later h.toLater, fun r hr hstate => ⟨_, hids₆, ?_⟩⟩
      rw [h.reported, hrun₂] at hr
      exact hends r hr hstate
    cases hw : wantedOf cameras rows.head? with
    | none => exact hdone
    | some w =>
      exact (obeys_askFor ⟨_, hids₆, hwanted w hw⟩ (h.gaveUp.trans hg₂) fun l' e h' =>
        hraise l' e (h.toLater.trans h')).mono (fun l' _ h' => hdone.later h') fun _ _ h => h
  | false =>
    simp only [Bool.false_eq_true, if_false]
    have hdone : ∀ l', l₂.Later l' → l'.Done := fun l' h =>
      ⟨ho₂.later h, fun r hr => by
        rw [h.reported, hrun₂, hdown hanswer] at hr
        cases hr⟩
    cases wantedOf cameras rows.head? with
    | none => exact hdone l₅ h₂.toLater
    | some w =>
      exact obeys_bind.mpr (obeys_setState (allows_idle ⟨nofun, nofun⟩) fun _ =>
        hdone _ (h₂.toLater.trans later_afterSet))

private theorem obeys_createSession {camera : Option Id} (hl : l = Local.fresh (.create camera)) :
    Obeys contract.toMonitor (fun l' _ => l'.Done) (fun l' _ => l'.Over)
      (createSession camera) l := by
  subst hl
  refine obeys_bind.mpr (obeys_bind.mpr (obeys_op (o := .addSession camera) rfl fun r _ =>
    obeys_ofExcept.mpr ⟨fun row _ => ?_, fun e _ => ⟨rfl, rfl⟩⟩))
  have hdone : ∀ l', (Local.fresh (.create camera)).Later l' → l'.Done := fun l' h =>
    Done.later h ⟨⟨rfl, rfl⟩, nofun⟩
  cases hcamera : row.camera with
  | none => exact hdone _ (Later.refl _)
  | some c =>
    refine obeys_bind.mpr (obeys_bind.mpr (obeys_op (o := .cameraAlias c) trivial fun r' _ =>
      obeys_ofExcept.mpr ⟨fun aliasName _ => ?_, fun e _ => ⟨rfl, rfl⟩⟩))
    refine obeys_bind.mpr (obeys_bind.mpr (obeys_setState (Or.inl ⟨⟨camera, rfl⟩, rfl⟩) fun _ => ?_))
    exact obeys_watch nofun (fun h => by simp at h) (fun h => by simp at h)
      (fun l' h => hdone l' (Later.trans later_afterSet h))
      fun l' e h => (hdone l' (Later.trans later_afterSet h)).toOver

theorem obeys_serviceUpdate {status : Option Status} {Q : Local Id → Unit → Prop}
    (h : l.Allows (.saveSession session status))
    (hQ : Q (l.next (.saveSession session status) (.ok ())) ())
    (hsave : ∀ e, E (l.next (.saveSession session status) (.error e)) e)
    (hdetail : ∀ e,
      E { l.next (.saveSession session status) (.ok ()) with reopening := false } e) :
    Obeys contract.toMonitor Q E (Service.updateSession session status) l := by
  refine obeys_bind.mpr (obeys_bind.mpr (obeys_op (o := .saveSession session status) h
    fun r _ => obeys_ofExcept.mpr ⟨fun _ hr => ?_, fun e hr => ?_⟩))
  · subst hr
    refine obeys_bind.mpr (obeys_op (o := .sessionDetail session) trivial fun r _ =>
      obeys_ofExcept.mpr ⟨fun _ hr => ?_, fun e hr => ?_⟩)
    · subst hr
      exact hQ
    · subst hr
      exact hdetail e
  · subst hr
    exact hsave e

omit [DecidableEq Id] in
theorem Local.Over.word {word : Word} (h : l.Over) : ({ l with word := word } : Local Id).Over :=
  ⟨h.reopening, h.started⟩

omit [DecidableEq Id] in
theorem InBlock.word {confirmed : Bool} {word : Word} (h : InBlock l session confirmed) :
    InBlock { l with word := word } session confirmed :=
  ⟨h.entered, h.confirmed, h.isOver.word, h.reported⟩

/-- A body that ends the Session: whatever it fails of, the thread's place in its block stands. -/
structure Ends (session : Id) (body : M Id Unit) : Prop where
  obeys : ∀ (l : Local Id) (Q : Local Id → Unit → Prop) (E : Local Id → Exn Id → Prop),
    l.reopening = false → (l.entered = some session ∨ l.entered = none) →
    Q { l with word := .inactive } () →
    (∀ word e, E { l with word := word } e) →
    Obeys contract.toMonitor Q E body l

private theorem ends_update : Ends session (Service.updateSession session (some .completed)) where
  obeys l Q E hl hentered hQ hE := by
    refine obeys_serviceUpdate hentered hQ (fun e => hE _ e) fun e => ?_
    have heq : ({ l with word := .inactive, reopening := false } : Local Id) =
        { l with word := .inactive } := by rw [← hl]
    exact heq ▸ hE .inactive e

private theorem ends_delete : Ends session (Service.deleteSession session) where
  obeys l Q E _ hentered hQ hE := by
    refine obeys_bind.mpr (obeys_op (o := .deleteSession session) hentered fun r _ =>
      obeys_ofExcept.mpr ⟨fun _ hr => ?_, fun e hr => ?_⟩)
    · subst hr
      exact hQ
    · subst hr
      exact hE .none e

/-- A request that ends a Session, from its read on. -/
theorem obeys_endingRequest {request : Request Id} {body : M Id Unit} (hbody : Ends session body)
    (hrequest : request = .update session (some .completed) ∨ request = .delete session) :
    Obeys contract.toMonitor (fun l' _ => l'.Done) (fun l' _ => l'.Over)
      (do let row ← getSessionOr404 session; ending row body) (Local.fresh request) := by
  refine obeys_bind.mpr (obeys_bind.mpr (obeys_bind.mpr (obeys_op (o := .getSession session)
    ⟨rfl, hrequest⟩ fun answer hanswer =>
      obeys_ofExcept.mpr ⟨fun found hr => ?_, fun e hr => ?_⟩)))
  · subst hr
    cases found with
    | none => exact ⟨rfl, rfl⟩
    | some row =>
      have hid : row.id = session := hanswer row rfl
      have hfree : ∀ l' : Local Id, l'.Over → l'.reported = none → l'.entered = none →
          Obeys contract.toMonitor (fun l' _ => l'.Done) (fun l' _ => l'.Over) body l' := by
        intro l' ho hrun hin
        refine hbody.obeys l' _ _ ho.reopening (Or.inr hin) ⟨ho.word, fun run hreported => ?_⟩
          fun _ _ => ho.word
        exact absurd (hrun.symm.trans hreported) nofun
      have hnext : ∀ l', l' = (Local.fresh request).next (.getSession session) (.ok (some row)) →
          l'.Over ∧ l'.reported = none ∧ (row.status = .active → l'.entered = some row.id) ∧
            (row.status ≠ .active → l'.entered = none) := by
        intro l' hl'
        subst hl'
        cases hrow : row.status with
        | active => exact ⟨by simp [Local.next, hrow]; exact ⟨rfl, rfl⟩,
            by simp [Local.next, Local.fresh, hrow], by simp [Local.next, hrow], nofun⟩
        | completed => exact ⟨by simp [Local.next, hrow]; exact ⟨rfl, rfl⟩,
            by simp [Local.next, Local.fresh, hrow], nofun,
            by simp [Local.next, Local.fresh, hrow]⟩
      obtain ⟨ho, hrun, hin, hout⟩ := hnext _ rfl
      refine obeys_ending (fun hrow => hfree _ ho hrun (hout hrow))
        (hfree _ ⟨ho.reopening, ho.started⟩ hrun rfl)
        (fun hrow => ⟨hin hrow, rfl, ho, hrun⟩) (fun l' confirmed h => ?_) (fun _ h => h)
        fun _ _ h => h
      exact hbody.obeys l' _ _ h.isOver.reopening (Or.inl (hid ▸ h.entered)) ⟨h.word, rfl⟩
        fun _ _ => h.word
  · subst hr
    exact ⟨rfl, rfl⟩

private theorem obeys_updateSession {status : Option Status} :
    Obeys contract.toMonitor (fun l' _ => l'.Done) (fun l' _ => l'.Over)
      (updateSession session status) (Local.fresh (.update session status)) := by
  unfold updateSession
  rcases status with _ | _ | _
  · exact obeys_bind.mpr (obeys_serviceUpdate trivial ⟨⟨rfl, rfl⟩, nofun⟩ (fun _ => ⟨rfl, rfl⟩)
      fun _ => ⟨rfl, rfl⟩)
  · refine obeys_bind.mpr (obeys_serviceUpdate rfl ?_ (fun _ => ⟨rfl, rfl⟩) fun _ => ⟨rfl, rfl⟩)
    refine obeys_bind.mpr (obeys_setState ⟨fun _ => Or.inl ⟨rfl, rfl⟩, fun h => ?_, fun h => ?_⟩
      fun r => ?_)
    · simp at h
    · rcases h with h | h <;> cases h
    · exact ⟨⟨by simp [afterSet, Local.next, Local.fresh], later_afterSet.started rfl⟩, nofun⟩
  · have hend : Obeys _ _ _ _ (Local.fresh (.update session (some .completed))) :=
      obeys_endingRequest (ends_update : Ends session _) (Or.inl rfl)
    exact obeys_bind.mpr ((obeys_bind.mp hend).mono (fun l' row hrow =>
      obeys_bind.mpr (hrow.mono (fun _ _ h => h) fun _ _ h => h)) fun _ _ h => h)

private theorem obeys_deleteSession :
    Obeys contract.toMonitor (fun l' _ => l'.Done) (fun l' _ => l'.Over)
      (deleteSession session) (Local.fresh (.delete session)) :=
  obeys_endingRequest ends_delete (Or.inr rfl)

theorem holds_of_obeys {p : M Id Unit}
    (h : Obeys contract.toMonitor (fun l' _ => l'.Done) (fun l' _ => l'.Over) p l) :
    contract.Holds (do p; return none) l :=
  obeys_bind.mpr (h.mono (fun _ _ hdone => ⟨nofun, fun _ => hdone⟩) fun _ _ h => h)

private theorem find?_id {rows : List (Session Id)} {row : Session Id}
    (h : rows.find? (fun row => row.id = session) = some row) : row.id = session := by
  simpa using List.find?_some h

private theorem possible_of_answer {w w' : World Id} {o : Op Id} {choice : Choice Id} {r : Ans Id o}
    (h : answer w o choice = some (r, w')) : Possible o r := by
  cases o with
  | getSession session =>
    intro row hrow
    subst hrow
    cases choice <;> simp only [answer, read] at h <;> try cases h
    have hfound := congrArg Prod.fst (Option.some.inj h)
    exact find?_id (Except.ok.inj hfound)
  | lockedRead ids =>
    intro entry hentry
    cases choice <;> simp only [answer] at h <;> cases h
    obtain ⟨e, _, he⟩ := List.mem_filterMap.mp hentry
    split_ifs at he with hs
    cases he
    exact hs.1
  | _ => trivial

theorem follows : Follows backend (contract : Contract (Ans Id) (Request Id) (Local Id)) where
  ready _ := rfl
  holds l request hl := by
    subst hl
    cases request with
    | tick => exact holds_of_obeys (obeys_reconcile fun _ _ h => h)
    | watch session aliasName =>
      have hdone : ∀ l', (Local.fresh (.watch session aliasName)).Later l' → l'.Done := fun l' h =>
        Done.later h ⟨⟨rfl, rfl⟩, nofun⟩
      exact holds_of_obeys (obeys_watch nofun (fun h => by simp at h) (fun h => by simp at h)
        (fun l' h => hdone l' h) fun l' e h => (hdone l' h).toOver)
    | create camera => exact holds_of_obeys (obeys_createSession rfl)
    | update session status => exact holds_of_obeys obeys_updateSession
    | delete session => exact holds_of_obeys obeys_deleteSession
  possible _ _ _ _ _ h := possible_of_answer h

end Kanat.DetectionSync
