import Mathlib.Data.List.Nodup
import Kanat.ConditionalRuns
import Kanat.DeviceService

/-! # One capture for each observer

A capture is started before it is registered, so one that finds its observer registered already is known to nobody. -/
namespace Kanat.DeviceService
open ConditionalRuns InsertionOrderDict

variable {Observer : Type} [DecidableEq Observer] {w : World Observer} {observer : Observer} {dev : Device Observer}
  {attempt : Attempt} {deviceName filter : String}

/-- A device is found, opened, filtered and started. -/
def Attempt.comesUp (attempt : Attempt) (deviceName : String) : Bool :=
  ((attempt.devices.find? fun d => d.name = deviceName).any BaseDevice.hasInterface) && attempt.opens && attempt.filters &&
    attempt.starts

/-- The devices capturing are those registered, one an observer; a packet reaches an observer once, and only one that
is registered. -/
structure OneCapture (accepts : String → List UInt8 → Bool) (w : World Observer) : Prop where
  registered : ∀ dev, dev ∈ w.capturing ↔ ∃ observer, w.activeSubscriptions.get observer = some dev
  atMostOne : ∀ observer, (w.capturing.filter fun dev => dev.observer = observer).length ≤ 1
  once : ∀ packet observer, (w.forwarded accepts packet).count (observer, packet) ≤ 1
  silent : ∀ packet observer, w.activeSubscriptions.get observer = none → (observer, packet) ∉ w.forwarded accepts packet

/-- A subscription does not come up while its observer has one. -/
def NotTwice (w : World Observer) : Event Observer → Prop
  | .subscribe attempt observer deviceName _ =>
      w.activeSubscriptions.get observer = none ∨ attempt.comesUp deviceName = false
  | _ => True

/-- Holds of every state there is, however often an observer subscribed. -/
structure WellKept (w : World Observer) : Prop where
  fresh : ∀ entry ∈ w.opened, entry.1.instanceId < w.nextInstance
  nodup : (w.opened.map fun entry => entry.1.instanceId).Nodup
  keyed : ∀ observer dev, w.activeSubscriptions.get observer = some dev → dev.observer = observer
  made : ∀ observer dev, w.activeSubscriptions.get observer = some dev → dev.instanceId < w.nextInstance

def Registered (w : World Observer) : Prop :=
  ∀ dev, dev ∈ w.capturing ↔ ∃ observer, w.activeSubscriptions.get observer = some dev

omit [DecidableEq Observer] in
theorem mem_capturing : dev ∈ w.capturing ↔ (dev, true) ∈ w.opened := by
  simp [World.capturing]

/-- The instance a subscription makes. -/
def World.made (w : World Observer) (observer : Observer) (deviceName filter : String) : Device Observer :=
  ⟨w.nextInstance, observer, deviceName, filter⟩

/-- With an instance opened, and perhaps started. -/
def World.opening (w : World Observer) (dev : Device Observer) (started : Bool) : World Observer :=
  { w with nextInstance := w.nextInstance + 1, opened := w.opened ++ [(dev, started)] }

theorem subscribe_cases (w : World Observer) (attempt : Attempt) (observer : Observer) (deviceName filter : String) :
    (attempt.comesUp deviceName = true ∧ (w.subscribeWithFilter attempt observer deviceName filter).2 =
      (w.opening (w.made observer deviceName filter) true).register observer (w.made observer deviceName filter)) ∨
    attempt.comesUp deviceName = false ∧ ((w.subscribeWithFilter attempt observer deviceName filter).2 = w ∨
      (w.subscribeWithFilter attempt observer deviceName filter).2 = { w with nextInstance := w.nextInstance + 1 } ∨
      (w.subscribeWithFilter attempt observer deviceName filter).2 =
        w.opening (w.made observer deviceName filter) false) := by
  rw [World.subscribeWithFilter, Attempt.comesUp]
  cases attempt.devices.find? fun d => d.name = deviceName with
  | none => exact .inr ⟨rfl, .inl rfl⟩
  | some baseDev =>
    dsimp only [Option.any_some]
    cases baseDev.hasInterface with
    | false => exact .inr ⟨rfl, .inl rfl⟩
    | true =>
      cases attempt.opens with
      | false => exact .inr ⟨rfl, .inr (.inl rfl)⟩
      | true =>
        cases attempt.filters with
        | false => exact .inr ⟨rfl, .inr (.inr rfl)⟩
        | true =>
          cases attempt.starts with
          | false => exact .inr ⟨rfl, .inr (.inr rfl)⟩
          | true => exact .inl ⟨rfl, rfl⟩

theorem capturing_subscribe : (w.subscribeWithFilter attempt observer deviceName filter).2.capturing =
    w.capturing ++ if attempt.comesUp deviceName then [w.made observer deviceName filter] else [] := by
  rcases subscribe_cases w attempt observer deviceName filter with ⟨hup, hs⟩ | ⟨hup, hs | hs | hs⟩
  · have hregister : ((w.opening (w.made observer deviceName filter) true).register observer
        (w.made observer deviceName filter)).opened = w.opened ++ [(w.made observer deviceName filter, true)] := by
      rw [World.register]
      split <;> rfl
    rw [hs, hup, World.capturing, World.capturing, hregister]
    simp
  · rw [hs, hup]
    exact (List.append_nil _).symm
  · rw [hs, hup]
    exact (List.append_nil _).symm
  · rw [hs, hup, World.capturing, World.capturing, World.opening]
    simp

private theorem instanceId_ne (h : WellKept w) {started : Bool} (he : (dev, started) ∈ w.opened) :
    dev.instanceId ≠ w.nextInstance := Nat.ne_of_lt (h.fresh _ he)

theorem wellKept_opening (h : WellKept w) (started : Bool) (observer : Observer) (deviceName filter : String) :
    WellKept (w.opening (w.made observer deviceName filter) started) where
  fresh entry he := by
    rcases List.mem_append.mp he with he | he
    · exact Nat.lt_succ_of_lt (h.fresh entry he)
    · rw [List.mem_singleton.mp he]
      exact Nat.lt_succ_self _
  nodup := by
    rw [World.opening, List.map_append, List.nodup_append']
    refine ⟨h.nodup, List.nodup_singleton _, List.disjoint_singleton.mpr fun hm => ?_⟩
    obtain ⟨entry, he, hid⟩ := List.mem_map.mp hm
    exact instanceId_ne h he hid
  keyed := h.keyed
  made observer dev hg := Nat.lt_succ_of_lt (h.made observer dev hg)

theorem wellKept_register (h : WellKept w) (hdev : dev.observer = observer) (hmade : dev.instanceId < w.nextInstance) :
    WellKept (w.register observer dev) := by
  rw [World.register]
  split
  · refine ⟨h.fresh, h.nodup, fun o d hg => ?_, fun o d hg => ?_⟩
    all_goals
      by_cases ho : observer = o
      · subst ho
        rw [Dict.get_put_self] at hg
        cases hg
        assumption
      · rw [Dict.get_put_of_ne ho] at hg
        first | exact h.keyed o d hg | exact h.made o d hg
  · exact h

theorem wellKept_close (h : WellKept w) (dev : Device Observer) : WellKept (w.close dev) where
  fresh entry he := h.fresh entry (List.mem_of_mem_filter he)
  nodup := h.nodup.sublist (List.filter_sublist.map _)
  keyed := h.keyed
  made := h.made

theorem get_of_get_pop {K V : Type} [DecidableEq K] {d : Dict K V} {k k' : K} {v : V} (h : (d.pop k).get k' = some v) :
    d.get k' = some v := by
  by_cases hk : k = k'
  · subst hk
    rw [Dict.get_pop_self] at h
    cases h
  · rwa [Dict.get_pop_of_ne hk] at h

private theorem wellKept_foldl (h : WellKept w) (entries : Dict Observer (Device Observer)) :
    WellKept (entries.foldl (fun w entry => w.close entry.2) w) := by
  induction entries generalizing w with
  | nil => exact h
  | cons entry entries ih => exact ih (wellKept_close h entry.2)

theorem wellKept_step (accepts : String → List UInt8 → Bool) (h : WellKept w) (e : Event Observer) :
    WellKept (step accepts w e) := by
  cases e with
  | subscribe attempt observer deviceName filter =>
    simp only [step]
    rcases subscribe_cases w attempt observer deviceName filter with ⟨-, hs⟩ | ⟨-, hs | hs | hs⟩
    · rw [hs]
      exact wellKept_register (wellKept_opening h _ _ _ _) rfl (Nat.lt_succ_self _)
    · rw [hs]
      exact h
    · rw [hs]
      exact ⟨fun entry he => Nat.lt_succ_of_lt (h.fresh entry he), h.nodup, h.keyed,
        fun o d hg => Nat.lt_succ_of_lt (h.made o d hg)⟩
    · rw [hs]
      exact wellKept_opening h _ _ _ _
  | unsubscribe observer =>
    simp only [step, World.unsubscribe]
    split
    · have hpop : WellKept { w with activeSubscriptions := w.activeSubscriptions.pop observer } :=
        ⟨h.fresh, h.nodup, fun o d hg => h.keyed o d (get_of_get_pop hg), fun o d hg => h.made o d (get_of_get_pop hg)⟩
      exact wellKept_close hpop _
    · exact h
  | stopAll =>
    have hc := wellKept_foldl h w.activeSubscriptions
    exact ⟨hc.fresh, hc.nodup, fun _ _ hg => (by cases hg), fun _ _ hg => (by cases hg)⟩
  | arrive packet => exact ⟨h.fresh, h.nodup, h.keyed, h.made⟩

theorem mem_capturing_close {dev' : Device Observer} : dev' ∈ (w.close dev).capturing ↔ dev' ∈ w.capturing ∧ dev' ≠ dev := by
  simp [mem_capturing, World.close]

private theorem mem_capturing_foldl (entries : Dict Observer (Device Observer)) :
    dev ∈ (entries.foldl (fun w entry => w.close entry.2) w).capturing ↔
      dev ∈ w.capturing ∧ ∀ entry ∈ entries, dev ≠ entry.2 := by
  induction entries generalizing w with
  | nil => simp
  | cons entry entries ih =>
    rw [List.foldl_cons, ih, mem_capturing_close, and_assoc, List.forall_mem_cons]

/-- A subscription that comes up keeps the registry right if and only if its observer had none. -/
theorem registered_comesUp (h : WellKept w) (hr : Registered w) :
    Registered ((w.opening (w.made observer deviceName filter) true).register observer (w.made observer deviceName filter)) ↔
      w.activeSubscriptions.get observer = none := by
  have hnew (dev : Device Observer) : (dev, true) ∈ (w.opening (w.made observer deviceName filter) true).opened ↔
      (dev, true) ∈ w.opened ∨ dev = w.made observer deviceName filter := by
    simp [World.opening]
  rw [World.register]
  cases hg : w.activeSubscriptions.get observer with
  | some dev =>
    refine iff_of_false (fun hreg => ?_) (by simp)
    rw [if_neg (by simp [World.opening, hg])] at hreg
    obtain ⟨o, ho⟩ := (hreg (w.made observer deviceName filter)).mp (mem_capturing.mpr ((hnew _).mpr (.inr rfl)))
    exact absurd (h.made o _ ho) (Nat.lt_irrefl _)
  | none =>
    refine iff_of_true ?_ rfl
    rw [if_pos (by simp [World.opening, hg])]
    intro dev
    rw [mem_capturing]
    change (dev, true) ∈ (w.opening _ true).opened ↔ ∃ o, (w.activeSubscriptions.put observer _).get o = some dev
    rw [hnew, ← mem_capturing, hr dev]
    constructor
    · rintro (⟨o, ho⟩ | rfl)
      · have hne : observer ≠ o := fun he => by rw [he, ho] at hg; cases hg
        exact ⟨o, (Dict.get_put_of_ne hne).trans ho⟩
      · exact ⟨observer, Dict.get_put_self⟩
    · rintro ⟨o, ho⟩
      by_cases he : observer = o
      · subst he
        rw [Dict.get_put_self] at ho
        exact .inr (Option.some.inj ho).symm
      · rw [Dict.get_put_of_ne he] at ho
        exact .inl ⟨o, ho⟩

theorem registered_step (accepts : String → List UInt8 → Bool) (h : WellKept w) (hr : Registered w) (e : Event Observer) :
    Registered (step accepts w e) ↔ NotTwice w e := by
  cases e with
  | subscribe attempt observer deviceName filter =>
    simp only [step, NotTwice]
    rcases subscribe_cases w attempt observer deviceName filter with ⟨hup, hs⟩ | ⟨hup, hs⟩
    · rw [hs, hup, registered_comesUp h hr]
      simp
    · refine iff_of_true ?_ (.inr hup)
      rcases hs with hs | hs | hs
      · rw [hs]
        exact hr
      · rw [hs]
        exact hr
      · rw [hs]
        intro dev
        rw [mem_capturing]
        change (dev, true) ∈ w.opened ++ [(_, false)] ↔ ∃ o, w.activeSubscriptions.get o = some dev
        rw [← hr dev, mem_capturing]
        simp
  | unsubscribe observer =>
    refine iff_of_true ?_ trivial
    simp only [step, World.unsubscribe]
    split
    next dev hg =>
      intro dev'
      rw [mem_capturing_close]
      change dev' ∈ w.capturing ∧ dev' ≠ dev ↔ ∃ o, (w.activeSubscriptions.pop observer).get o = some dev'
      rw [hr dev']
      constructor
      · rintro ⟨⟨o, ho⟩, hne⟩
        have hn : observer ≠ o := fun he => by
          rw [← he, hg] at ho
          exact hne (Option.some.inj ho).symm
        exact ⟨o, (Dict.get_pop_of_ne hn).trans ho⟩
      · rintro ⟨o, ho⟩
        by_cases he : observer = o
        · subst he
          rw [Dict.get_pop_self] at ho
          cases ho
        · rw [Dict.get_pop_of_ne he] at ho
          refine ⟨⟨o, ho⟩, fun hd => he ?_⟩
          subst hd
          rw [← h.keyed _ _ hg, h.keyed _ _ ho]
    · exact hr
  | stopAll =>
    refine iff_of_true (fun dev => ?_) trivial
    change dev ∈ (w.activeSubscriptions.foldl (fun w entry => w.close entry.2) w).capturing ↔
      ∃ o, Dict.get ([] : Dict Observer (Device Observer)) o = some dev
    rw [mem_capturing_foldl, hr dev]
    refine iff_of_false ?_ (by simp)
    rintro ⟨⟨o, ho⟩, hne⟩
    exact hne _ (Dict.mem_of_get ho) rfl
  | arrive packet => exact iff_of_true hr trivial

omit [DecidableEq Observer] in
private theorem nodup_capturing (h : (w.opened.map fun entry => entry.1.instanceId).Nodup) : w.capturing.Nodup := by
  have hsub : ((w.capturing).map Device.instanceId).Sublist (w.opened.map fun entry => entry.1.instanceId) := by
    rw [World.capturing, List.map_map]
    exact List.filter_sublist.map _
  exact (h.sublist hsub).of_map _

theorem oneCapture_of_registered (accepts : String → List UInt8 → Bool) (h : WellKept w) (hr : Registered w) :
    OneCapture accepts w := by
  have hone (observer : Observer) : (w.capturing.filter fun dev => dev.observer = observer).length ≤ 1 := by
    have hn := (nodup_capturing h.nodup).filter fun dev => dev.observer = observer
    match hl : w.capturing.filter fun dev => dev.observer = observer with
    | [] =>
      rw [hl]
      exact Nat.zero_le _
    | [_] =>
      rw [hl]
      exact Nat.le_refl _
    | d :: d' :: rest =>
      rw [hl] at hn
      have hmem (dev) (hd : dev ∈ d :: d' :: rest) : w.activeSubscriptions.get observer = some dev := by
        rw [← hl, List.mem_filter, decide_eq_true_eq] at hd
        obtain ⟨o, ho⟩ := (hr dev).mp hd.1
        rw [← hd.2, h.keyed o dev ho]
        exact ho
      have heq : d = d' := Option.some.inj ((hmem d (by simp)).symm.trans (hmem d' (by simp)))
      exact absurd (heq ▸ List.mem_cons_self) (List.nodup_cons.mp hn).1
  refine ⟨hr, hone, fun packet observer => ?_, fun packet observer hg hm => ?_⟩
  · rw [World.forwarded]
    split
    · exact Nat.zero_le _
    · rw [List.count, List.countP_map, List.countP_filter]
      refine Nat.le_trans ?_ (hone observer)
      rw [← List.countP_eq_length_filter]
      refine List.countP_mono_left fun dev _ hd => ?_
      simp only [Function.comp_apply, Bool.and_eq_true, beq_iff_eq, Prod.mk.injEq] at hd
      exact decide_eq_true hd.1.1
  · rw [World.forwarded] at hm
    split at hm
    · cases hm
    · obtain ⟨dev, hd, he⟩ := List.mem_map.mp hm
      obtain ⟨o, ho⟩ := (hr dev).mp (List.mem_of_mem_filter hd)
      cases he
      rw [h.keyed o dev ho, ho] at hg
      cases hg

variable {accepts : String → List UInt8 → Bool} {e : Event Observer} {events events' : List (Event Observer)}

theorem wellKept_start : WellKept (World.start : World Observer) :=
  ⟨fun _ he => (nomatch he), List.nodup_nil, fun _ _ hg => (by cases hg), fun _ _ hg => (by cases hg)⟩

theorem registered_start : Registered (World.start : World Observer) := fun _ =>
  iff_of_false (fun h => nomatch h) fun ⟨_, h⟩ => nomatch h

def Event.subscribes (observer : Observer) : Event Observer → Prop
  | .subscribe _ observer' _ _ => observer' = observer
  | _ => False

/-- The observer unsubscribes, or all are stopped. -/
def Event.ends (observer : Observer) : Event Observer → Prop
  | .unsubscribe observer' => observer' = observer
  | .stopAll => True
  | _ => False

def World.sentTo (w : World Observer) (observer : Observer) : List (Observer × RawPacketEvent) :=
  w.sent.filter fun entry => entry.1 = observer

theorem sent_subscribe (w : World Observer) (attempt : Attempt) (observer : Observer) (deviceName filter : String) :
    (w.subscribeWithFilter attempt observer deviceName filter).2.sent = w.sent := by
  rcases subscribe_cases w attempt observer deviceName filter with ⟨-, hs⟩ | ⟨-, hs | hs | hs⟩
  · rw [hs, World.register]
    split <;> rfl
  · rw [hs]
  · rw [hs]
  · rw [hs]
    rfl

private theorem get_subscribe {observer' : Observer} (hn : observer ≠ observer') :
    (w.subscribeWithFilter attempt observer deviceName filter).2.activeSubscriptions.get observer' =
      w.activeSubscriptions.get observer' := by
  rcases subscribe_cases w attempt observer deviceName filter with ⟨-, hs⟩ | ⟨-, hs | hs | hs⟩
  · rw [hs, World.register]
    split
    · exact Dict.get_put_of_ne hn
    · rfl
  · rw [hs]
  · rw [hs]
  · rw [hs]
    rfl

private theorem sent_foldl (entries : Dict Observer (Device Observer)) (w : World Observer) :
    (entries.foldl (fun w entry => w.close entry.2) w).sent = w.sent := by
  induction entries generalizing w with
  | nil => rfl
  | cons entry entries ih => exact ih _

private theorem unregistered_step (hg : w.activeSubscriptions.get observer = none) (he : ¬ e.subscribes observer) :
    (step accepts w e).activeSubscriptions.get observer = none := by
  cases e with
  | subscribe attempt observer' deviceName filter => exact (get_subscribe he).trans hg
  | unsubscribe observer' =>
    simp only [step, World.unsubscribe]
    split
    · cases hp : (w.activeSubscriptions.pop observer').get observer with
      | none => exact hp
      | some dev => exact absurd (get_of_get_pop hp) (by simp [hg])
    · exact hg
  | stopAll => rfl
  | arrive packet => exact hg

theorem unregistered_ends (he : e.ends observer) : (step accepts w e).activeSubscriptions.get observer = none := by
  cases e with
  | subscribe attempt observer' deviceName filter => cases he
  | unsubscribe observer' =>
    cases he
    simp only [step, World.unsubscribe]
    split
    · exact Dict.get_pop_self
    next hg => exact hg
  | stopAll => rfl
  | arrive packet => cases he

theorem sent_step (he : ∀ packet, e ≠ .arrive packet) : (step accepts w e).sent = w.sent := by
  cases e with
  | subscribe attempt observer deviceName filter => exact sent_subscribe w attempt observer deviceName filter
  | unsubscribe observer =>
    simp only [step, World.unsubscribe]
    split <;> rfl
  | stopAll => exact sent_foldl _ w
  | arrive packet => exact absurd rfl (he packet)

private theorem sentTo_step (ho : OneCapture accepts w) (hg : w.activeSubscriptions.get observer = none) :
    (step accepts w e).sentTo observer = w.sentTo observer := by
  by_cases he : ∃ packet, e = .arrive packet
  · obtain ⟨packet, rfl⟩ := he
    have hnil : (w.forwarded accepts packet).filter (fun entry => entry.1 = observer) = [] := by
      refine List.filter_eq_nil_iff.mpr fun ⟨observer', packet'⟩ hm hd => ?_
      obtain rfl : packet' = packet := by
        rw [World.forwarded] at hm
        split at hm
        · cases hm
        · obtain ⟨dev, -, he⟩ := List.mem_map.mp hm
          cases he
          rfl
      obtain rfl : observer' = observer := of_decide_eq_true hd
      exact ho.silent packet' observer' hg hm
    rw [World.sentTo, step, List.filter_append, hnil, List.append_nil, World.sentTo]
  · rw [World.sentTo, sent_step fun packet hp => he ⟨packet, hp⟩, World.sentTo]

/-- Nothing is sent to an observer while it has no subscription. -/
theorem sentTo_run (h : WellKept w) (hr : Registered w) (hall : Each (step accepts) NotTwice w events)
    (hg : w.activeSubscriptions.get observer = none) (hn : ∀ e ∈ events, ¬ e.subscribes observer) :
    (run (step accepts) w events).sentTo observer = w.sentTo observer := by
  induction events generalizing w with
  | nil => rfl
  | cons e events ih =>
    have hnext := ih (wellKept_step accepts h e) ((registered_step accepts h hr e).mpr hall.1) hall.2
      (unregistered_step hg (hn e List.mem_cons_self)) fun e' he' => hn e' (List.mem_cons_of_mem _ he')
    exact hnext.trans (sentTo_step (oneCapture_of_registered accepts h hr) hg)

theorem one_capture_iff (accepts : String → List UInt8 → Bool) (events : List (Event Observer)) :
    ((∀ n, OneCapture accepts (run (step accepts) World.start (events.take n))) ↔
      Each (step accepts) NotTwice World.start events) ∧
    (Each (step accepts) NotTwice World.start events → ∀ before e after observer, events = before ++ e :: after →
      e.ends observer → (∀ e' ∈ after, ¬ e'.subscribes observer) →
        (run (step accepts) World.start events).sentTo observer = (run (step accepts) World.start before).sentTo observer) := by
  have hkeeps (w : World Observer) (e : Event Observer) (h : WellKept w) : WellKept (step accepts w e) :=
    wellKept_step accepts h e
  constructor
  · rw [← run_iff WellKept Registered hkeeps (fun w e h hr => registered_step accepts h hr e) wellKept_start registered_start]
    exact ⟨fun h n => (h n).registered,
      fun h n => oneCapture_of_registered accepts (run_keeps hkeeps wellKept_start _) (h n)⟩
  · rintro hall before e after observer rfl he hn
    obtain ⟨hbefore, he', hafter⟩ := each_append.mp hall
    have hboth : ∀ w e, (WellKept w ∧ Registered w) → NotTwice w e →
        WellKept (step accepts w e) ∧ Registered (step accepts w e) :=
      fun w e h hc => ⟨hkeeps w e h.1, (registered_step accepts h.1 h.2 e).mpr hc⟩
    obtain ⟨hkept, hreg⟩ := run_of_each hboth ⟨wellKept_start, registered_start⟩ hbefore
    obtain ⟨hkept', hreg'⟩ := hboth _ _ ⟨hkept, hreg⟩ he'
    have hsent : (step accepts (run (step accepts) World.start before) e).sentTo observer =
        (run (step accepts) World.start before).sentTo observer := by
      rw [World.sentTo, sent_step, World.sentTo]
      rintro packet rfl
      cases he
    rw [run_append]
    exact (sentTo_run hkept' hreg' hafter (unregistered_ends he) hn).trans hsent

/-- One device, on which everything works. -/
def works : Attempt := ⟨[⟨"eth0", true⟩], true, true, true⟩

/-- An observer subscribes again, and a packet comes; it unsubscribes, and another does. -/
def subscribedTwice : List (Event ℕ) :=
  [.subscribe works 1 "eth0" "tcp", .subscribe works 1 "eth0" "tcp", .arrive ⟨"eth0", [1], 0⟩, .unsubscribe 1,
    .arrive ⟨"eth0", [2], 0⟩]

theorem sent_twice :
    (run (step fun _ _ => true) World.start subscribedTwice).sent =
        [(1, ⟨"eth0", [1], 0⟩), (1, ⟨"eth0", [1], 0⟩), (1, ⟨"eth0", [2], 0⟩)] ∧
      (run (step fun _ _ => true) World.start subscribedTwice).activeSubscriptions = [] ∧
      (run (step fun _ _ => true) World.start subscribedTwice).capturing.length = 1 := by
  decide

end Kanat.DeviceService
