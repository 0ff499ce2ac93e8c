import Mathlib.Data.List.Nodup
import Mathlib.Data.List.Perm.Basic
import Kanat.InsertionOrderDict

/-! # The live hub

`core/live.py`. A queue is told by its identity and kept with what its `get` calls have returned. A set is gone
through in any order, and a thread's publish waits its turn on the loop. -/
namespace Kanat.LiveHub
open InsertionOrderDict
open scoped List

/-- An `asyncio.Queue`, with what its `get` calls have returned so far. -/
structure Queue where
  maxsize : ℕ
  items : List (Option String)
  got : List (Option String)
  deriving DecidableEq

namespace Queue

def full (queue : Queue) : Bool := 0 < queue.maxsize && queue.maxsize ≤ queue.items.length

/-- `none` is `QueueFull`. -/
def putNowait (queue : Queue) (item : Option String) : Option Queue :=
  if queue.full then none else some { queue with items := queue.items ++ [item] }

/-- `none` while there is nothing to take. -/
def get (queue : Queue) : Option Queue :=
  match queue.items with
  | [] => none
  | item :: items => some { queue with items, got := queue.got ++ [item] }

/-- `get_nowait` until it is empty. -/
def drain (queue : Queue) : Queue := { queue with items := [] }

private theorem putNowait_drain (queue : Queue) (item : Option String) :
    queue.drain.putNowait item = some { queue with items := [item] } := by
  have hf : queue.drain.full = false := by
    by_cases h : 0 < queue.maxsize
    · simp [full, drain, h, Nat.ne_of_gt h]
    · simp [full, drain, h]
  rw [putNowait, hf]
  rfl

end Queue

structure Hub (SessionId : Type) where
  subscribers : Dict SessionId (List ℕ)
  queues : ℕ → Option Queue

variable {SessionId Event : Type} [DecidableEq SessionId]

namespace Hub

def subscribersOf (hub : Hub SessionId) (session : SessionId) : List ℕ := (hub.subscribers.get session).getD []

def store (hub : Hub SessionId) (q : ℕ) (queue : Queue) : Hub SessionId :=
  { hub with queues := Function.update hub.queues q (some queue) }

def subscribe (queueSize : ℕ) (session : SessionId) (q : ℕ) (hub : Hub SessionId) : Hub SessionId :=
  let subscribers := hub.subscribersOf session
  let subscribers := if q ∈ subscribers then subscribers else subscribers ++ [q]
  { hub with subscribers := hub.subscribers.put session subscribers }.store q ⟨queueSize, [], []⟩

def unsubscribe (session : SessionId) (q : ℕ) (hub : Hub SessionId) : Hub SessionId :=
  match hub.subscribers.get session with
  | none => hub
  | some subscribers =>
    let subscribers := subscribers.filter (· ≠ q)
    { hub with
      subscribers :=
        if subscribers = [] then hub.subscribers.pop session else hub.subscribers.put session subscribers }

/-- One turn of `publish`'s loop. -/
def offer (session : SessionId) (message : String) (hub : Hub SessionId) (q : ℕ) : Option (Hub SessionId) := do
  let queue ← hub.queues q
  match queue.putNowait (some message) with
  | some queue => return hub.store q queue
  | none =>
    let queue ← queue.drain.putNowait none
    return (hub.unsubscribe session q).store q queue

def publish (modelDumpJson : Event → String) (session : SessionId) (event : Event) (order : List ℕ)
    (hub : Hub SessionId) : Option (Hub SessionId) :=
  order.foldlM (offer session (modelDumpJson event)) hub

variable {hub hub' : Hub SessionId} {session s : SessionId} {q p : ℕ} {queue : Queue} {message : String}

@[simp] theorem subscribersOf_store : (hub.store q queue).subscribersOf s = hub.subscribersOf s := rfl

omit [DecidableEq SessionId] in
@[simp] theorem queues_store_self : (hub.store q queue).queues q = some queue := by simp [store]

omit [DecidableEq SessionId] in
theorem queues_store_of_ne (h : p ≠ q) : (hub.store q queue).queues p = hub.queues p := by simp [store, h]

@[simp] theorem queues_unsubscribe : (hub.unsubscribe session q).queues = hub.queues := by
  unfold unsubscribe
  split <;> rfl

theorem subscribersOf_subscribe {queueSize : ℕ} (h : q ∉ hub.subscribersOf session) :
    (hub.subscribe queueSize session q).subscribersOf s =
      if s = session then hub.subscribersOf session ++ [q] else hub.subscribersOf s := by
  by_cases hs : s = session
  · subst hs
    rw [if_pos rfl, subscribe, if_neg h, subscribersOf_store, subscribersOf, Dict.get_put_self, Option.getD_some]
  · simp [subscribe, subscribersOf, store, hs, Dict.get_put_of_ne (Ne.symm hs)]

theorem subscribersOf_unsubscribe : (hub.unsubscribe session q).subscribersOf s =
    if s = session then (hub.subscribersOf session).filter (· ≠ q) else hub.subscribersOf s := by
  unfold unsubscribe
  split
  next hn =>
    by_cases hs : s = session
    · subst hs
      simp [subscribersOf, hn]
    · rw [if_neg hs]
  next subscribers hg =>
    by_cases hs : s = session
    · subst hs
      rw [if_pos rfl]
      by_cases he : subscribers.filter (· ≠ q) = []
      · simp only [subscribersOf, hg, he, if_true, Dict.get_pop_self, Option.getD_none, Option.getD_some]
      · simp only [subscribersOf, hg, he, if_false, Dict.get_put_self, Option.getD_some]
    · rw [if_neg hs]
      by_cases he : subscribers.filter (· ≠ q) = []
      · simp only [subscribersOf, he, if_true, Dict.get_pop_of_ne (Ne.symm hs)]
      · simp only [subscribersOf, he, if_false, Dict.get_put_of_ne (Ne.symm hs)]

/-- A queue that is full gives up its place and is left with the end mark alone. -/
theorem offer_eq (h : hub.queues q = some queue) : hub.offer session message q = some
    (if queue.full then (hub.unsubscribe session q).store q { queue with items := [none] }
      else hub.store q { queue with items := queue.items ++ [some message] }) := by
  by_cases hf : queue.full = true
  · have hn : queue.putNowait (some message) = none := by rw [Queue.putNowait, if_pos hf]
    simp [offer, h, hn, Queue.putNowait_drain, hf]
  · have hs : queue.putNowait (some message) = some { queue with items := queue.items ++ [some message] } := by
      rw [Queue.putNowait, if_neg hf]
    simp [offer, h, hs, hf]

/-- What holds of the hub between two steps: a queue stands once, in one Session's set. -/
structure Valid (hub : Hub SessionId) : Prop where
  nodup : ∀ s, (hub.subscribersOf s).Nodup
  known : ∀ s, ∀ q ∈ hub.subscribersOf s, (hub.queues q).isSome
  once : ∀ s s' q, q ∈ hub.subscribersOf s → q ∈ hub.subscribersOf s' → s = s'

private theorem offer_isSome (session : SessionId) (message : String) (h : (hub.queues q).isSome) :
    (hub.offer session message q).isSome := by
  obtain ⟨queue, hq⟩ := Option.isSome_iff_exists.mp h
  rw [offer_eq hq]
  rfl

/-- A turn keeps every other queue as it is, and gives no Session a subscriber. -/
theorem offer_spec (h : hub.offer session message q = some hub') :
    (∀ p, p ≠ q → hub'.queues p = hub.queues p) ∧ (hub'.queues q).isSome ∧
    ∀ s, hub'.subscribersOf s = hub.subscribersOf s ∨
      s = session ∧ hub'.subscribersOf s = (hub.subscribersOf s).filter (· ≠ q) := by
  cases hq : hub.queues q with
  | none => simp [offer, hq] at h
  | some queue =>
    rw [offer_eq hq, Option.some.injEq] at h
    by_cases hf : queue.full = true
    · rw [if_pos hf] at h
      subst h
      refine ⟨fun p hp => by rw [queues_store_of_ne hp, queues_unsubscribe], by simp, fun s => ?_⟩
      rw [subscribersOf_store, subscribersOf_unsubscribe]
      by_cases hs : s = session
      · subst hs
        exact .inr ⟨rfl, if_pos rfl⟩
      · exact .inl (if_neg hs)
    · rw [if_neg hf] at h
      subst h
      exact ⟨fun p hp => queues_store_of_ne hp, by simp, fun s => .inl rfl⟩

theorem Valid.of_le (h : hub.Valid) (hk : ∀ q, (hub.queues q).isSome → (hub'.queues q).isSome)
    (hs : ∀ s, hub'.subscribersOf s <+ hub.subscribersOf s) : hub'.Valid where
  nodup s := (h.nodup s).sublist (hs s)
  known s q hq := hk q (h.known s q ((hs s).subset hq))
  once s s' q hq hq' := h.once s s' q ((hs s).subset hq) ((hs s').subset hq')

private theorem offer_le (h : hub.offer session message q = some hub') :
    (∀ p, (hub.queues p).isSome → (hub'.queues p).isSome) ∧
    ∀ s, hub'.subscribersOf s <+ hub.subscribersOf s := by
  obtain ⟨hne, hq, hs⟩ := offer_spec h
  refine ⟨fun p hp => ?_, fun s => ?_⟩
  · by_cases he : p = q
    · rw [he]
      exact hq
    · rw [hne p he]
      exact hp
  · rcases hs s with hs | ⟨-, hs⟩
    · rw [hs]
    · rw [hs]
      exact List.filter_sublist

theorem unsubscribe_le (hub : Hub SessionId) (session : SessionId) (q : ℕ) (s : SessionId) :
    (hub.unsubscribe session q).subscribersOf s <+ hub.subscribersOf s := by
  rw [subscribersOf_unsubscribe]
  split
  next hs =>
    subst hs
    exact List.filter_sublist
  next => exact List.Sublist.refl _

theorem Valid.unsubscribe (h : hub.Valid) (session : SessionId) (q : ℕ) : (hub.unsubscribe session q).Valid :=
  h.of_le (fun p hp => by rwa [queues_unsubscribe]) (unsubscribe_le hub session q)

/-- No queue of any size raises out of the loop. -/
theorem foldlM_offer (session : SessionId) (message : String) (order : List ℕ) :
    ∀ {hub : Hub SessionId}, hub.Valid → (∀ q ∈ order, (hub.queues q).isSome) →
    ∃ hub', order.foldlM (offer session message) hub = some hub' ∧ hub'.Valid ∧
      ∀ q, (hub.queues q).isSome → (hub'.queues q).isSome := by
  induction order with
  | nil => exact fun hv _ => ⟨_, rfl, hv, fun _ h => h⟩
  | cons q order ih =>
    intro hub hv hk
    obtain ⟨hub₁, h₁⟩ := Option.isSome_iff_exists.mp (offer_isSome session message (hk q List.mem_cons_self))
    obtain ⟨hq, hs⟩ := offer_le h₁
    obtain ⟨hub', h', hv', hq'⟩ := ih (hv.of_le hq hs) fun p hp => hq p (hk p (List.mem_cons_of_mem _ hp))
    refine ⟨hub', ?_, hv', fun p hp => hq' p (hq p hp)⟩
    rw [List.foldlM_cons, h₁]
    exact h'

theorem Valid.notMem (h : hub.Valid) (hq : hub.queues q = none) (s : SessionId) : q ∉ hub.subscribersOf s := by
  intro hm
  have hk := h.known s q hm
  rw [hq] at hk
  cases hk

theorem Valid.subscribe {queueSize : ℕ} (h : hub.Valid) (hq : hub.queues q = none) (session : SessionId) :
    (hub.subscribe queueSize session q).Valid := by
  have hn := h.notMem hq
  have hm : ∀ s p, p ∈ (hub.subscribe queueSize session q).subscribersOf s →
      p ∈ hub.subscribersOf s ∨ s = session ∧ p = q := fun s p hp => by
    rw [subscribersOf_subscribe (hn session)] at hp
    split at hp
    next hs =>
      subst hs
      simpa using hp
    next => exact .inl hp
  refine ⟨fun s => ?_, fun s p hp => ?_, fun s s' p hp hp' => ?_⟩
  · rw [subscribersOf_subscribe (hn session)]
    split
    · exact List.nodup_append.mpr ⟨h.nodup session, List.nodup_singleton q,
        fun a ha b hb hab => hn session (by rwa [← List.mem_singleton.mp hb, ← hab])⟩
    · exact h.nodup s
  · by_cases he : p = q
    · rw [he, Hub.subscribe, queues_store_self]
      rfl
    · rw [Hub.subscribe, queues_store_of_ne he]
      exact h.known s p ((hm s p hp).resolve_right fun hs => he hs.2)
  · rcases hm s p hp with hp | ⟨hs, he⟩
    · rcases hm s' p hp' with hp' | ⟨hs', he'⟩
      · exact h.once s s' p hp hp'
      · exact absurd (he' ▸ hp) (hn s)
    · rcases hm s' p hp' with hp' | ⟨hs', he'⟩
      · exact absurd (he ▸ hp') (hn s')
      · rw [hs, hs']

end Hub

variable [DecidableEq Event]

/-- The hub, and the publishes of worker threads the loop has not run yet. -/
structure World (SessionId Event : Type) where
  hub : Hub SessionId
  handed : List (SessionId × Event)

/-- `order` is the one a set was gone through in. -/
inductive Act (SessionId Event : Type) where
  | subscribe (session : SessionId) (q : ℕ)
  | unsubscribe (session : SessionId) (q : ℕ)
  | publish (session : SessionId) (event : Event) (order : List ℕ)
  | publishFromThread (session : SessionId) (event : Event)
  | runHanded (session : SessionId) (event : Event) (order : List ℕ)
  | get (q : ℕ)
  deriving DecidableEq

namespace World

def start : World SessionId Event := ⟨⟨[], fun _ => none⟩, []⟩

section
variable (queueSize : ℕ) (modelDumpJson : Event → String)

/-- `none`: what cannot happen next, or raises. -/
def step (w : World SessionId Event) : Act SessionId Event → Option (World SessionId Event)
  | .subscribe session q =>
    -- a queue is a new object
    if (w.hub.queues q).isNone then some { w with hub := w.hub.subscribe queueSize session q } else none
  | .unsubscribe session q => some { w with hub := w.hub.unsubscribe session q }
  | .publish session event order =>
    if order ~ w.hub.subscribersOf session then
      (w.hub.publish modelDumpJson session event order).map fun hub => { w with hub }
    else none
  | .publishFromThread session event => some { w with handed := w.handed ++ [(session, event)] }
  | .runHanded session event order =>
    if (session, event) ∈ w.handed ∧ order ~ w.hub.subscribersOf session then
      (w.hub.publish modelDumpJson session event order).map fun hub => ⟨hub, w.handed.erase (session, event)⟩
    else none
  | .get q => do
    let queue ← w.hub.queues q
    let queue ← queue.get
    return { w with hub := w.hub.store q queue }

def run (w : World SessionId Event) : List (Act SessionId Event) → Option (World SessionId Event)
  | [] => some w
  | act :: acts => (w.step queueSize modelDumpJson act).bind fun w => run w acts

end

variable {queueSize : ℕ} {modelDumpJson : Event → String} {w w' : World SessionId Event}
  {act : Act SessionId Event} {acts acts' : List (Act SessionId Event)}

theorem run_append (acts acts' : List (Act SessionId Event)) : ∀ w : World SessionId Event,
    w.run queueSize modelDumpJson (acts ++ acts') =
      (w.run queueSize modelDumpJson acts).bind fun w => w.run queueSize modelDumpJson acts' := by
  induction acts with
  | nil => exact fun _ => rfl
  | cons act acts ih =>
    intro w
    simp only [List.cons_append, run, Option.bind_assoc]
    exact congrArg _ (funext ih)

theorem step_subscribe {session : SessionId} {q : ℕ} :
    w.step queueSize modelDumpJson (.subscribe session q) = some w' ↔
      w.hub.queues q = none ∧ { w with hub := w.hub.subscribe queueSize session q } = w' := by
  simp only [step, Option.isNone_iff_eq_none]
  split
  next h => simp [h]
  next h => simp [h]

theorem step_publish {session : SessionId} {event : Event} {order : List ℕ} :
    w.step queueSize modelDumpJson (.publish session event order) = some w' ↔
      order ~ w.hub.subscribersOf session ∧
        ∃ hub, w.hub.publish modelDumpJson session event order = some hub ∧ { w with hub } = w' := by
  simp only [step]
  split
  next h => simp [h]
  next h => simp [h]

theorem step_runHanded {session : SessionId} {event : Event} {order : List ℕ} :
    w.step queueSize modelDumpJson (.runHanded session event order) = some w' ↔
      ((session, event) ∈ w.handed ∧ order ~ w.hub.subscribersOf session) ∧
        ∃ hub, w.hub.publish modelDumpJson session event order = some hub ∧
          ⟨hub, w.handed.erase (session, event)⟩ = w' := by
  simp only [step]
  split
  next h => simp [h]
  next h => simp [h]

theorem step_get {q : ℕ} : w.step queueSize modelDumpJson (.get q) = some w' ↔
    ∃ queue queue', w.hub.queues q = some queue ∧ queue.get = some queue' ∧
      { w with hub := w.hub.store q queue' } = w' := by
  simp [step, Option.bind_eq_some_iff]

omit [DecidableEq Event] in
/-- A publish is never held up and raises nothing. -/
theorem publish_total (modelDumpJson : Event → String) (hv : w.hub.Valid) {session : SessionId} {order : List ℕ}
    (ho : order ~ w.hub.subscribersOf session) (event : Event) :
    ∃ hub, w.hub.publish modelDumpJson session event order = some hub ∧ hub.Valid := by
  obtain ⟨hub, h, hv, -⟩ := Hub.foldlM_offer session (modelDumpJson event) order hv fun q hq =>
    hv.known session q (ho.mem_iff.mp hq)
  exact ⟨hub, h, hv⟩

omit [DecidableEq Event] in
theorem valid_start : (start : World SessionId Event).hub.Valid where
  nodup _ := List.nodup_nil
  known _ _ hq := absurd hq List.not_mem_nil
  once _ _ _ hq _ := absurd hq List.not_mem_nil

theorem valid_step (hv : w.hub.Valid) (h : w.step queueSize modelDumpJson act = some w') : w'.hub.Valid := by
  cases act with
  | subscribe session q =>
    obtain ⟨hq, rfl⟩ := step_subscribe.mp h
    exact hv.subscribe hq session
  | unsubscribe session q =>
    cases h
    exact hv.unsubscribe session q
  | publish session event order =>
    obtain ⟨ho, hub, hp, rfl⟩ := step_publish.mp h
    obtain ⟨hub', hp', hv'⟩ := publish_total modelDumpJson hv ho event
    rw [hp, Option.some.injEq] at hp'
    exact hp' ▸ hv'
  | publishFromThread session event =>
    cases h
    exact hv
  | runHanded session event order =>
    obtain ⟨⟨-, ho⟩, hub, hp, rfl⟩ := step_runHanded.mp h
    obtain ⟨hub', hp', hv'⟩ := publish_total modelDumpJson hv ho event
    rw [hp, Option.some.injEq] at hp'
    exact hp' ▸ hv'
  | get q =>
    obtain ⟨queue, queue', -, -, rfl⟩ := step_get.mp h
    refine hv.of_le (fun p hp => ?_) fun s => List.Sublist.refl _
    by_cases he : p = q
    · rw [he, Hub.queues_store_self]
      rfl
    · rwa [Hub.queues_store_of_ne he]

theorem valid_run : ∀ {acts : List (Act SessionId Event)} {w : World SessionId Event}, w.hub.Valid →
    w.run queueSize modelDumpJson acts = some w' → w'.hub.Valid := by
  intro acts
  induction acts with
  | nil =>
    intro w hv h
    cases h
    exact hv
  | cons act acts ih =>
    intro w hv h
    obtain ⟨w₁, h₁, h⟩ := Option.bind_eq_some_iff.mp h
    exact ih (valid_step hv h₁) h

end World
end Kanat.LiveHub
