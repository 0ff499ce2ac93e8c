import Mathlib.Data.List.ReduceOption
import Kanat.LiveHub

/-! # What a subscriber of the live hub receives

Each one's share of a run told apart from the others', and the stream it is sent as. -/
namespace Kanat.LiveHub
open scoped List

variable {SessionId Event : Type} [DecidableEq SessionId]

/-- One subscriber: whether it is still in its Session's set, and its queue. -/
structure Mailbox where
  attached : Bool
  queue : Queue
  deriving DecidableEq

/-- The acts that concern it. -/
inductive Share (Event : Type) where
  | event (event : Event)
  | leave
  | take
  deriving DecidableEq

namespace Mailbox

def fresh (queueSize : ℕ) : Mailbox := ⟨true, ⟨queueSize, [], []⟩⟩

def offer (message : String) (b : Mailbox) : Mailbox :=
  if b.attached then
    if b.queue.full then ⟨false, { b.queue with items := [none] }⟩
    else { b with queue := { b.queue with items := b.queue.items ++ [some message] } }
  else b

def step (modelDumpJson : Event → String) (b : Mailbox) : Share Event → Option Mailbox
  | .event event => some (b.offer (modelDumpJson event))
  | .leave => some { b with attached := false }
  | .take => b.queue.get.map fun queue => { b with queue }

def run (modelDumpJson : Event → String) (b : Mailbox) : List (Share Event) → Option Mailbox
  | [] => some b
  | share :: shares => (b.step modelDumpJson share).bind fun b => run modelDumpJson b shares

theorem run_append (modelDumpJson : Event → String) (l l' : List (Share Event)) : ∀ b : Mailbox,
    b.run modelDumpJson (l ++ l') = (b.run modelDumpJson l).bind fun b => b.run modelDumpJson l' := by
  induction l with
  | nil => exact fun _ => rfl
  | cons share l ih =>
    intro b
    simp only [List.cons_append, run, Option.bind_assoc]
    exact congrArg _ (funext ih)

end Mailbox

/-- What an act is to a Session's subscriber. -/
def shareOf (session : SessionId) (q : ℕ) : Act SessionId Event → Option (Share Event)
  | .subscribe _ _ | .publishFromThread _ _ => none
  | .unsubscribe s p => if s = session ∧ p = q then some .leave else none
  | .publish s event _ | .runHanded s event _ => if s = session then some (.event event) else none
  | .get p => if p = q then some .take else none

/-- The hub holds a Session's subscriber as `b` has it. -/
structure Shows (hub : Hub SessionId) (session : SessionId) (q : ℕ) (b : Mailbox) : Prop where
  queue : hub.queues q = some b.queue
  attached : b.attached = true ↔ q ∈ hub.subscribersOf session
  elsewhere : ∀ s, q ∈ hub.subscribersOf s → s = session

namespace Shows

variable {hub hub' : Hub SessionId} {session s : SessionId} {q p : ℕ} {b : Mailbox} {message : String}

theorem congr (h : Shows hub session q b) (hq : hub'.queues q = hub.queues q)
    (hm : ∀ s, q ∈ hub'.subscribersOf s ↔ q ∈ hub.subscribersOf s) : Shows hub' session q b where
  queue := hq.trans h.queue
  attached := h.attached.trans (hm session).symm
  elsewhere s hs := h.elsewhere s ((hm s).mp hs)

private theorem offer_of_ne (h : Shows hub session q b) (hp : q ≠ p) (ho : hub.offer s message p = some hub') :
    Shows hub' session q b := by
  obtain ⟨hq, -, hs⟩ := Hub.offer_spec ho
  refine h.congr (hq q hp) fun s => ?_
  rcases hs s with hs | ⟨-, hs⟩
  · rw [hs]
  · simp [hs, hp]

private theorem offer_self (h : Shows hub session q b) (ha : b.attached = true)
    (ho : hub.offer session message q = some hub') : Shows hub' session q (b.offer message) := by
  rw [Hub.offer_eq h.queue, Option.some.injEq] at ho
  subst ho
  rw [Mailbox.offer, if_pos ha]
  by_cases hf : b.queue.full = true
  · rw [if_pos hf, if_pos hf]
    refine ⟨Hub.queues_store_self, ?_, fun s hs => ?_⟩
    · simp [Hub.subscribersOf_unsubscribe]
    · rw [Hub.subscribersOf_store] at hs
      exact h.elsewhere s ((Hub.unsubscribe_le hub session q s).subset hs)
  · rw [if_neg hf, if_neg hf]
    exact ⟨Hub.queues_store_self, h.attached, h.elsewhere⟩

theorem foldlM_of_notMem {order : List ℕ} (hq : q ∉ order) : ∀ {hub : Hub SessionId}, Shows hub session q b →
    order.foldlM (Hub.offer s message) hub = some hub' → Shows hub' session q b := by
  induction order with
  | nil =>
    intro hub h hf
    rw [List.foldlM_nil] at hf
    cases hf
    exact h
  | cons p order ih =>
    intro hub h hf
    rw [List.foldlM_cons, Option.bind_eq_bind, Option.bind_eq_some_iff] at hf
    obtain ⟨hub₁, h₁, hf⟩ := hf
    rw [List.mem_cons, not_or] at hq
    exact ih hq.2 (h.offer_of_ne hq.1 h₁) hf

/-- A publish comes once to a Session's subscriber, whatever the order and whoever is cut off. -/
theorem publish {modelDumpJson : Event → String} {event : Event} {order : List ℕ} (h : Shows hub session q b)
    (hv : hub.Valid) (ho : order ~ hub.subscribersOf s)
    (hp : hub.publish modelDumpJson s event order = some hub') :
    Shows hub' session q (if s = session then b.offer (modelDumpJson event) else b) := by
  by_cases hs : s = session
  · subst hs
    rw [if_pos rfl]
    by_cases ha : b.attached = true
    · obtain ⟨before, after, rfl⟩ := List.append_of_mem (ho.mem_iff.mpr (h.attached.mp ha))
      have hn := ho.nodup_iff.mpr (hv.nodup s)
      rw [List.nodup_middle, List.nodup_cons, List.mem_append, not_or] at hn
      rw [Hub.publish, List.foldlM_append, Option.bind_eq_bind, Option.bind_eq_some_iff] at hp
      obtain ⟨hub₁, h₁, hp⟩ := hp
      rw [List.foldlM_cons, Option.bind_eq_bind, Option.bind_eq_some_iff] at hp
      obtain ⟨hub₂, h₂, hp⟩ := hp
      exact foldlM_of_notMem hn.1.2 ((foldlM_of_notMem hn.1.1 h h₁).offer_self ha h₂) hp
    · rw [Mailbox.offer, if_neg ha]
      exact foldlM_of_notMem (fun hm => ha (h.attached.mpr (ho.mem_iff.mp hm))) h hp
  · rw [if_neg hs]
    exact foldlM_of_notMem (fun hm => hs (h.elsewhere s (ho.mem_iff.mp hm))) h hp

theorem subscribe {queueSize : ℕ} (hv : hub.Valid) (hq : hub.queues q = none) (session : SessionId) :
    Shows (hub.subscribe queueSize session q) session q (Mailbox.fresh queueSize) := by
  have hn := hv.notMem hq
  refine ⟨Hub.queues_store_self, ?_, fun s hs => ?_⟩
  · simp [Mailbox.fresh, Hub.subscribersOf_subscribe (hn session)]
  · rw [Hub.subscribersOf_subscribe (hn session)] at hs
    by_contra hne
    rw [if_neg hne] at hs
    exact hn s hs

private theorem subscribe_of_ne {queueSize : ℕ} (h : Shows hub session q b) (hv : hub.Valid) (hp : hub.queues p = none)
    (s : SessionId) : Shows (hub.subscribe queueSize s p) session q b := by
  have hne : q ≠ p := fun he => by
    rw [← he, h.queue] at hp
    cases hp
  refine h.congr (Hub.queues_store_of_ne hne) fun s' => ?_
  rw [Hub.subscribersOf_subscribe (hv.notMem hp s)]
  split
  next hs => simp [hs, hne]
  next => rfl

theorem unsubscribe (h : Shows hub session q b) (s : SessionId) (p : ℕ) :
    Shows (hub.unsubscribe s p) session q (if s = session ∧ p = q then { b with attached := false } else b) := by
  split
  next he =>
    obtain ⟨rfl, rfl⟩ := he
    refine ⟨by rw [Hub.queues_unsubscribe, h.queue], ?_, fun s' hs => h.elsewhere s' ((Hub.unsubscribe_le _ _ _ _).subset hs)⟩
    simp [Hub.subscribersOf_unsubscribe]
  next he =>
    refine h.congr (by rw [Hub.queues_unsubscribe]) fun s' => ?_
    rw [Hub.subscribersOf_unsubscribe]
    split
    next hs =>
      subst hs
      refine ⟨fun hm => (List.mem_filter.mp hm).1, fun hm => List.mem_filter.mpr ⟨hm, ?_⟩⟩
      have hpq : q ≠ p := fun hpq => he ⟨h.elsewhere _ hm, hpq.symm⟩
      simpa using hpq
    next => rfl

theorem take (h : Shows hub session q b) {queue : Queue} :
    Shows (hub.store q queue) session q { b with queue } :=
  ⟨Hub.queues_store_self, h.attached, h.elsewhere⟩

variable [DecidableEq Event] {queueSize : ℕ} {modelDumpJson : Event → String} {w w' : World SessionId Event}
  {act : Act SessionId Event}

/-- The subscriber takes its own share of a step, and nothing else of it. -/
theorem step (h : Shows w.hub session q b) (hv : w.hub.Valid)
    (hs : w.step queueSize modelDumpJson act = some w') : ∃ b',
      b.run modelDumpJson (shareOf session q act).toList = some b' ∧ Shows w'.hub session q b' := by
  have hpub : ∀ {s event order hub}, order ~ w.hub.subscribersOf s →
      w.hub.publish modelDumpJson s event order = some hub → ∃ b',
        b.run modelDumpJson (if s = session then some (.event event) else none).toList = some b' ∧
          Shows hub session q b' := by
    intro s event order hub ho hp
    refine ⟨_, ?_, h.publish hv ho hp⟩
    split <;> rfl
  cases act with
  | subscribe s p =>
    obtain ⟨hp, rfl⟩ := World.step_subscribe.mp hs
    exact ⟨b, rfl, h.subscribe_of_ne hv hp s⟩
  | unsubscribe s p =>
    cases hs
    refine ⟨_, ?_, h.unsubscribe s p⟩
    simp only [shareOf]
    split <;> rfl
  | publish s event order =>
    obtain ⟨ho, hub, hp, rfl⟩ := World.step_publish.mp hs
    exact hpub ho hp
  | publishFromThread s event =>
    cases hs
    exact ⟨b, rfl, h⟩
  | runHanded s event order =>
    obtain ⟨⟨-, ho⟩, hub, hp, rfl⟩ := World.step_runHanded.mp hs
    exact hpub ho hp
  | get p =>
    obtain ⟨queue, queue', hq, hg, rfl⟩ := World.step_get.mp hs
    by_cases he : p = q
    · subst he
      rw [h.queue, Option.some.injEq] at hq
      refine ⟨_, ?_, h.take⟩
      simp [shareOf, Mailbox.run, Mailbox.step, hq, hg]
    · refine ⟨b, ?_, h.congr (Hub.queues_store_of_ne (Ne.symm he)) fun s => Iff.rfl⟩
      simp [shareOf, he, Mailbox.run]

theorem run : ∀ {acts : List (Act SessionId Event)} {w : World SessionId Event} {b : Mailbox},
    Shows w.hub session q b → w.hub.Valid → w.run queueSize modelDumpJson acts = some w' →
    ∃ b', b.run modelDumpJson (acts.filterMap (shareOf session q)) = some b' ∧ Shows w'.hub session q b' := by
  intro acts
  induction acts with
  | nil =>
    intro w b h hv hr
    cases hr
    exact ⟨b, rfl, h⟩
  | cons act acts ih =>
    intro w b h hv hr
    obtain ⟨w₁, h₁, hr⟩ := Option.bind_eq_some_iff.mp hr
    obtain ⟨b₁, hb₁, hs₁⟩ := h.step hv h₁
    obtain ⟨b', hb', hs'⟩ := ih hs₁ (World.valid_step hv h₁) hr
    refine ⟨b', ?_, hs'⟩
    have hc : (act :: acts).filterMap (shareOf session q) =
        (shareOf session q act).toList ++ acts.filterMap (shareOf session q) := by
      cases hf : shareOf session q act <;> simp [hf]
    rw [hc, Mailbox.run_append, hb₁]
    exact hb'

end Shows

def Share.published : Share Event → Option Event
  | .event e => some e
  | .leave | .take => none

namespace Mailbox

variable {b b' : Mailbox} {published : List String} {modelDumpJson : Event → String}

/-- What came out of the queue and what waits in it, against the messages published: all of them while the
subscriber is in its set, and afterwards some first ones, the end mark last if it was cut off. -/
def Unbroken (published : List String) (b : Mailbox) : Prop :=
  if b.attached then b.queue.got ++ b.queue.items = published.map some
  else ∃ seen, seen <+: published ∧
    (b.queue.got ++ b.queue.items = seen.map some ∨ b.queue.got ++ b.queue.items = seen.map some ++ [none])

private theorem unbroken_fresh (queueSize : ℕ) : (fresh queueSize).Unbroken [] := by simp [Unbroken, fresh]

theorem exists_seen (l : List (Option String)) {published : List String} (h : l <+: published.map some) :
    ∃ seen, seen <+: published ∧ l = seen.map some := by
  refine ⟨published.take l.length, List.take_prefix _ _, ?_⟩
  rw [List.map_take]
  exact List.prefix_iff_eq_take.mp h

theorem Unbroken.offer (h : b.Unbroken published) (message : String) :
    (b.offer message).Unbroken (published ++ [message]) := by
  unfold Mailbox.offer
  by_cases ha : b.attached = true
  · rw [Unbroken, if_pos ha] at h
    rw [if_pos ha]
    by_cases hf : b.queue.full = true
    · -- what waited is thrown away with the message that did not fit
      obtain ⟨seen, hs, hg⟩ := exists_seen b.queue.got ⟨_, h⟩
      rw [if_pos hf, Unbroken, if_neg (by simp)]
      exact ⟨seen, hs.trans (List.prefix_append _ _), .inr (by rw [hg])⟩
    · rw [if_neg hf, Unbroken, if_pos ha, List.map_append, ← h, List.append_assoc]
      rfl
  · rw [Unbroken, if_neg ha] at h
    obtain ⟨seen, hs, h⟩ := h
    rw [if_neg ha, Unbroken, if_neg ha]
    exact ⟨seen, hs.trans (List.prefix_append _ _), h⟩

theorem Unbroken.leave (h : b.Unbroken published) : { b with attached := false }.Unbroken published := by
  rw [Unbroken, if_neg (by simp)]
  by_cases ha : b.attached = true
  · rw [Unbroken, if_pos ha] at h
    exact ⟨published, List.prefix_rfl, .inl h⟩
  · rw [Unbroken, if_neg ha] at h
    exact h

private theorem get_append {queue queue' : Queue} (h : queue.get = some queue') :
    queue'.got ++ queue'.items = queue.got ++ queue.items := by
  unfold Queue.get at h
  split at h
  next => cases h
  next item items hi =>
    cases h
    simp [hi]

theorem Unbroken.step {share : Share Event} (h : b.Unbroken published)
    (hs : b.step modelDumpJson share = some b') :
    b'.Unbroken (published ++ (share.published.map modelDumpJson).toList) := by
  cases share with
  | event event =>
    cases hs
    exact h.offer _
  | leave =>
    cases hs
    simpa [Share.published] using h.leave
  | take =>
    obtain ⟨queue, hq, rfl⟩ := Option.map_eq_some_iff.mp hs
    have hg := get_append hq
    simpa [Unbroken, Share.published, hg] using h

theorem Unbroken.run : ∀ {shares : List (Share Event)} {b : Mailbox} {published : List String},
    b.Unbroken published → b.run modelDumpJson shares = some b' →
    b'.Unbroken (published ++ (shares.filterMap Share.published).map modelDumpJson) := by
  intro shares
  induction shares with
  | nil =>
    intro b published h hr
    cases hr
    simpa using h
  | cons share shares ih =>
    intro b published h hr
    obtain ⟨b₁, h₁, hr⟩ := Option.bind_eq_some_iff.mp hr
    have hu := ih (h.step h₁) hr
    have hc : ((share :: shares).filterMap Share.published).map modelDumpJson =
        (share.published.map modelDumpJson).toList ++ (shares.filterMap Share.published).map modelDumpJson := by
      cases hf : share.published <;> simp [hf]
    rw [hc, ← List.append_assoc]
    exact hu

/-- What has been received: first messages, and the end mark after them or not. -/
theorem Unbroken.received (h : b.Unbroken published) : ∃ seen, seen <+: published ∧
    (b.queue.got = seen.map some ∨ b.queue.got = seen.map some ++ [none]) := by
  obtain ⟨all, ha, h⟩ : ∃ seen, seen <+: published ∧
      (b.queue.got ++ b.queue.items = seen.map some ∨ b.queue.got ++ b.queue.items = seen.map some ++ [none]) := by
    by_cases ha : b.attached = true
    · rw [Unbroken, if_pos ha] at h
      exact ⟨published, List.prefix_rfl, .inl h⟩
    · rwa [Unbroken, if_neg ha] at h
  have hfirst : ∀ l : List (Option String), l <+: all.map some → ∃ seen, seen <+: published ∧ l = seen.map some := by
    intro l hl
    obtain ⟨seen, hs, he⟩ := exists_seen l hl
    exact ⟨seen, hs.trans ha, he⟩
  rcases h with h | h
  · obtain ⟨seen, hs, he⟩ := hfirst b.queue.got ⟨_, h⟩
    exact ⟨seen, hs, .inl he⟩
  · rcases List.prefix_concat_iff.mp ⟨_, h⟩ with he | hp
    · exact ⟨all, ha, .inr he⟩
    · obtain ⟨seen, hs, he⟩ := hfirst b.queue.got hp
      exact ⟨seen, hs, .inl he⟩

/-- An end mark received is the last item, of a subscriber out of its set. -/
theorem Unbroken.ended (h : b.Unbroken published) (hn : none ∈ b.queue.got) :
    b.attached = false ∧ b.queue.items = [] := by
  have hmem : ∀ l : List String, b.queue.got ++ b.queue.items ≠ l.map some := by
    intro l he
    have hm : none ∈ l.map some := he ▸ List.mem_append_left _ hn
    simp at hm
  by_cases ha : b.attached = true
  · rw [Unbroken, if_pos ha] at h
    exact absurd h (hmem published)
  · refine ⟨Bool.eq_false_iff.mpr ha, ?_⟩
    rw [Unbroken, if_neg ha] at h
    obtain ⟨seen, -, h | h⟩ := h
    · exact absurd h (hmem seen)
    · rcases List.prefix_concat_iff.mp ⟨_, h⟩ with he | hp
      · rw [he] at h
        exact List.append_right_eq_self.mp h
      · have hm := hp.subset hn
        simp at hm

/-- It takes nothing more. -/
theorem step_of_ended {share : Share Event} (ha : b.attached = false) (hi : b.queue.items = [])
    (hs : b.step modelDumpJson share = some b') : b' = b := by
  cases share with
  | event event =>
    cases hs
    rw [offer, if_neg (by simp [ha])]
  | leave =>
    cases hs
    rw [← ha]
  | take =>
    obtain ⟨queue, hq, -⟩ := Option.map_eq_some_iff.mp hs
    rw [Queue.get, hi] at hq
    cases hq

private theorem run_of_ended {shares : List (Share Event)} (ha : b.attached = false) (hi : b.queue.items = [])
    (hr : b.run modelDumpJson shares = some b') : b' = b := by
  induction shares with
  | nil =>
    cases hr
    rfl
  | cons share shares ih =>
    obtain ⟨b₁, h₁, hr⟩ := Option.bind_eq_some_iff.mp hr
    rw [step_of_ended ha hi h₁] at hr
    exact ih hr

end Mailbox

inductive Frame where
  | retry
  | ping
  | data (message : String)
  deriving DecidableEq

def retryMs : ℕ := 1000

def Frame.text : Frame → String
  | .retry => "retry: " ++ toString retryMs ++ "\n\n"
  | .ping => "event: ping\ndata: ping\n\n"
  | .data message => "data: " ++ message ++ "\n\n"

def Frame.message : Frame → Option String
  | .data m => some m
  | .retry | .ping => none

/-- The loop of `event_stream`, by how each of its waits ended: `none` is a timeout. -/
def streamLoop : List (Option (Option String)) → List Frame
  | [] => []
  | none :: waits => .ping :: streamLoop waits
  | some none :: _ => []
  | some (some message) :: waits => .data message :: streamLoop waits

def eventStream (waits : List (Option (Option String))) : List Frame := .retry :: streamLoop waits

private theorem streamLoop_messages {seen : List String} : ∀ {waits : List (Option (Option String))},
    waits.reduceOption = seen.map some ∨ waits.reduceOption = seen.map some ++ [none] →
    (streamLoop waits).filterMap Frame.message = seen := by
  intro waits
  induction waits generalizing seen with
  | nil =>
    intro h
    cases seen with
    | nil => rfl
    | cons _ _ => rcases h with h | h <;> cases h
  | cons wait waits ih =>
    intro h
    cases wait with
    | none =>
      rw [List.reduceOption_cons_of_none] at h
      rw [streamLoop, List.filterMap_cons_none rfl, ih h]
    | some item =>
      rw [List.reduceOption_cons_of_some] at h
      cases seen with
      | nil =>
        rcases h with h | h
        · cases h
        · obtain ⟨rfl, -⟩ := List.cons.inj h
          rfl
      | cons message seen =>
        have hi : item = some message ∧
            (waits.reduceOption = seen.map some ∨ waits.reduceOption = seen.map some ++ [none]) := by
          rcases h with h | h
          · exact ⟨(List.cons.inj h).1, .inl (List.cons.inj h).2⟩
          · exact ⟨(List.cons.inj h).1, .inr (List.cons.inj h).2⟩
        obtain ⟨rfl, hw⟩ := hi
        have hm : (Frame.data message).message = some message := rfl
        rw [streamLoop, List.filterMap_cons_some hm, ih hw]

namespace World

variable [DecidableEq Event] {queueSize : ℕ} {modelDumpJson : Event → String} {w : World SessionId Event}
  {session : SessionId} {q : ℕ} {before after : List (Act SessionId Event)}

/-- What is published to a Session, by the loop itself or for a thread. -/
def publishedOf (session : SessionId) : Act SessionId Event → Option Event
  | .publish s event _ | .runHanded s event _ => if s = session then some event else none
  | .subscribe _ _ | .unsubscribe _ _ | .publishFromThread _ _ | .get _ => none

omit [DecidableEq Event] in
private theorem filterMap_published (session : SessionId) (q : ℕ) (acts : List (Act SessionId Event)) :
    (acts.filterMap (shareOf session q)).filterMap Share.published = acts.filterMap (publishedOf session) := by
  rw [List.filterMap_filterMap]
  congr 1
  funext act
  cases act with
  | publish s event order | runHanded s event order =>
    by_cases hs : s = session <;> simp [shareOf, publishedOf, hs, Share.published]
  | unsubscribe s p => by_cases hs : s = session ∧ p = q <;> simp [shareOf, publishedOf, hs, Share.published]
  | get p => by_cases hp : p = q <;> simp [shareOf, publishedOf, hp, Share.published]
  | subscribe s p | publishFromThread s event => rfl

/-- A subscriber's queue is what its own share of the acts since it subscribed makes of an empty one. -/
theorem mailbox_of_run (h : start.run queueSize modelDumpJson (before ++ .subscribe session q :: after) = some w) :
    ∃ b, (Mailbox.fresh queueSize).run modelDumpJson (after.filterMap (shareOf session q)) = some b ∧
      Shows w.hub session q b := by
  rw [run_append, Option.bind_eq_some_iff] at h
  obtain ⟨w₁, h₁, h⟩ := h
  obtain ⟨w₂, h₂, h⟩ := Option.bind_eq_some_iff.mp h
  have hv := valid_run valid_start h₁
  obtain ⟨hq, rfl⟩ := step_subscribe.mp h₂
  exact (Shows.subscribe hv hq session).run (hv.subscribe hq session) h

/-- In any run, a subscriber has received the first of the events published to its Session since it subscribed,
in their order, and perhaps the end mark after them; while it is in the set the others wait in its queue, and with
the end mark received the queue stays as it is. No publish is held up by a full queue, and what a subscriber's
queue holds is told by its own share of the acts. -/
theorem unbroken_prefix
    (h : start.run queueSize modelDumpJson (before ++ .subscribe session q :: after) = some w) :
    ∃ queue, w.hub.queues q = some queue ∧
      (∃ seen, seen <+: after.filterMap (publishedOf session) ∧
        (queue.got = (seen.map modelDumpJson).map some ∨
          queue.got = (seen.map modelDumpJson).map some ++ [none]) ∧
        ∀ waits, waits.reduceOption = queue.got →
          (eventStream waits).filterMap Frame.message = seen.map modelDumpJson) ∧
      (q ∈ w.hub.subscribersOf session →
        queue.got ++ queue.items = ((after.filterMap (publishedOf session)).map modelDumpJson).map some) ∧
      (none ∈ queue.got → ∀ later w', w.run queueSize modelDumpJson later = some w' →
        w'.hub.queues q = some queue) ∧
      (∀ s event order, order ~ w.hub.subscribersOf s →
        (w.step queueSize modelDumpJson (.publish s event order)).isSome ∧
        ((s, event) ∈ w.handed → (w.step queueSize modelDumpJson (.runHanded s event order)).isSome)) ∧
      ∀ before' after' w',
        start.run queueSize modelDumpJson (before' ++ .subscribe session q :: after') = some w' →
        after'.filterMap (shareOf session q) = after.filterMap (shareOf session q) →
        w'.hub.queues q = some queue := by
  obtain ⟨b, hb, hs⟩ := mailbox_of_run h
  have hv := valid_run valid_start h
  have hu := (Mailbox.unbroken_fresh queueSize).run hb
  rw [List.nil_append, filterMap_published] at hu
  refine ⟨b.queue, hs.queue, ?_, fun hm => ?_, fun hn later w' hr => ?_, fun s event order ho => ⟨?_, fun hm => ?_⟩,
    fun before' after' w' h' he => ?_⟩
  · obtain ⟨seen, hseen, hg⟩ := hu.received
    obtain ⟨n, rfl⟩ : ∃ n, seen = ((after.filterMap (publishedOf session)).take n).map modelDumpJson :=
      ⟨seen.length, by rw [List.map_take]; exact List.prefix_iff_eq_take.mp hseen⟩
    refine ⟨_, List.take_prefix n _, hg, fun waits hw => ?_⟩
    rw [← hw] at hg
    exact streamLoop_messages hg
  · rwa [Mailbox.Unbroken, if_pos (hs.attached.mpr hm)] at hu
  · obtain ⟨ha, hi⟩ := hu.ended hn
    obtain ⟨b', hb', hs'⟩ := hs.run hv hr
    rw [hs'.queue, Mailbox.run_of_ended ha hi hb']
  · obtain ⟨hub, hp, -⟩ := publish_total modelDumpJson hv ho event
    rw [step_publish.mpr ⟨ho, hub, hp, rfl⟩]
    rfl
  · obtain ⟨hub, hp, -⟩ := publish_total modelDumpJson hv ho event
    rw [step_runHanded.mpr ⟨⟨hm, ho⟩, hub, hp, rfl⟩]
    rfl
  · obtain ⟨b', hb', hs'⟩ := mailbox_of_run h'
    rw [he, hb, Option.some.injEq] at hb'
    rw [hs'.queue, hb']

/-- Two publishes to a queue of one place, then the end mark taken. -/
theorem unbroken_prefix_cutOff : ∃ w : World ℕ ℕ, ∃ queue, w.hub.queues 0 = some queue ∧ queue.got = [none] ∧
    ∀ later w', w.run 1 toString later = some w' → w'.hub.queues 0 = some queue := by
  have h : (start.run 1 toString ([] ++ .subscribe 5 0 ::
      [.publish 5 8 [0], .publish 5 9 [0], .get 0] : List (Act ℕ ℕ))).isSome := by decide
  obtain ⟨w, hw⟩ := Option.isSome_iff_exists.mp h
  obtain ⟨queue, hq, -, -, hend, -⟩ := unbroken_prefix hw
  have hg : (start.run 1 toString ([] ++ .subscribe 5 0 ::
      [.publish 5 8 [0], .publish 5 9 [0], .get 0] : List (Act ℕ ℕ))).bind (fun w => w.hub.queues 0) =
        some ⟨1, [], [none]⟩ := by decide
  rw [hw, Option.bind_some, hq, Option.some.injEq] at hg
  subst hg
  exact ⟨w, _, hq, rfl, hend (List.mem_singleton.mpr rfl)⟩

end World
end Kanat.LiveHub
