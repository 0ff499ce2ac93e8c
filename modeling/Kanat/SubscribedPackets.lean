import Kanat.IntervalBookkeeping
import Kanat.SubscriptionKeys

/-! # Which packets the transmission service hands to which client

Clients register and deregister streams, set intervals and leave, and packets come, each call a thread of its own. -/
namespace Kanat.SubscribedPackets
open ResumptionPrograms ScheduledPrograms InterleavedThreads InsertionOrderDict SubscriptionKeys Transmission

structure PlainDataDto (V : Type) where
  subscriptionKey : Text
  timestamp : ℤ
  value : V

/-- Of ticks since the year 1. -/
def toUnixTimeMilliseconds (ticks : ℕ) : ℤ := (ticks / 10000 : ℕ) - 62135596800000

def ONVIF_FOV_REQ : Text := "FOV_REQ".toList
def ONVIF_FOV_STS : Text := "FOV_STS".toList
def ONVIF_LRF_REQ : Text := "LRF_REQ".toList
def ONVIF_LRF_STS : Text := "LRF_STS".toList

section
variable {V : Type} [IntCast V]

def convertMotion (isCmd : Bool) (value : Option V) : V :=
  match isCmd, value with
  | false, some value => value
  | true, _ => (1 : ℤ)
  | false, none => (-1 : ℤ)

def convertSafety (state : Text) : V :=
  if state = "ON".toList then (1 : ℤ)
  else if state = "OFF".toList then (0 : ℤ)
  else if state = "PULSE".toList then (2 : ℤ)
  else if state = "BURST".toList then (3 : ℤ)
  else (-1 : ℤ)

def convertOnVIF (description : Text) (zoom measurement : Option V) : V :=
  if description = ONVIF_FOV_REQ then (1 : ℤ)
  else if description = ONVIF_FOV_STS then zoom.getD (-1 : ℤ)
  else if description = ONVIF_LRF_REQ then (1 : ℤ)
  else if description = ONVIF_LRF_STS then measurement.getD (-1 : ℤ)
  else (-1 : ℤ)

/-- `PlainDataConverter.Convert` -/
def convert (lower : Char → Char) (packet : SubscriptionKeys.BasePacketEntity V) : PlainDataDto V where
  subscriptionKey := packet.getSubscriptionKey lower
  timestamp := toUnixTimeMilliseconds packet.ticks
  value :=
    match packet.entity with
    | .motion _ value => convertMotion packet.isCmd value
    | .safety state => convertSafety state
    | .onVIF zoom measurement => convertOnVIF packet.description zoom measurement

end

inductive Request (Conn V : Type) where
  | register (request : SubscriptionKeys.StreamRequestDto) (connectionId : Conn)
  | setTimeInterval (key : Text) (intervalMs : ℤ) (connectionId : Conn)
  | deregister (key : Text)
  | deregisterFromAll (connectionId : Conn)
  | unregisterAll
  | onNext (packet : SubscriptionKeys.BasePacketEntity V)

variable {Conn V : Type}

abbrev Calls (Conn V : Type) := M Text Conn (PlainDataDto V)

def Request.program [IntCast V] (lower : Char → Char) : Request Conn V → Calls Conn V Unit
  | .register request connectionId =>
      registerStream ⟨request.buildSubscriptionKey lower, request.intervalMs⟩ connectionId
  | .setTimeInterval key intervalMs connectionId => Transmission.setTimeInterval key intervalMs connectionId
  | .deregister key => deregisterStream key
  | .deregisterFromAll connectionId => deregisterFromAllStreams connectionId
  | .unregisterAll => unregisterAllStreams
  | .onNext packet => decideToTransmit ⟨packet.getSubscriptionKey lower, some (convert lower packet)⟩

/-- Between calls the clock moves on, and clients become unreachable and reachable: which of the next sends raise. -/
def serving (Conn V : Type) [IntCast V] [DecidableEq Conn] (lower : Char → Char) :
    System (Ans Text Conn (PlainDataDto V)) SendError (World Text Conn (PlainDataDto V)) (Request Conn V)
      (ℕ × List Bool) where
  program request := request.program lower >>= fun _ => pure none
  answer w o _ := some (answer w o)
  drift w choice := some { w with now := w.now + choice.1, refusals := choice.2 }

abbrev ServedCall (Conn V : Type) :=
  Call (Ans Text Conn (PlainDataDto V)) (World Text Conn (PlainDataDto V)) (Request Conn V)

/-- The call ends the key's registration, if it has one. -/
def Removes (key : Text) : Op Text Conn (PlainDataDto V) → Prop
  | .tryRemoveConnection key' => key' = key
  | .clearConnections => True
  | _ => False

/-- The client's registration of this request was taken, and no call has ended it since. -/
def Registered (request : SubscriptionKeys.StreamRequestDto) (connectionId : Conn) (key : Text)
    (trace : List (ServedCall Conn V)) : Prop :=
  ∃ since thread before after earlier, trace = since ++
    ⟨thread, .register request connectionId, .tryAddConnection key connectionId, true, before, after⟩ :: earlier ∧
      ∀ call ∈ since, ¬ Removes key call.op

/-- The thread has found its packet to be of the client's stream, which then was registered by a request for it. -/
def Found (lower : Char → Char) (thread : ℕ) (packet : SubscriptionKeys.BasePacketEntity V) (connectionId : Conn)
    (trace : List (ServedCall Conn V)) : Prop :=
  let key := packet.getSubscriptionKey lower
  ∃ since before after earlier request, trace = since ++
    ⟨thread, .onNext packet, .tryGetConnection key, some connectionId, before, after⟩ :: earlier ∧
      Registered request connectionId key earlier ∧ Selects lower request packet

/-- A packet handed to a client is one that the thread has found to be of its stream. -/
def Handed [IntCast V] (lower : Char → Char) (call : ServedCall Conn V) (earlier : List (ServedCall Conn V)) : Prop :=
  ∀ connectionId data, call.op = .sendPacket connectionId data → ∃ packet, call.request = .onNext packet ∧
    data = convert lower packet ∧ Found lower call.thread packet connectionId earlier

/-- How far a thread has come: whose stream its packet was found to be of. -/
structure Standing (Conn V : Type) where
  request : Request Conn V
  connectionId : Option Conn := none

def Standing.next (s : Standing Conn V) :
    (o : Op Text Conn (PlainDataDto V)) → Ans Text Conn (PlainDataDto V) o → Standing Conn V
  | .tryGetConnection _, found =>
      match s.request with
      | .onNext _ => { s with connectionId := found }
      | _ => s
  | _, _ => s

def Standing.Allows [IntCast V] (lower : Char → Char) (s : Standing Conn V) : Op Text Conn (PlainDataDto V) → Prop
  | .tryAddConnection key connectionId => ∃ request, s.request = .register request connectionId ∧
      key = request.buildSubscriptionKey lower
  | .tryGetConnection key => ∀ packet, s.request = .onNext packet → key = packet.getSubscriptionKey lower
  | .sendPacket connectionId data => ∃ packet, s.request = .onNext packet ∧ data = convert lower packet ∧
      s.connectionId = some connectionId
  | _ => True

def served (Conn V : Type) [IntCast V] (lower : Char → Char) :
    Contract (Ans Text Conn (PlainDataDto V)) (Request Conn V) (Standing Conn V) where
  allowed := Standing.Allows lower
  possible _ _ := True
  next := Standing.next
  start request := { request }
  Ready s request := s = { request }
  Returned _ := True
  Raised _ := True

variable [IntCast V] {lower : Char → Char}

/-- What no request but a packet's own may call. -/
def Quiet (lower : Char → Char) (r : Request Conn V) : Op Text Conn (PlainDataDto V) → Prop
  | .tryAddConnection key connectionId => ∃ request, r = .register request connectionId ∧
      key = request.buildSubscriptionKey lower
  | .sendPacket .. => False
  | _ => True

theorem obeys_quiet {r : Request Conn V} {p : Calls Conn V Unit} (hr : ∀ packet, r ≠ .onNext packet)
    (hp : Watched (Quiet lower r) p) :
    Obeys (served Conn V lower).toMonitor (fun _ _ => True) (fun _ _ => True) p { request := r } := by
  refine (hp.obeys fun o ho => ⟨?_, fun answer => ?_⟩).mono (fun _ _ _ => trivial) fun _ _ _ => trivial
  · cases o with
    | tryAddConnection key connectionId => exact ho
    | tryGetConnection key => exact fun packet heq => absurd heq (hr packet)
    | sendPacket connectionId data => exact ho.elim
    | _ => trivial
  · cases o with
    | tryGetConnection key =>
      cases r with
      | onNext packet => exact absurd rfl (hr packet)
      | _ => rfl
    | _ => rfl

theorem obeys_shouldTransmit {key : Text} {l : Standing Conn V} {E : Standing Conn V → SendError → Prop} :
    Obeys (served Conn V lower).toMonitor (fun l' _ => l' = l) E (shouldTransmit key : Calls Conn V Bool) l := by
  refine obeys_bind.mpr (obeys_call trivial fun interval => ?_)
  rcases interval with _ | _ | intervalMs
  · exact rfl
  · exact rfl
  · refine obeys_bind.mpr (obeys_call trivial fun currentMs => ?_)
    refine obeys_bind.mpr (obeys_call trivial fun lastSentMs => ?_)
    split_ifs
    · exact obeys_bind.mpr (obeys_call trivial fun _ => rfl)
    · exact rfl

theorem obeys_decideToTransmit {packet : SubscriptionKeys.BasePacketEntity V} :
    Obeys (served Conn V lower).toMonitor (fun _ _ => True) (fun _ _ => True)
      (decideToTransmit ⟨packet.getSubscriptionKey lower, some (convert lower packet)⟩ : Calls Conn V Unit)
      { request := .onNext packet } := by
  refine obeys_bind.mpr (obeys_call (fun _ heq => ?_) fun found => ?_)
  · cases heq
    rfl
  cases found with
  | none => trivial
  | some connectionId =>
    refine obeys_bind.mpr (obeys_shouldTransmit.mono (fun l transmits hl => ?_) fun _ _ hE => hE)
    cases transmits with
    | false => trivial
    | true =>
      cases hl
      apply obeys_tryCatch.mpr
      apply obeys_bind.mpr
      exact obeys_call ⟨packet, rfl, rfl, rfl⟩ fun r => obeys_ofExcept.mpr ⟨fun _ _ => trivial, fun _ _ => trivial⟩

omit [IntCast V] in
private theorem watched_unregisterAllStreams {r : Request Conn V} :
    Watched (Quiet lower r) (unregisterAllStreams : Calls Conn V Unit) :=
  watched_bind (watched_perform trivial) fun _ => watched_bind (watched_perform trivial) fun _ =>
    watched_perform trivial

theorem obeys_program [DecidableEq Conn] (request : Request Conn V) :
    Obeys (served Conn V lower).toMonitor (fun _ _ => True) (fun _ _ => True) (request.program lower) { request } := by
  cases request with
  | register request connectionId =>
    exact obeys_quiet (fun _ => nofun) (watched_registerStream ⟨request, rfl, rfl⟩ trivial (fun _ _ => trivial) trivial
      (fun _ => trivial) trivial trivial)
  | setTimeInterval key intervalMs connectionId =>
    exact obeys_quiet (fun _ => nofun) (watched_setTimeInterval trivial (fun _ _ => trivial) fun _ =>
      ⟨fun _ => trivial, trivial, trivial⟩)
  | deregister key =>
    exact obeys_quiet (fun _ => nofun) (watched_deregisterStream trivial trivial trivial trivial fun _ _ => trivial)
  | deregisterFromAll connectionId =>
    exact obeys_quiet (fun _ => nofun) (watched_bind (watched_perform trivial) fun keys => watched_forM fun key _ =>
      watched_removeKey trivial trivial trivial)
  | unregisterAll => exact obeys_quiet (fun _ => nofun) watched_unregisterAllStreams
  | onNext packet => exact obeys_decideToTransmit

theorem follows_serving [DecidableEq Conn] : Follows (serving Conn V lower) (served Conn V lower) where
  ready _ := rfl
  holds s request hs := by
    rw [hs]
    apply obeys_bind.mpr
    refine (obeys_program request).mono (fun _ _ _ => ?_) fun _ _ h => h
    refine ⟨fun r hr => ?_, fun _ => trivial⟩
    cases hr
  possible _ _ _ _ _ _ := trivial

section
variable {request : SubscriptionKeys.StreamRequestDto} {packet : SubscriptionKeys.BasePacketEntity V}
  {connectionId : Conn} {key : Text} {trace : List (ServedCall Conn V)} {call : ServedCall Conn V}

omit [IntCast V] in
theorem Registered.cons (h : Registered request connectionId key trace) (hcall : ¬ Removes key call.op) :
    Registered request connectionId key (call :: trace) := by
  obtain ⟨since, thread, before, after, earlier, rfl, hsince⟩ := h
  exact ⟨call :: since, thread, before, after, earlier, rfl, List.forall_mem_cons.mpr ⟨hcall, hsince⟩⟩

omit [IntCast V] in
theorem Found.cons {i : ℕ} (h : Found lower i packet connectionId trace) :
    Found lower i packet connectionId (call :: trace) := by
  obtain ⟨since, before, after, earlier, request, rfl, hregistered, hselects⟩ := h
  exact ⟨call :: since, before, after, earlier, request, rfl, hregistered, hselects⟩

/-- What the calls so far tell of the registrations that stand, and of the packets being decided. -/
structure Explained (lower : Char → Char) (w : World Text Conn (PlainDataDto V)) (trace : List (ServedCall Conn V)) :
    Prop where
  connections : ∀ key connectionId, w.connections.get key = some connectionId →
    ∃ request, key = request.buildSubscriptionKey lower ∧ Registered request connectionId key trace
  found : ∀ i packet connectionId, Owns trace i (.onNext packet) →
    (standing (served Conn V lower) i (.onNext packet) trace).connectionId = some connectionId →
      Found lower i packet connectionId trace
  handed : EachCall (Handed lower) trace

variable [DecidableEq Conn] {w w' : World Text Conn (PlainDataDto V)} {i : ℕ} {r : Request Conn V}
  {o : Op Text Conn (PlainDataDto V)} {answered : Ans Text Conn (PlainDataDto V) o}

omit [DecidableEq Conn] in
private theorem explained_empty : Explained lower (World.empty : World Text Conn (PlainDataDto V)) [] where
  connections _ _ h := nomatch h
  found _ _ _ _ h := nomatch h
  handed := trivial

omit [DecidableEq Conn] [IntCast V] in
private theorem next_request (s : Standing Conn V) (o : Op Text Conn (PlainDataDto V)) (answered : Ans Text Conn _ o) :
    (s.next o answered).request = s.request := by
  cases o with
  | tryGetConnection key =>
    obtain ⟨request, found⟩ := s
    cases request <;> rfl
  | _ => rfl

omit [DecidableEq Conn] in
theorem standing_request (i : ℕ) (r : Request Conn V) (trace : List (ServedCall Conn V)) :
    (standing (served Conn V lower) i r trace).request = r := by
  induction trace with
  | nil => rfl
  | cons call trace ih =>
    rw [standing]
    split_ifs
    · exact (next_request _ _ _).trans ih
    · exact ih

/-- A registration that is taken is for the key of the request that is made. -/
theorem Explained.adds (h : Explained lower w trace) {key' : Text} {connectionId' : Conn} {added : Bool}
    (ha : Answered (serving Conn V lower) (served Conn V lower) w trace i r (.tryAddConnection key' connectionId')
      added w') (hget : (tryAdd w.connections key' connectionId').get key = some connectionId) :
    ∃ request, key = request.buildSubscriptionKey lower ∧
      Registered request connectionId key (⟨i, r, .tryAddConnection key' connectionId', added, w, w'⟩ :: trace) := by
  obtain ⟨hanswered, -⟩ := ha.eq_answer fun _ _ _ => rfl
  have hstays (hold : w.connections.get key = some connectionId) :
      ∃ request, key = request.buildSubscriptionKey lower ∧
        Registered request connectionId key (⟨i, r, .tryAddConnection key' connectionId', added, w, w'⟩ :: trace) := by
    obtain ⟨request, hkey, hregistered⟩ := h.connections key connectionId hold
    exact ⟨request, hkey, hregistered.cons id⟩
  by_cases hkey : key' = key
  · subst hkey
    rw [get_tryAdd_self] at hget
    cases hold : w.connections.get key' with
    | some other =>
      rw [hold, Option.getD_some] at hget
      exact hstays (hold.trans hget)
    | none =>
      rw [hold, Option.getD_none] at hget
      obtain rfl := Option.some.inj hget
      obtain ⟨request, hrequest, hkey⟩ := ha.allowed
      rw [standing_request] at hrequest
      have htrue : added = true := hanswered.trans (Option.isNone_iff_eq_none.mpr hold)
      subst htrue hrequest
      exact ⟨request, hkey, [], i, w, w', trace, rfl, fun _ hcall => absurd hcall List.not_mem_nil⟩
  · rw [get_tryAdd_of_ne hkey] at hget
    exact hstays hget

theorem Explained.registered (h : Explained lower w trace)
    (ha : Answered (serving Conn V lower) (served Conn V lower) w trace i r o answered w')
    (hget : w'.connections.get key = some connectionId) : ∃ request, key = request.buildSubscriptionKey lower ∧
      Registered request connectionId key (⟨i, r, o, answered, w, w'⟩ :: trace) := by
  obtain ⟨-, hw⟩ := ha.eq_answer fun _ _ _ => rfl
  rw [hw, connections_answer] at hget
  have hstays (hold : w.connections.get key = some connectionId) (hremoves : ¬ Removes key o) :
      ∃ request, key = request.buildSubscriptionKey lower ∧
        Registered request connectionId key (⟨i, r, o, answered, w, w'⟩ :: trace) := by
    obtain ⟨request, hkey, hregistered⟩ := h.connections key connectionId hold
    exact ⟨request, hkey, hregistered.cons hremoves⟩
  cases o with
  | tryAddConnection key' connectionId' => exact h.adds ha hget
  | tryRemoveConnection key' =>
    dsimp only at hget
    by_cases hkey : key' = key
    · rw [hkey, Dict.get_pop_self] at hget
      cases hget
    · rw [Dict.get_pop_of_ne hkey] at hget
      exact hstays hget hkey
  | clearConnections => cases hget
  | _ => exact hstays hget id

/-- A packet's thread is told of a registration that stands then, and of a request that selects the packet. -/
theorem Explained.finds (hlower : Lowers lower) (h : Explained lower w trace) {found : Option Conn}
    (ha : Answered (serving Conn V lower) (served Conn V lower) w trace i (.onNext packet) (.tryGetConnection key)
      found w') (hfound : found = some connectionId) :
    Found lower i packet connectionId (⟨i, .onNext packet, .tryGetConnection key, found, w, w'⟩ :: trace) := by
  obtain ⟨hanswered, -⟩ := ha.eq_answer fun _ _ _ => rfl
  have hkey : key = packet.getSubscriptionKey lower := ha.allowed packet (standing_request i _ trace)
  subst hkey hfound
  obtain ⟨request, hrequest, hregistered⟩ := h.connections _ _ hanswered.symm
  exact ⟨[], w, w', trace, request, rfl, hregistered, (key_eq_iff hlower).mp hrequest.symm⟩

theorem Explained.founds (hlower : Lowers lower) (h : Explained lower w trace)
    (ha : Answered (serving Conn V lower) (served Conn V lower) w trace i r o answered w') {j : ℕ}
    (howns : Owns (⟨i, r, o, answered, w, w'⟩ :: trace) j (.onNext packet))
    (hstanding : (standing (served Conn V lower) j (.onNext packet)
      (⟨i, r, o, answered, w, w'⟩ :: trace)).connectionId = some connectionId) :
    Found lower j packet connectionId (⟨i, r, o, answered, w, w'⟩ :: trace) := by
  by_cases hij : i = j
  · subst hij
    have hr : r = .onNext packet := howns.head rfl
    subst hr
    rw [standing_cons_self] at hstanding
    have hrequest : (standing (served Conn V lower) i (.onNext packet) trace).request = .onNext packet :=
      standing_request i (.onNext packet) trace
    have hold := h.found i packet connectionId howns.tail
    cases o with
    | tryGetConnection key =>
      refine h.finds hlower ha ?_
      change (Standing.next _ _ _).connectionId = _ at hstanding
      rwa [Standing.next, hrequest] at hstanding
    | _ => exact (hold hstanding).cons
  · rw [standing_cons_of_ne hij] at hstanding
    exact (h.found j packet connectionId howns.tail hstanding).cons

theorem Explained.hands (h : Explained lower w trace)
    (ha : Answered (serving Conn V lower) (served Conn V lower) w trace i r o answered w') :
    Handed lower ⟨i, r, o, answered, w, w'⟩ trace := by
  intro connectionId data ho
  obtain rfl : o = .sendPacket connectionId data := ho
  obtain ⟨packet, hrequest, hdata, hfound⟩ := ha.allowed
  rw [standing_request] at hrequest
  subst hrequest
  exact ⟨packet, rfl, hdata, h.found i packet connectionId ha.owned hfound⟩

theorem Explained.step (hlower : Lowers lower) (h : Explained lower w trace)
    (ha : Answered (serving Conn V lower) (served Conn V lower) w trace i r o answered w') :
    Explained lower w' (⟨i, r, o, answered, w, w'⟩ :: trace) where
  connections _ _ hget := h.registered ha hget
  found _ _ _ howns hstanding := h.founds hlower ha howns hstanding
  handed := ⟨h.hands ha, h.handed⟩

/-- A client is only ever handed packets of a stream it has registered, by a request that selects them, and which
nobody has deregistered before the packet was found to be of it. -/
theorem handed_to_subscribers (hlower : Lowers lower) {requests : List (Request Conn V)}
    {events : List (InterleavedThreads.Event (Request Conn V) (ℕ × List Bool))}
    {c : Config (Ans Text Conn (PlainDataDto V)) SendError (World Text Conn (PlainDataDto V)) (Request Conn V)}
    (hrun : (serving Conn V lower).run ((serving Conn V lower).initial World.empty requests) events = some c) :
    EachCall (Handed lower) c.trace := by
  obtain ⟨hexplained, -⟩ := run_keeps (I := Explained lower) (A := fun _ _ => True) follows_serving
    (fun w trace choice w' h hw => by
      cases hw
      exact ⟨h.connections, h.found, h.handed⟩)
    (fun _ _ _ _ _ _ _ h _ ha => h.step hlower ha) (fun _ _ _ _ => trivial)
    (kept_initial follows_serving _ requests) (fun _ _ _ => trivial) explained_empty hrun
  exact hexplained.handed

end

theorem toLower_cases (c : Char) :
    ¬ (65 ≤ c.toNat ∧ c.toNat ≤ 90) ∧ c.toLower = c ∨ 65 ≤ c.toNat ∧ c.toNat ≤ 90 ∧ c.toLower.toNat = c.toNat + 32 := by
  unfold Char.toLower
  split
  · next h =>
    have hlow : 65 ≤ c.val.toNat := h.1
    have hup : c.val.toNat ≤ 90 := h.2
    refine .inr ⟨hlow, hup, ?_⟩
    change (c.val.toNat + 32) % 2 ^ 32 = c.val.toNat + 32
    omega
  · next h => exact .inl ⟨h, rfl⟩

private theorem lowers_toLower : Lowers Char.toLower where
  bar c := by
    rcases toLower_cases c with ⟨-, heq⟩ | ⟨hlow, hup, heq⟩
    · rw [heq]
    · refine iff_of_false (fun hbar => ?_) fun hbar => ?_
      · rw [hbar] at heq
        change 124 = _ at heq
        omega
      · rw [hbar] at hup
        change 124 ≤ _ at hup
        omega
  letters _ _ := rfl
  digits c hc := by
    rcases toLower_cases c with ⟨-, heq⟩ | ⟨hlow, hup, -⟩
    · exact heq
    · rcases hc with hdigit | rfl
      · have hrange := PlainTexts.isDigit_iff.mp hdigit
        omega
      · exact absurd hlow (by decide)

/-- Client 7 asks for axis 3's speed, in its own spelling, and a report of it comes. -/
def speedOfAxisThree : List (Request ℕ ℤ) :=
  [.register { dataPipe := .motion, description := "mot_getmotorspeed".toList, axis := some 3 } 7,
    .onNext { ticks := 638000000000000000, isCmd := false, description := "MOT_GetMotorSpeed".toList,
              entity := .motion 3 (some 12) }]

def registeredFirst : List (InterleavedThreads.Event (Request ℕ ℤ) (ℕ × List Bool)) :=
  List.replicate 4 (.answer 0 (0, [])) ++ List.replicate 3 (.answer 1 (0, []))

theorem handed_to_subscribers_speed :
    ∃ c, (serving ℕ ℤ Char.toLower).run ((serving ℕ ℤ Char.toLower).initial World.empty speedOfAxisThree)
      registeredFirst = some c ∧ EachCall (Handed Char.toLower) c.trace ∧
        c.world.packets.map (fun handed => (handed.1, handed.2.value)) = [(7, 12)] := by
  obtain ⟨c, hrun, hpackets⟩ : ∃ c, (serving ℕ ℤ Char.toLower).run
      ((serving ℕ ℤ Char.toLower).initial World.empty speedOfAxisThree) registeredFirst = some c ∧
        c.world.packets.map (fun handed => (handed.1, handed.2.value)) = [(7, 12)] :=
    System.exists_run _ (by decide) (by decide)
  exact ⟨c, hrun, handed_to_subscribers lowers_toLower hrun, hpackets⟩

end Kanat.SubscribedPackets
