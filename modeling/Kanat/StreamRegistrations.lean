import Kanat.ConditionalRuns
import Kanat.TransmissionService

/-! # Whose registrations the transmission service keeps

The connections are a dictionary by client and message type, and an operation is each client's own. `Service` adds
what the clients were told, and the operations of one key are followed while no other client touches it. -/
namespace Kanat.Transmission
open ResumptionPrograms ScheduledPrograms InsertionOrderDict

variable {Key Conn Data : Type}

/-- The call leaves what the service holds of this key. -/
def Op.Spares (K : Key) : Op Key Conn Data → Prop
  | .tryAddConnection key _ | .tryRemoveConnection key | .tryAddInterval key _ | .setInterval key _
  | .tryRemoveInterval key | .tryAddLastSent key _ | .getOrAddLastSent key _ | .setLastSent key _
  | .tryRemoveLastSent key => key ≠ K
  | .clearConnections | .clearIntervals | .clearLastSent => False
  | _ => True

def Op.SparesConnections : Op Key Conn Data → Prop
  | .tryAddConnection .. | .tryRemoveConnection _ | .clearConnections => False
  | _ => True

def Op.SparesIntervals : Op Key Conn Data → Prop
  | .tryAddInterval .. | .setInterval .. | .tryRemoveInterval _ | .clearIntervals => False
  | _ => True

section
variable {P : Op Key Conn Data → Prop} {key : Key} {connectionId : Conn} {intervalMs : ℤ}

theorem watched_sendAck {ack : AckDto Key} (hack : P (.sendAck connectionId ack)) :
    Watched P (sendAck connectionId ack : M Key Conn Data Unit) :=
  watched_bind (watched_perform hack) fun _ => watched_ofExcept

theorem watched_refuse {t : OperationType} {e : SendError}
    (hack : P (.sendAck connectionId ⟨t, key, false⟩)) :
    Watched P (refuse connectionId t key e : M Key Conn Data Unit) :=
  watched_bind (watched_sendAck hack) fun _ => watched_raise

/-- A negative interval is refused. -/
theorem watched_setTimeInterval (hget : P (.tryGetConnection key))
    (hack : ∀ c ack, P (.sendAck c ack))
    (hset : 0 ≤ intervalMs → (∀ v, P (.setInterval key v)) ∧ P (.tryRemoveLastSent key) ∧
      P (.tryAddLastSent key 0)) :
    Watched P (setTimeInterval key intervalMs connectionId : M Key Conn Data Unit) := by
  refine watched_tryCatch (watched_bind (watched_perform hget) fun r => ?_) fun _ =>
    watched_refuse (hack _ _)
  cases r with
  | none => exact watched_sendAck (hack _ _)
  | some c =>
    dsimp only
    split_ifs with hneg hzero
    · exact watched_sendAck (hack _ _)
    · obtain ⟨hinterval, hremove, _⟩ := hset (by omega)
      exact watched_bind (watched_perform (hinterval _)) fun _ =>
        watched_bind (watched_perform hremove) fun _ => watched_sendAck (hack _ _)
    · obtain ⟨hinterval, _, hadd⟩ := hset (by omega)
      exact watched_bind (watched_perform (hinterval _)) fun _ =>
        watched_bind (watched_perform hadd) fun _ => watched_sendAck (hack _ _)

theorem watched_registerStream {request : StreamRequestDto Key}
    (hconnection : P (.tryAddConnection request.subscriptionKey connectionId))
    (hget : P (.tryGetConnection request.subscriptionKey)) (hack : ∀ c ack, P (.sendAck c ack))
    (hinterval : P (.tryAddInterval request.subscriptionKey none))
    (hset : ∀ v, P (.setInterval request.subscriptionKey v))
    (hremove : P (.tryRemoveLastSent request.subscriptionKey))
    (hadd : P (.tryAddLastSent request.subscriptionKey 0)) :
    Watched P (registerStream request connectionId : M Key Conn Data Unit) := by
  have htime : ∀ ms, Watched P
      (setTimeInterval request.subscriptionKey ms connectionId : M Key Conn Data Unit) := fun ms =>
    watched_setTimeInterval hget hack fun _ => ⟨hset, hremove, hadd⟩
  refine watched_tryCatch (watched_bind (watched_perform hconnection) fun r => ?_) fun _ =>
    watched_refuse (hack _ _)
  cases r with
  | true =>
    refine watched_bind (watched_perform hinterval) fun _ => watched_bind (watched_perform hadd) fun _ =>
      watched_bind (watched_sendAck (hack _ _)) fun _ => ?_
    cases request.intervalMs with
    | none => exact watched_ret
    | some ms => exact htime ms
  | false => exact watched_bind (htime _) fun _ => watched_sendAck (hack _ _)

theorem watched_deregisterStream (hget : P (.tryGetConnection key))
    (hconnection : P (.tryRemoveConnection key)) (hinterval : P (.tryRemoveInterval key))
    (hremove : P (.tryRemoveLastSent key)) (hack : ∀ c ack, P (.sendAck c ack)) :
    Watched P (deregisterStream key : M Key Conn Data Unit) := by
  refine watched_bind (watched_perform hget) fun r => ?_
  cases r with
  | none => exact watched_ret
  | some c =>
    refine watched_tryCatch ?_ fun _ => watched_refuse (hack _ _)
    exact watched_bind (watched_perform hconnection) fun _ =>
      watched_bind (watched_perform hinterval) fun _ =>
        watched_bind (watched_perform hremove) fun _ => watched_sendAck (hack _ _)

theorem watched_removeKey (hconnection : P (.tryRemoveConnection key))
    (hinterval : P (.tryRemoveInterval key)) (hremove : P (.tryRemoveLastSent key)) :
    Watched P (removeKey key : M Key Conn Data Unit) :=
  watched_bind (watched_perform hconnection) fun _ =>
    watched_bind (watched_perform hinterval) fun _ => watched_perform hremove

theorem watched_decideToTransmit {packet : BasePacketEntity Key Data}
    (hget : P (.tryGetConnection packet.subscriptionKey))
    (hinterval : P (.tryGetInterval packet.subscriptionKey)) (hnow : P .utcNow)
    (hadd : P (.getOrAddLastSent packet.subscriptionKey 0))
    (hset : ∀ ms, P (.setLastSent packet.subscriptionKey ms))
    (hsend : ∀ c data, P (.sendPacket c data)) :
    Watched P (decideToTransmit packet : M Key Conn Data Unit) := by
  have hshould : Watched P (shouldTransmit packet.subscriptionKey : M Key Conn Data Bool) := by
    refine watched_bind (watched_perform hinterval) fun r => ?_
    match r with
    | none => exact watched_ret
    | some none => exact watched_ret
    | some (some ms) =>
      refine watched_bind (watched_perform hnow) fun now =>
        watched_bind (watched_perform hadd) fun last => ?_
      split_ifs
      · exact watched_bind (watched_perform (hset _)) fun _ => watched_ret
      · exact watched_ret
  refine watched_bind (watched_perform hget) fun r => ?_
  cases r with
  | none => exact watched_ret
  | some c =>
    refine watched_bind hshould fun should => ?_
    cases should with
    | false => exact watched_ret
    | true =>
      dsimp only
      cases packet.plainData with
      | none => exact watched_ret
      | some data =>
        exact watched_tryCatch (watched_bind (watched_perform (hsend _ _)) fun _ => watched_ofExcept)
          fun _ => watched_ret

end

variable [DecidableEq Key] [DecidableEq Conn] {w : World Key Conn Data} {key K : Key}
  {connectionId : Conn}

theorem get_tryAdd_self {V : Type} {d : Dict Key V} {v : V} :
    (tryAdd d key v).get key = some ((d.get key).getD v) := by
  rw [tryAdd]
  split
  · next h => rw [Dict.get_put_self, h]; rfl
  · next v' h => rw [h]; rfl

theorem get_tryAdd_of_ne {V : Type} {d : Dict Key V} {v : V} (h : key ≠ K) :
    (tryAdd d key v).get K = d.get K := by
  rw [tryAdd]
  split
  · exact Dict.get_put_of_ne h
  · rfl

/-- All that a call can do to the connections. -/
theorem connections_answer (w : World Key Conn Data) (o : Op Key Conn Data) :
    (answer w o).2.connections = match o with
      | .tryAddConnection key c => tryAdd w.connections key c
      | .tryRemoveConnection key => w.connections.pop key
      | .clearConnections => []
      | _ => w.connections := by
  cases o with
  | sendAck c ack =>
    change (if w.refusals.headD false then _ else _ : _ × World Key Conn Data).2.connections = _
    split_ifs <;> rfl
  | sendPacket c data =>
    change (if w.refusals.headD false then _ else _ : _ × World Key Conn Data).2.connections = _
    split_ifs <;> rfl
  | _ => rfl

theorem intervals_answer (w : World Key Conn Data) (o : Op Key Conn Data) :
    (answer w o).2.intervals = match o with
      | .tryAddInterval key ms => tryAdd w.intervals key ms
      | .setInterval key ms => w.intervals.put key ms
      | .tryRemoveInterval key => w.intervals.pop key
      | .clearIntervals => []
      | _ => w.intervals := by
  cases o with
  | sendAck c ack =>
    change (if w.refusals.headD false then _ else _ : _ × World Key Conn Data).2.intervals = _
    split_ifs <;> rfl
  | sendPacket c data =>
    change (if w.refusals.headD false then _ else _ : _ × World Key Conn Data).2.intervals = _
    split_ifs <;> rfl
  | _ => rfl

private theorem connections_of_spares {o : Op Key Conn Data} (h : o.Spares K) :
    (answer w o).2.connections.get K = w.connections.get K := by
  rw [connections_answer]
  cases o with
  | tryAddConnection key c => exact get_tryAdd_of_ne h
  | tryRemoveConnection key => exact Dict.get_pop_of_ne h
  | clearConnections => cases h
  | _ => rfl

private theorem intervals_of_spares {o : Op Key Conn Data} (h : o.Spares K) :
    (answer w o).2.intervals.get K = w.intervals.get K := by
  rw [intervals_answer]
  cases o with
  | tryAddInterval key ms => exact get_tryAdd_of_ne h
  | setInterval key ms => exact Dict.get_put_of_ne h
  | tryRemoveInterval key => exact Dict.get_pop_of_ne h
  | clearIntervals => cases h
  | _ => rfl

theorem connections_of_sparesConnections {o : Op Key Conn Data} (h : o.SparesConnections) :
    (answer w o).2.connections = w.connections := by
  rw [connections_answer]
  cases o with
  | tryAddConnection key c => cases h
  | tryRemoveConnection key => cases h
  | clearConnections => cases h
  | _ => rfl

private theorem intervals_of_sparesIntervals {o : Op Key Conn Data} (h : o.SparesIntervals) :
    (answer w o).2.intervals = w.intervals := by
  rw [intervals_answer]
  cases o with
  | tryAddInterval key ms => cases h
  | setInterval key ms => cases h
  | tryRemoveInterval key => cases h
  | clearIntervals => cases h
  | _ => rfl

/-- What the service holds of a key is as before. -/
def SameAt (K : Key) (w w' : World Key Conn Data) : Prop :=
  w'.connections.get K = w.connections.get K ∧ w'.intervals.get K = w.intervals.get K

theorem sameAt_of_watched {p : M Key Conn Data Unit} (h : Watched (Op.Spares K) p) :
    SameAt K w (run answer p w).2 :=
  run_watched (I := SameAt K w) (fun _ _ ho hw => ⟨(connections_of_spares ho).trans hw.1,
    (intervals_of_spares ho).trans hw.2⟩) h ⟨rfl, rfl⟩

theorem connections_of_watched {p : M Key Conn Data Unit} (h : Watched Op.SparesConnections p) :
    (run answer p w).2.connections = w.connections :=
  run_watched (I := fun w' : World Key Conn Data => w'.connections = w.connections)
    (fun _ _ ho hw => (connections_of_sparesConnections ho).trans hw) h rfl

theorem intervals_of_watched {p : M Key Conn Data Unit} (h : Watched Op.SparesIntervals p) :
    (run answer p w).2.intervals = w.intervals :=
  run_watched (I := fun w' : World Key Conn Data => w'.intervals = w.intervals)
    (fun _ _ ho hw => (intervals_of_sparesIntervals ho).trans hw) h rfl

/-- An operation of a client, with the sends of the service that raise, or a packet that comes. -/
inductive Event (Key Conn Data : Type) where
  | register (connectionId : Conn) (request : StreamRequestDto Key) (refusals : List Bool)
  | setInterval (connectionId : Conn) (key : Key) (intervalMs : ℤ) (refusals : List Bool)
  | unregister (connectionId : Conn) (key : Key) (refusals : List Bool)
  | disconnect (connectionId : Conn)
  | packet (packet : BasePacketEntity Key Data) (now : ℤ) (refusals : List Bool)

/-- One event alone, its acknowledgements and packets recorded anew. -/
def World.perform (w : World Key Conn Data) (p : M Key Conn Data Unit) (now : ℤ)
    (refusals : List Bool) : World Key Conn Data :=
  (run answer p { w with now := now, refusals := refusals, acks := [], packets := [] }).2

def Event.after (w : World Key Conn Data) : Event Key Conn Data → World Key Conn Data
  | .register c request refusals => w.perform (registerStream request c) w.now refusals
  | .setInterval c key ms refusals => w.perform (setTimeInterval key ms c) w.now refusals
  | .unregister _ key refusals => w.perform (deregisterStream key) w.now refusals
  | .disconnect c => w.perform (deregisterFromAllStreams c) w.now []
  | .packet p now refusals => w.perform (decideToTransmit p) now refusals

/-- The service; `live` tells whether the last of a client's registrations and deregistrations of a
key that was acknowledged to it as a success is a registration, and it has not disconnected since;
`own` is the key's interval as the client's own last operation on it left it. -/
structure Service (Key Conn Data : Type) where
  world : World Key Conn Data
  live : Conn → Key → Bool
  own : Conn → Key → Option (Option ℤ)

def acknowledged (w : World Key Conn Data) (c : Conn) (t : OperationType) (key : Key) : Bool :=
  (c, ⟨t, key, true⟩) ∈ w.acks

def setAt {V : Type} (f : Conn → Key → V) (c : Conn) (key : Key) (v : V) : Conn → Key → V :=
  fun c' key' => if c' = c ∧ key' = key then v else f c' key'

theorem setAt_self {V : Type} (f : Conn → Key → V) (c : Conn) (key : Key) (v : V) :
    setAt f c key v c key = v :=
  if_pos ⟨rfl, rfl⟩

theorem setAt_of_ne {V : Type} {f : Conn → Key → V} {c c' : Conn} {key key' : Key} {v : V}
    (h : ¬(c' = c ∧ key' = key)) : setAt f c key v c' key' = f c' key' :=
  if_neg h

def Service.step (s : Service Key Conn Data) (e : Event Key Conn Data) : Service Key Conn Data :=
  let w := e.after s.world
  match e with
  | .register c request _ =>
      let key := request.subscriptionKey
      { world := w
        live := setAt s.live c key (s.live c key || acknowledged w c .registerToMethod key)
        own := setAt s.own c key (w.intervals.get key) }
  | .setInterval c key _ _ => { s with world := w, own := setAt s.own c key (w.intervals.get key) }
  | .unregister c key _ =>
      { world := w
        live := setAt s.live c key (s.live c key && !acknowledged w c .unregisterFromMethod key)
        own := setAt s.own c key (w.intervals.get key) }
  | .disconnect c => { s with world := w, live := fun c' key => c' ≠ c && s.live c' key }
  | .packet .. => { s with world := w }

def Service.run (s : Service Key Conn Data) (events : List (Event Key Conn Data)) :
    Service Key Conn Data :=
  ConditionalRuns.run Service.step s events

/-- Whether a packet is due with this interval and this time of the last one. -/
def due (interval : Option (Option ℤ)) (lastSentMs : Option ℤ) (now : ℤ) : Bool :=
  match interval with
  | some (some intervalMs) => now - lastSentMs.getD 0 ≥ intervalMs
  | _ => true

/-- The client is sent every packet of the key that is due with this interval. -/
def Serves (w : World Key Conn Data) (c : Conn) (key : Key) (interval : Option (Option ℤ)) : Prop :=
  ∀ data now, (Event.after w (.packet ⟨key, some data⟩ now [])).packets =
    if due interval (w.lastSent.get key) now then [(c, data)] else []

/-- The key is nobody else's. -/
def Free (w : World Key Conn Data) (c : Conn) (key : Key) : Prop :=
  ∀ c' ∈ w.connections.get key, c' = c

/-- The event leaves other clients' keys alone, and a deregistration can be acknowledged. -/
def Event.Apart (w : World Key Conn Data) : Event Key Conn Data → Prop
  | .register c request _ => Free w c request.subscriptionKey
  | .setInterval c key intervalMs _ => intervalMs < 0 ∨ Free w c key
  | .unregister c key refusals => Free w c key ∧ (w.connections.get key = some c →
      refusals.headD false = false)
  | .disconnect _ => True
  | .packet .. => True

/-- Every event was apart when it came. -/
def Service.EachApart (s : Service Key Conn Data) (events : List (Event Key Conn Data)) : Prop :=
  ConditionalRuns.Each Service.step (fun s e => e.Apart s.world) s events

/-- Nothing is registered. -/
def World.empty : World Key Conn Data where
  connections := []
  intervals := []
  lastSent := []
  now := 0
  refusals := []
  acks := []
  packets := []

def start : Service Key Conn Data where
  world := .empty
  live _ _ := false
  own _ _ := none

/-- A live registration is the service's, with its client's own interval. -/
def Kept (s : Service Key Conn Data) : Prop :=
  ∀ c key, s.live c key = true →
    s.world.connections.get key = some c ∧ s.world.intervals.get key = s.own c key

section
variable {c : Conn} {s : Service Key Conn Data}

private theorem serves_of_connections (h : w.connections.get key = some c) :
    Serves w c key (w.intervals.get key) := by
  intro data now
  rw [Event.after, World.perform]
  match hinterval : w.intervals.get key with
  | none => simp [decideToTransmit, shouldTransmit, sendToClientPacket, perform, Prog.perform,
      Prog.tryCatch, Prog.ofExcept, answer, h, hinterval, due]
  | some none => simp [decideToTransmit, shouldTransmit, sendToClientPacket, perform, Prog.perform,
      Prog.tryCatch, Prog.ofExcept, answer, h, hinterval, due]
  | some (some ms) =>
    by_cases hdue : now - (w.lastSent.get key).getD 0 ≥ ms
    · simp [decideToTransmit, shouldTransmit, sendToClientPacket, perform, Prog.perform,
        Prog.tryCatch, Prog.ofExcept, run, answer, h, hinterval, due, hdue]
    · simp [decideToTransmit, shouldTransmit, sendToClientPacket, perform, Prog.perform,
        Prog.tryCatch, Prog.ofExcept, run, answer, h, hinterval, due, hdue]

private theorem connections_registerStream {request : StreamRequestDto Key}
    (h : Free w c request.subscriptionKey) :
    (run answer (registerStream request c) w).2.connections.get request.subscriptionKey = some c := by
  let P : Op Key Conn Data → Prop := fun o =>
    o.SparesConnections ∨ o = .tryAddConnection request.subscriptionKey c
  have hwatched : Watched P (registerStream request c : M Key Conn Data Unit) :=
    watched_registerStream (.inr rfl) (.inl trivial) (fun _ _ => .inl trivial) (.inl trivial)
      (fun _ => .inl trivial) (.inl trivial) (.inl trivial)
  have hfirst : (tryAdd w.connections request.subscriptionKey c).get request.subscriptionKey = some c := by
    rw [get_tryAdd_self]
    cases hget : w.connections.get request.subscriptionKey with
    | none => rfl
    | some c' => exact congrArg some (h c' hget)
  refine run_watched (I := fun w : World Key Conn Data =>
    w.connections.get request.subscriptionKey = some c) (fun w o ho hw => ?_)
    (hwatched.2 (w.connections.get request.subscriptionKey).isNone trivial) hfirst
  rcases ho with ho | rfl
  · rwa [connections_of_sparesConnections ho]
  · exact get_tryAdd_self.trans (by rw [hw]; rfl)

private theorem acknowledged_unregister {refusals : List Bool} (h : w.connections.get key = some c)
    (hrefusals : refusals.headD false = false) :
    acknowledged (Event.after w (.unregister c key refusals)) c .unregisterFromMethod key = true := by
  have hsent : refusals.head?.getD false = false := by simpa using hrefusals
  simp [Event.after, World.perform, deregisterStream, sendAck, perform, Prog.perform, Prog.tryCatch,
    Prog.ofExcept, answer, h, hsent, acknowledged, run]

private theorem sameAt_removeKeys {keys : List Key} (h : K ∉ keys) :
    SameAt K w (run answer (keys.forM removeKey) w).2 := by
  refine sameAt_of_watched (watched_forM fun key hkey => ?_)
  have hne : key ≠ K := fun heq => h (heq ▸ hkey)
  exact watched_removeKey hne hne hne

omit [DecidableEq Conn] in
theorem same_of_sameAt (h : Kept s) {w : World Key Conn Data} (hw : SameAt key s.world w)
    (hlive : s.live c key = true) :
    w.connections.get key = some c ∧ w.intervals.get key = s.own c key := by
  obtain ⟨hconnection, hinterval⟩ := h c key hlive
  exact ⟨hw.1.trans hconnection, hw.2.trans hinterval⟩

private theorem kept_register (h : Kept s) {request : StreamRequestDto Key} {refusals : List Bool}
    (hfree : Free s.world c request.subscriptionKey) : Kept (s.step (.register c request refusals)) := by
  intro c' key hlive
  by_cases hkey : key = request.subscriptionKey
  · subst hkey
    by_cases hc : c' = c
    · subst hc
      exact ⟨connections_registerStream hfree, (setAt_self _ _ _ _).symm⟩
    · dsimp only [Service.step] at hlive
      rw [setAt_of_ne fun heq => hc heq.1] at hlive
      exact absurd (hfree c' (h c' _ hlive).1) hc
  · have hne : request.subscriptionKey ≠ key := Ne.symm hkey
    dsimp only [Service.step] at hlive ⊢
    rw [setAt_of_ne fun heq => hkey heq.2] at hlive
    rw [setAt_of_ne fun heq => hkey heq.2]
    exact same_of_sameAt h (sameAt_of_watched
      (watched_registerStream hne trivial (fun _ _ => trivial) hne (fun _ => hne) hne hne)) hlive

private theorem kept_setInterval (h : Kept s) {ms : ℤ} {refusals : List Bool}
    (hfree : ms < 0 ∨ Free s.world c key) : Kept (s.step (.setInterval c key ms refusals)) := by
  have hconnections : (Event.after s.world (.setInterval c key ms refusals)).connections =
      s.world.connections :=
    connections_of_watched (watched_setTimeInterval trivial (fun _ _ => trivial) fun _ =>
      ⟨fun _ => trivial, trivial, trivial⟩)
  intro c' key' hlive
  obtain ⟨hconnection, hinterval⟩ := h c' key' hlive
  refine ⟨(congrArg (Dict.get · key') hconnections).trans hconnection, ?_⟩
  by_cases hown : c' = c ∧ key' = key
  · obtain ⟨rfl, rfl⟩ := hown
    exact (setAt_self _ _ _ _).symm
  · refine Eq.trans ?_ (hinterval.trans (setAt_of_ne hown).symm)
    by_cases hkey : key = key'
    · subst hkey
      rcases hfree with hneg | hfree
      · refine congrArg (Dict.get · key) (intervals_of_watched ?_)
        exact watched_setTimeInterval trivial (fun _ _ => trivial) fun hms => absurd hneg (Int.not_lt.mpr hms)
      · exact absurd ⟨hfree c' hconnection, rfl⟩ hown
    · exact (sameAt_of_watched (watched_setTimeInterval trivial (fun _ _ => trivial) fun _ =>
        ⟨fun _ => hkey, hkey, hkey⟩)).2

private theorem kept_unregister (h : Kept s) {refusals : List Bool} (hfree : Free s.world c key)
    (hsent : s.world.connections.get key = some c → refusals.headD false = false) :
    Kept (s.step (.unregister c key refusals)) := by
  intro c' key' hlive
  dsimp only [Service.step] at hlive ⊢
  by_cases hkey : key = key'
  · subst hkey
    by_cases hc : c' = c
    · subst hc
      rw [setAt_self, Bool.and_eq_true] at hlive
      obtain ⟨hconnection, _⟩ := h c' key hlive.1
      have hnot := hlive.2
      rw [acknowledged_unregister hconnection (hsent hconnection)] at hnot
      cases hnot
    · rw [setAt_of_ne fun heq => hc heq.1] at hlive
      exact absurd (hfree c' (h c' key hlive).1) hc
  · rw [setAt_of_ne fun heq => hkey heq.2.symm] at hlive ⊢
    exact same_of_sameAt h (sameAt_of_watched
      (watched_deregisterStream trivial hkey hkey hkey fun _ _ => trivial)) hlive

private theorem kept_disconnect (h : Kept s) : Kept (s.step (.disconnect c)) := by
  intro c' key hlive
  dsimp only [Service.step] at hlive ⊢
  rw [Bool.and_eq_true, decide_eq_true_iff] at hlive
  obtain ⟨hc, hlive⟩ := hlive
  refine same_of_sameAt h ?_ hlive
  have hkeys : key ∉ s.world.connections.keys.filter fun key =>
      s.world.connections.get key = some c := by
    intro hmem
    have hget := of_decide_eq_true (List.mem_filter.mp hmem).2
    rw [(h c' key hlive).1] at hget
    exact hc (Option.some.inj hget)
  exact sameAt_removeKeys hkeys

private theorem kept_packet (h : Kept s) {p : BasePacketEntity Key Data} {now : ℤ} {refusals : List Bool} :
    Kept (s.step (.packet p now refusals)) := by
  intro c' key hlive
  refine same_of_sameAt h ⟨congrArg (Dict.get · key) (connections_of_watched ?_),
    congrArg (Dict.get · key) (intervals_of_watched ?_)⟩ hlive
  · exact watched_decideToTransmit trivial trivial trivial trivial (fun _ => trivial) fun _ _ => trivial
  · exact watched_decideToTransmit trivial trivial trivial trivial (fun _ => trivial) fun _ _ => trivial

theorem kept_step (h : Kept s) {e : Event Key Conn Data} (happart : e.Apart s.world) :
    Kept (s.step e) := by
  cases e with
  | register c request refusals => exact kept_register h happart
  | setInterval c key ms refusals => exact kept_setInterval h happart
  | unregister c key refusals => exact kept_unregister h happart.1 happart.2
  | disconnect c => exact kept_disconnect h
  | packet p now refusals => exact kept_packet h

omit [DecidableEq Conn] in
private theorem kept_start : Kept (start : Service Key Conn Data) :=
  fun _ _ h => nomatch h

theorem kept_run (h : Kept s) {events : List (Event Key Conn Data)} (happart : s.EachApart events) :
    Kept (s.run events) :=
  ConditionalRuns.run_of_each (fun _ _ h happart => kept_step h happart) h happart

end

def plain (key : ℕ) : StreamRequestDto ℕ := ⟨key, none⟩

/-- Two clients, each with a key of its own; the first one sets its interval and the other leaves. -/
def ownKeys : List (Event ℕ ℕ ℕ) :=
  [.register 1 (plain 7) [], .register 2 ⟨8, some 100⟩ [], .setInterval 1 7 250 [],
    .packet ⟨7, some 3⟩ 1000 [], .disconnect 2]

end Kanat.Transmission
