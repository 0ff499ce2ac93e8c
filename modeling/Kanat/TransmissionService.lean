import Kanat.InsertionOrderDict
import Kanat.ScheduledPrograms
import Mathlib.Data.Int.Notation

/-! # The transmission service: which client is sent which stream of packets

Three dictionaries shared by all clients, each call on one of them a step of its own. -/
namespace Kanat.Transmission
open ResumptionPrograms ScheduledPrograms InsertionOrderDict

variable {Key Conn Data : Type}

inductive OperationType where
  | registerToMethod | unregisterFromMethod | setTimeInterval
deriving DecidableEq, Repr

/-- An acknowledgement; of its message, the subscription key. -/
structure AckDto (Key : Type) where
  operationType : OperationType
  message : Key
  success : Bool
deriving DecidableEq, Repr

structure StreamRequestDto (Key : Type) where
  subscriptionKey : Key
  intervalMs : Option ℤ

/-- A packet and what it converts to, if anything. -/
structure BasePacketEntity (Key Data : Type) where
  subscriptionKey : Key
  plainData : Option Data

/-- The service's calls: on its dictionaries, on the clock and on the clients. -/
inductive Op (Key Conn Data : Type) where
  | tryAddConnection (key : Key) (connectionId : Conn)
  | tryGetConnection (key : Key)
  | tryRemoveConnection (key : Key)
  | keysOf (connectionId : Conn)
  | tryAddInterval (key : Key) (intervalMs : Option ℤ)
  | tryGetInterval (key : Key)
  | setInterval (key : Key) (intervalMs : Option ℤ)
  | tryRemoveInterval (key : Key)
  | tryAddLastSent (key : Key) (ms : ℤ)
  | getOrAddLastSent (key : Key) (ms : ℤ)
  | setLastSent (key : Key) (ms : ℤ)
  | tryRemoveLastSent (key : Key)
  | clearConnections
  | clearIntervals
  | clearLastSent
  | utcNow
  | sendAck (connectionId : Conn) (ack : AckDto Key)
  | sendPacket (connectionId : Conn) (data : Data)

/-- A send that raises. -/
structure SendError where
deriving DecidableEq, Repr

abbrev Ans (Key Conn Data : Type) : Op Key Conn Data → Type
  | .tryAddConnection .. | .tryRemoveConnection _ => Bool
  | .tryGetConnection _ => Option Conn
  | .keysOf _ => List Key
  | .tryGetInterval _ => Option (Option ℤ)
  | .getOrAddLastSent .. | .utcNow => ℤ
  | .sendAck .. | .sendPacket .. => Except SendError Unit
  | _ => Unit

abbrev M (Key Conn Data α : Type) :=
  Prog (Ans Key Conn Data) SendError α

def perform (o : Op Key Conn Data) : M Key Conn Data (Ans Key Conn Data o) :=
  Prog.perform o

def sendAck (connectionId : Conn) (ack : AckDto Key) : M Key Conn Data Unit :=
  perform (.sendAck connectionId ack) >>= Prog.ofExcept

/-- The error is acknowledged, and raised again. -/
def refuse (connectionId : Conn) (operationType : OperationType) (key : Key) (e : SendError) :
    M Key Conn Data Unit := do
  sendAck connectionId ⟨operationType, key, false⟩
  throw e

def setTimeInterval (key : Key) (intervalMs : ℤ) (connectionId : Conn) : M Key Conn Data Unit :=
  Prog.tryCatch (do
    match ← perform (.tryGetConnection key) with
    | none => sendAck connectionId ⟨.setTimeInterval, key, false⟩
    | some existingConnectionId =>
        if intervalMs < 0 then sendAck connectionId ⟨.setTimeInterval, key, false⟩
        else if intervalMs = 0 then
          perform (.setInterval key none)
          perform (.tryRemoveLastSent key)
          sendAck existingConnectionId ⟨.setTimeInterval, key, true⟩
        else
          perform (.setInterval key (some intervalMs))
          perform (.tryAddLastSent key 0)
          sendAck existingConnectionId ⟨.setTimeInterval, key, true⟩)
    (refuse connectionId .setTimeInterval key)

def registerStream (request : StreamRequestDto Key) (connectionId : Conn) :
    M Key Conn Data Unit :=
  Prog.tryCatch (do
    match ← perform (.tryAddConnection request.subscriptionKey connectionId) with
    | true =>
        perform (.tryAddInterval request.subscriptionKey none)
        perform (.tryAddLastSent request.subscriptionKey 0)
        sendAck connectionId ⟨.registerToMethod, request.subscriptionKey, true⟩
        match request.intervalMs with
        | some intervalMs => setTimeInterval request.subscriptionKey intervalMs connectionId
        | none => pure ()
    | false =>
        -- taken for the same client's registration, whoever's it is
        setTimeInterval request.subscriptionKey (request.intervalMs.getD 0) connectionId
        sendAck connectionId ⟨.registerToMethod, request.subscriptionKey, true⟩)
    (refuse connectionId .registerToMethod request.subscriptionKey)

def deregisterStream (subscriptionKey : Key) : M Key Conn Data Unit := do
  match ← perform (.tryGetConnection subscriptionKey) with
  | none => pure ()
  | some toBeRemovedConnectionId =>
      Prog.tryCatch (do
        let _ ← perform (.tryRemoveConnection subscriptionKey)
        perform (.tryRemoveInterval subscriptionKey)
        perform (.tryRemoveLastSent subscriptionKey)
        sendAck toBeRemovedConnectionId ⟨.unregisterFromMethod, subscriptionKey, true⟩)
        (refuse toBeRemovedConnectionId .unregisterFromMethod subscriptionKey)

def removeKey (key : Key) : M Key Conn Data Unit := do
  let _ ← perform (.tryRemoveConnection key)
  perform (.tryRemoveInterval key)
  perform (.tryRemoveLastSent key)

def deregisterFromAllStreams (connectionId : Conn) : M Key Conn Data Unit := do
  let keysToRemove ← perform (.keysOf connectionId)
  keysToRemove.forM removeKey

def unregisterAllStreams : M Key Conn Data Unit := do
  perform .clearConnections
  perform .clearIntervals
  perform .clearLastSent

def shouldTransmit (subscriptionKey : Key) : M Key Conn Data Bool := do
  match ← perform (.tryGetInterval subscriptionKey) with
  | none => pure true
  | some none => pure true
  | some (some intervalMs) =>
      let currentMs ← perform .utcNow
      let lastSentMs ← perform (.getOrAddLastSent subscriptionKey 0)
      if currentMs - lastSentMs ≥ intervalMs then
        perform (.setLastSent subscriptionKey currentMs)
        pure true
      else pure false

/-- Errors of sending are only logged. -/
def sendToClientPacket (connectionId : Conn) (data : Data) : M Key Conn Data Unit :=
  Prog.tryCatch (perform (.sendPacket connectionId data) >>= Prog.ofExcept) fun _ => pure ()

def decideToTransmit (packet : BasePacketEntity Key Data) : M Key Conn Data Unit := do
  match ← perform (.tryGetConnection packet.subscriptionKey) with
  | none => pure ()
  | some connectionId =>
      match ← shouldTransmit packet.subscriptionKey with
      | false => pure ()
      | true =>
          match packet.plainData with
          | none => pure ()
          | some data => sendToClientPacket connectionId data

structure World (Key Conn Data : Type) where
  connections : Dict Key Conn
  intervals : Dict Key (Option ℤ)
  lastSent : Dict Key ℤ
  now : ℤ
  /-- Which of the next sends raise. -/
  refusals : List Bool
  acks : List (Conn × AckDto Key)
  packets : List (Conn × Data)

variable [DecidableEq Key] [DecidableEq Conn]

/-- `TryAdd` -/
def tryAdd {V : Type} (d : Dict Key V) (key : Key) (v : V) : Dict Key V :=
  match d.get key with
  | none => d.put key v
  | some _ => d

def answer (w : World Key Conn Data) :
    (o : Op Key Conn Data) → Ans Key Conn Data o × World Key Conn Data
  | .tryAddConnection key connectionId =>
      ((w.connections.get key).isNone, { w with connections := tryAdd w.connections key connectionId })
  | .tryGetConnection key => (w.connections.get key, w)
  | .tryRemoveConnection key =>
      ((w.connections.get key).isSome, { w with connections := w.connections.pop key })
  | .keysOf connectionId =>
      (w.connections.keys.filter fun key => w.connections.get key = some connectionId, w)
  | .tryAddInterval key intervalMs => ((), { w with intervals := tryAdd w.intervals key intervalMs })
  | .tryGetInterval key => (w.intervals.get key, w)
  | .setInterval key intervalMs => ((), { w with intervals := w.intervals.put key intervalMs })
  | .tryRemoveInterval key => ((), { w with intervals := w.intervals.pop key })
  | .tryAddLastSent key ms => ((), { w with lastSent := tryAdd w.lastSent key ms })
  | .getOrAddLastSent key ms =>
      ((w.lastSent.get key).getD ms, { w with lastSent := tryAdd w.lastSent key ms })
  | .setLastSent key ms => ((), { w with lastSent := w.lastSent.put key ms })
  | .tryRemoveLastSent key => ((), { w with lastSent := w.lastSent.pop key })
  | .clearConnections => ((), { w with connections := [] })
  | .clearIntervals => ((), { w with intervals := [] })
  | .clearLastSent => ((), { w with lastSent := [] })
  | .utcNow => (w.now, w)
  | .sendAck connectionId ack =>
      if w.refusals.headD false then (.error ⟨⟩, { w with refusals := w.refusals.tail })
      else (.ok (), { w with refusals := w.refusals.tail, acks := (connectionId, ack) :: w.acks })
  | .sendPacket connectionId data =>
      if w.refusals.headD false then (.error ⟨⟩, { w with refusals := w.refusals.tail })
      else (.ok (), { w with refusals := w.refusals.tail, packets := (connectionId, data) :: w.packets })

end Kanat.Transmission
