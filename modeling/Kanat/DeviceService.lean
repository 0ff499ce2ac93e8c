import Kanat.InsertionOrderDict
import Mathlib.Data.Int.Notation

/-! # Capture devices of the packet processor

`DeviceService.cs`. A device is opened, filtered and started before it is registered; stopping looks only at the
registry. -/
namespace Kanat.DeviceService
open InsertionOrderDict

structure RawPacketEvent where
  deviceName : String
  data : List UInt8
  timestamp : ℤ
  deriving DecidableEq

/-- An instance of `LibPcapLiveDevice`, with the observer its handler forwards to. -/
structure Device (Observer : Type) where
  instanceId : ℕ
  observer : Observer
  name : String
  filter : String
  deriving DecidableEq

/-- An entry of `CaptureDeviceList`. -/
structure BaseDevice where
  name : String
  hasInterface : Bool

/-- What one subscription meets: the devices there are, and whether opening, filtering and starting one works. -/
structure Attempt where
  devices : List BaseDevice
  opens : Bool
  filters : Bool
  starts : Bool

inductive Exception
  | argument (message : String)
  | invalidOperation (message : String)

structure World (Observer : Type) where
  /-- Devices opened and not closed, and whether each is started. -/
  opened : List (Device Observer × Bool)
  activeSubscriptions : Dict Observer (Device Observer)
  nextInstance : ℕ
  sent : List (Observer × RawPacketEvent)

variable {Observer : Type} [DecidableEq Observer]

namespace World

def start : World Observer := ⟨[], [], 0, []⟩

/-- `TryAdd` -/
def register (w : World Observer) (observer : Observer) (dev : Device Observer) : World Observer :=
  if (w.activeSubscriptions.get observer).isNone then
    { w with activeSubscriptions := w.activeSubscriptions.put observer dev }
  else w

def subscribeWithFilter (w : World Observer) (attempt : Attempt) (observer : Observer) (deviceName filter : String) :
    Except Exception Unit × World Observer :=
  match attempt.devices.find? fun d => d.name = deviceName with
  | none => (.error (.argument s!"Device {deviceName} not found"), w)
  | some baseDev =>
    if baseDev.hasInterface then
      let dev : Device Observer := ⟨w.nextInstance, observer, deviceName, filter⟩
      let w := { w with nextInstance := w.nextInstance + 1 }
      -- from here an exception is logged and the device left as it is
      if attempt.opens then
        if attempt.filters && attempt.starts then
          (.ok (), { w with opened := w.opened ++ [(dev, true)] }.register observer dev)
        else (.ok (), { w with opened := w.opened ++ [(dev, false)] })
      else (.ok (), w)
    else (.error (.invalidOperation s!"Device {deviceName} has no underlying interface"), w)

/-- `StopCapture`, `Close` and `Dispose` -/
def close (w : World Observer) (dev : Device Observer) : World Observer :=
  { w with opened := w.opened.filter fun entry => entry.1 ≠ dev }

def unsubscribe (w : World Observer) (observer : Observer) : World Observer :=
  match w.activeSubscriptions.get observer with
  | some dev => { w with activeSubscriptions := w.activeSubscriptions.pop observer }.close dev
  | none => w

def stopAll (w : World Observer) : World Observer :=
  { w.activeSubscriptions.foldl (fun w entry => w.close entry.2) w with activeSubscriptions := [] }

def capturing (w : World Observer) : List (Device Observer) := (w.opened.filter fun entry => entry.2).map Prod.fst

/-- The handlers a packet on a device's wire comes to, each of which forwards one that is not empty. -/
def forwarded (accepts : String → List UInt8 → Bool) (w : World Observer) (packet : RawPacketEvent) :
    List (Observer × RawPacketEvent) :=
  if packet.data = [] then []
  else (w.capturing.filter fun dev => dev.name = packet.deviceName ∧ accepts dev.filter packet.data).map fun dev =>
    (dev.observer, packet)

end World

inductive Event (Observer : Type)
  | subscribe (attempt : Attempt) (observer : Observer) (deviceName filter : String)
  | unsubscribe (observer : Observer)
  | stopAll
  | arrive (packet : RawPacketEvent)

variable (accepts : String → List UInt8 → Bool)

def step (w : World Observer) : Event Observer → World Observer
  | .subscribe attempt observer deviceName filter => (w.subscribeWithFilter attempt observer deviceName filter).2
  | .unsubscribe observer => w.unsubscribe observer
  | .stopAll => w.stopAll
  | .arrive packet => { w with sent := w.sent ++ w.forwarded accepts packet }

end Kanat.DeviceService
