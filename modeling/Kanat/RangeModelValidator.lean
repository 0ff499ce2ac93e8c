import Kanat.DeviceService
import Kanat.RangeService

/-! # What a start asks to be captured

`RangeModelValidator.cs` hydrates the capture's endpoints from the settings; `BpfFilterBuilder.cs` and the handlers of
the packet types make a filter of them. `MtxConfig` and `Cams`, which a start only hands on, are left out. -/
namespace Kanat.RangeService
open DeviceService

structure EndpointSpecification where
  ip : Option String
  port : Option ℤ
deriving DecidableEq, Repr

structure SafetyConf where
  sbe : Option EndpointSpecification
  pbe : Option EndpointSpecification
deriving DecidableEq, Repr

structure BPFConfDto where
  safety : Option SafetyConf
  motion : Option (List EndpointSpecification)
  onVif : Option (List EndpointSpecification)
  device : Option String
deriving DecidableEq, Repr

/-- The `Network` settings of the packet types' captures. -/
structure Configuration where
  protocol : Pipe → String
  ips : Pipe → List String
  ports : Pipe → List ℤ

/-- `string.IsNullOrWhiteSpace` -/
def isNullOrWhiteSpace (s : Option String) : Bool := s.all fun s => s.toList.all isWhiteSpace

namespace RangeModelValidator

/-- `StringComparer.OrdinalIgnoreCase`, with the upper case of the invariant culture. -/
def equalsIgnoreCase (toUpperInvariant : Char → Char) (s t : String) : Bool :=
  s.toList.map toUpperInvariant = t.toList.map toUpperInvariant

def getIps (configuration : Configuration) (p : Pipe) : List String :=
  (configuration.ips p).filter fun ip => !isNullOrWhiteSpace (some ip)

def getPorts (configuration : Configuration) (p : Pipe) : List ℤ := (configuration.ports p).filter fun port => 0 < port

/-- The default at an index, or else the first there is. -/
def defaultAt {α : Type} (defaults : List α) (i : ℕ) : Option α := (defaults[i]?).or defaults.head?

def hydrateEndpoints (provided : Option (List EndpointSpecification)) (defaultIps : List String)
    (defaultPorts : List ℤ) : List EndpointSpecification :=
  match provided with
  | some (endpoint :: endpoints) => endpoint :: endpoints
  | _ => (List.range (max defaultIps.length defaultPorts.length)).map fun i =>
      ⟨defaultAt defaultIps i, defaultAt defaultPorts i⟩

def buildAt (defaultIps : List String) (defaultPorts : List ℤ) (i : ℕ) : Option EndpointSpecification :=
  let ip := defaultAt defaultIps i
  let port := defaultAt defaultPorts i
  if isNullOrWhiteSpace ip && port.isNone then none else some ⟨ip, port⟩

def hydrateSafetyEndpoints (provided : Option SafetyConf) (defaultIps : List String) (defaultPorts : List ℤ) :
    SafetyConf :=
  match provided.filter fun safety => safety.sbe.isSome || safety.pbe.isSome with
  | some safety => safety
  | none => ⟨buildAt defaultIps defaultPorts 0, buildAt defaultIps defaultPorts 1⟩

def hydrate (configuration : Configuration) (bpf : BPFConfDto) : BPFConfDto where
  safety := some (hydrateSafetyEndpoints bpf.safety (getIps configuration .safety) (getPorts configuration .safety))
  motion := some (hydrateEndpoints bpf.motion (getIps configuration .motion) (getPorts configuration .motion))
  onVif := some (hydrateEndpoints bpf.onVif (getIps configuration .onvif) (getPorts configuration .onvif))
  device := bpf.device

def validateAndHydrate {Id : Type} (toUpperInvariant : Char → Char) (availableDevices : List String)
    (configuration : Configuration) (range : RangeDto Id BPFConfDto) : Except Exception (RangeDto Id BPFConfDto) :=
  match range.config with
  | none => .error (.argument "Range.Config must be provided")
  | some config =>
    match config.bpfConfig with
    | none => .error (.argument "Range.Config.BpfConfig must be provided")
    | some bpf =>
      if isNullOrWhiteSpace bpf.device ||
          !availableDevices.any fun device => bpf.device.any (equalsIgnoreCase toUpperInvariant device) then
        let provided := bpf.device.getD "<null>"
        .error (.argument
          s!"BpfConfig.Device must exist and be in available device list. Provided: '{provided}'")
      else .ok { range with config := some { config with bpfConfig := some (hydrate configuration bpf) } }

section
variable {Id : Type} {toUpperInvariant : Char → Char} {availableDevices : List String} {configuration : Configuration}
  {range validated : RangeDto Id BPFConfDto}

/-- Only a capture on a device there is, its name in any case, is let through. -/
theorem validateAndHydrate_eq_ok :
    validateAndHydrate toUpperInvariant availableDevices configuration range = .ok validated ↔
      ∃ config bpf, range.config = some config ∧ config.bpfConfig = some bpf ∧ isNullOrWhiteSpace bpf.device = false ∧
        (∃ device ∈ availableDevices, bpf.device.any (equalsIgnoreCase toUpperInvariant device) = true) ∧
        validated = { range with config := some { config with bpfConfig := some (hydrate configuration bpf) } } := by
  rw [validateAndHydrate]
  cases hconfig : range.config with
  | none =>
    refine iff_of_false (fun h => by cases h) ?_
    rintro ⟨config, -, h, -⟩
    cases h
  | some config =>
    dsimp only
    cases hbpf : config.bpfConfig with
    | none =>
      refine iff_of_false (fun h => by cases h) ?_
      rintro ⟨config', bpf, h, h', -⟩
      cases h
      rw [hbpf] at h'
      cases h'
    | some bpf =>
      dsimp only
      cases hdevice : isNullOrWhiteSpace bpf.device with
      | true =>
        refine iff_of_false (fun h => by cases h) ?_
        rintro ⟨config', bpf', h, h', hnamed, -⟩
        cases h
        cases hbpf.symm.trans h'
        rw [hdevice] at hnamed
        cases hnamed
      | false =>
        cases hany : availableDevices.any fun device => bpf.device.any (equalsIgnoreCase toUpperInvariant device) with
        | false =>
          refine iff_of_false (fun h => by cases h) ?_
          rintro ⟨config', bpf', h, h', -, hfound, -⟩
          cases h
          cases hbpf.symm.trans h'
          rw [List.any_eq_true.mpr hfound] at hany
          cases hany
        | true =>
          constructor
          · intro h
            exact ⟨config, bpf, rfl, hbpf, hdevice, List.any_eq_true.mp hany, (Except.ok.inj h).symm⟩
          · rintro ⟨config', bpf', h, h', -, -, hvalidated⟩
            cases h
            cases hbpf.symm.trans h'
            rw [hvalidated]
            rfl

end

end RangeModelValidator

namespace BpfFilterBuilder

/-- The expression of a protocol, its name read in any case. -/
def expression (protocol : String) : String :=
  match protocol.toLower with
  | "tcp" => "tcp"
  | "udp" => "udp"
  | "http" => "tcp port 80"
  | "any" => ""
  | _ => protocol

/-- `host` and `port` expressions, one of which is enough. -/
def anyOf (expressions : List String) : List String :=
  if expressions = [] then [] else ["(" ++ " or ".intercalate expressions ++ ")"]

def build (protocol : String) (endpoints : List EndpointSpecification) : String :=
  let proto := expression protocol
  let ips := (endpoints.filterMap EndpointSpecification.ip).filter fun ip => !isNullOrWhiteSpace (some ip)
  let ports := (endpoints.filterMap EndpointSpecification.port).filter fun port => 0 < port
  " and ".intercalate ((if isNullOrWhiteSpace (some proto) then [] else [proto]) ++
    anyOf (ips.map fun ip => s!"host {ip}") ++ anyOf (ports.map fun port => s!"port {port}"))

end BpfFilterBuilder

namespace HandlerService

def getEndpointsFromBpfConfig (bpf : BPFConfDto) : Pipe → List EndpointSpecification
  | .motion => bpf.motion.getD []
  | .safety => bpf.safety.elim [] fun safety => safety.sbe.toList ++ safety.pbe.toList
  | .onvif => bpf.onVif.getD []

/-- Each packet type's handler is an observer of its own. -/
def subscribeToDevice (configuration : Configuration) (bpf : BPFConfDto) (attempt : Attempt) (p : Pipe)
    (w : DeviceService.World Pipe) : Except Exception Unit × DeviceService.World Pipe :=
  let filter := BpfFilterBuilder.build (configuration.protocol p) (getEndpointsFromBpfConfig bpf p)
  if isNullOrWhiteSpace bpf.device then (.error (.argument "Device must be provided in BpfConfig.Device"), w)
  else w.subscribeWithFilter attempt p (bpf.device.getD "") filter

/-- Endpoints that are given are captured as they are. -/
theorem getEndpoints_hydrate {configuration : Configuration} {bpf : BPFConfDto} {p : Pipe}
    (h : getEndpointsFromBpfConfig bpf p ≠ []) :
    getEndpointsFromBpfConfig (RangeModelValidator.hydrate configuration bpf) p = getEndpointsFromBpfConfig bpf p := by
  have hgiven : ∀ (provided : Option (List EndpointSpecification)) (ips : List String) (ports : List ℤ),
      provided.getD [] ≠ [] → RangeModelValidator.hydrateEndpoints provided ips ports = provided.getD [] := by
    intro provided ips ports hne
    cases provided with
    | none => exact absurd rfl hne
    | some endpoints =>
      cases endpoints with
      | nil => exact absurd rfl hne
      | cons endpoint endpoints => rfl
  cases p with
  | motion => exact hgiven _ _ _ h
  | onvif => exact hgiven _ _ _ h
  | safety =>
    obtain ⟨safety, motion, onVif, device⟩ := bpf
    cases safety with
    | none => exact absurd rfl h
    | some safety =>
      obtain ⟨sbe, pbe⟩ := safety
      cases sbe with
      | some sbe => rfl
      | none =>
        cases pbe with
        | some pbe => rfl
        | none => exact absurd rfl h

end HandlerService

end Kanat.RangeService
