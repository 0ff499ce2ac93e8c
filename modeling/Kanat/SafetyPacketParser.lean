import Kanat.MotionPacketParser

/-! # The safety packet parser

Its headers are searched for in the frame as the motion parser's are, and its one value decides what is made of the
rest. -/
namespace Kanat.SafetyPackets
open MotionPackets (Bytes Span byteAt readUInt16 ipSignature hexX4)

def PBE_IP : String := "132.8.7.101"
def SBE_IP : String := "132.8.7.102"

abbrev Map := List (ℕ × String)

def DO_PBE : Map := [(0x0010, "1"), (0x0027, "DO3_FIRE1"), (0x0012, "DO2_MOTION"), (0x0014, "DO4_LED_FIRE_EN")]

def DO_SBE : Map :=
  [(0x0010, "DO0_RLD"), (0x0011, "DO1_RLD_SFTY"), (0x0012, "DO2_PWR"), (0x0028, "DO4_FIRE2"), (0x0015, "X5")]

def STATE : Map := [(0x0000, "OFF"), (0xFF00, "ON"), (0x0001, "PULSE"), (0x0003, "BURST")]

/-- A code's name, or the code itself. -/
def Map.describe (map : Map) (value : ℕ) : String := (List.lookup value map).getD (hexX4 value)

structure SafetyPacketEntity where
  isCmd : Bool
  name : String
  opCode : String
  description : String
  state : String
  deriving DecidableEq

/-- Where the IPv4 header and the payload were found, and the addresses the header gives. -/
structure Datagram where
  ipStart : ℕ
  payload : Span
  srcIp : String
  dstIp : String
  deriving DecidableEq

def ipStart (raw : Bytes) : Option ℕ := ipSignature raw fun i => i + 20 ≤ raw.length

/-- The address in four bytes. -/
def address (raw : Bytes) (i : ℕ) : String :=
  s!"{byteAt raw i}.{byteAt raw (i + 1)}.{byteAt raw (i + 2)}.{byteAt raw (i + 3)}"

def extractUdpPayload (raw : Bytes) (ipStart : ℕ) : Option Datagram :=
  if raw.length < ipStart + 20 then none
  else if byteAt raw ipStart / 16 ≠ 4 then none
  else
    let ihl := byteAt raw ipStart % 16 * 4
    if ihl < 20 ∨ raw.length < ipStart + ihl + 8 then none
    else if byteAt raw (ipStart + 9) ≠ 17 then none
    else
      let udpStart := ipStart + ihl
      if raw.length < udpStart + 8 then none
      else
        let udpLen := readUInt16 raw (udpStart + 4)
        if udpLen < 8 then none
        else
          let payloadStart := udpStart + 8
          let payloadLen := min (udpLen - 8) (raw.length - payloadStart)
          if payloadLen ≤ 0 then none
          else some ⟨ipStart, ⟨payloadStart, payloadLen⟩, address raw (ipStart + 12), address raw (ipStart + 16)⟩

/-- A packet of no IPv4 header is all payload, to no address. -/
def datagram (raw : Bytes) : Option Datagram :=
  match ipStart raw with
  | some start => if start + 28 ≤ raw.length then extractUdpPayload raw start else some ⟨0, ⟨0, raw.length⟩, "", ""⟩
  | none => some ⟨0, ⟨0, raw.length⟩, "", ""⟩

/-- The entity of a payload, its last four bytes the DO and its state, and the address it is for. -/
def entity (payload : Bytes) (dstIp : String) : Option SafetyPacketEntity :=
  if payload.length < 4 then none
  else
    let doVal := readUInt16 payload (payload.length - 4)
    let stVal := readUInt16 payload (payload.length - 2)
    let doMap := if dstIp = PBE_IP then some DO_PBE else if dstIp = SBE_IP then some DO_SBE else none
    match doMap with
    | none => none
    | some doMap =>
      let dataPipeName := if dstIp = PBE_IP then some "PBE" else if dstIp = SBE_IP then some "SBE" else none
      dataPipeName.map fun name => ⟨true, name, hexX4 doVal, doMap.describe doVal, STATE.describe stVal⟩

def parse (raw : Bytes) : Option SafetyPacketEntity :=
  if raw.length < 4 then none
  else (datagram raw).bind fun d => entity (d.payload.bytes raw) d.dstIp

end Kanat.SafetyPackets
