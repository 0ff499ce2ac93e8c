import Kanat.BigEndian
import Kanat.MotionCommands
import Mathlib.Data.Rat.Defs

/-! # The motion packet parser

Ids and the time of parsing are left out. -/
namespace Kanat.MotionPackets
open BigEndian (read)

abbrev Bytes := List UInt8

/-- A double by its exact value. -/
inductive Double where
  | nan
  | infinity (negative : Bool)
  | finite (negative : Bool) (magnitude : ℚ)
  deriving DecidableEq

def Double.ofNat (n : ℕ) : Double := .finite false n

/-- A 32-bit IEEE 754 float by its bits. -/
def Double.ofSingle (bits : ℕ) : Double :=
  let negative := bits / 2 ^ 31 % 2 == 1
  let exponent : ℕ := bits / 2 ^ 23 % 2 ^ 8
  let mantissa : ℕ := bits % 2 ^ 23
  if exponent = 255 then if mantissa = 0 then .infinity negative else .nan
  else if exponent = 0 then .finite negative ((mantissa : ℚ) / 2 ^ 149)
  else .finite negative ((2 ^ 23 + (mantissa : ℚ)) * 2 ^ exponent / 2 ^ 150)

def MOTION_REPORT_PORT : ℕ := 4949

/-- Bytes `start` to `start + length` of a packet. -/
structure Span where
  start : ℕ
  length : ℕ
  deriving DecidableEq

def Span.bytes (raw : Bytes) (s : Span) : Bytes := (raw.drop s.start).take s.length

/-- Where the transport header and the payload were found, and what the header says of the ports. -/
structure Segment where
  headerStart : ℕ
  payload : Span
  srcPort : ℕ
  dstPort : ℕ
  deriving DecidableEq

def byteAt (raw : Bytes) (i : ℕ) : ℕ := (raw.getD i 0).toNat

def readUInt16 (raw : Bytes) (i : ℕ) : ℕ := read ((raw.drop i).take 2)

/-- The first byte 0x45 of the packet's first ones, an IPv4 header of five words. -/
def ipSignature (raw : Bytes) (enough : ℕ → Bool) : Option ℕ :=
  (List.range (min 32 (raw.length - 20))).find? fun i => byteAt raw i == 0x45 && enough i

def ipStart (raw : Bytes) : Option ℕ := ipSignature raw fun i => i + 20 < raw.length

/-- From the payload on to the packet's end. -/
def tcpSegment (raw : Bytes) (tcpStart tcpPayloadStart : ℕ) : Segment where
  headerStart := tcpStart
  payload := ⟨tcpPayloadStart, raw.length - tcpPayloadStart⟩
  srcPort := readUInt16 raw tcpStart
  dstPort := readUInt16 raw (tcpStart + 2)

def extractTcpPayload (raw : Bytes) (ipStart : ℕ) : Option Segment :=
  let ipHeaderLen := byteAt raw ipStart % 16 * 4
  if raw.length < ipStart + ipHeaderLen + 20 then none
  else
    let tcpStart := ipStart + ipHeaderLen
    let tcpHeaderLen := byteAt raw (tcpStart + 12) / 16 * 4
    let tcpPayloadStart := tcpStart + tcpHeaderLen
    if raw.length ≤ tcpPayloadStart then none else some (tcpSegment raw tcpStart tcpPayloadStart)

/-- A packet of no IPv4 header, a TCP segment if one fits, else all payload. -/
def bareSegment (raw : Bytes) : Segment :=
  if 20 ≤ raw.length then
    let tcpPayloadStart := byteAt raw 12 / 16 * 4
    if tcpPayloadStart < raw.length then tcpSegment raw 0 tcpPayloadStart
    else ⟨0, ⟨0, raw.length⟩, readUInt16 raw 0, readUInt16 raw 2⟩
  else ⟨0, ⟨0, raw.length⟩, 0, 0⟩

def segment (raw : Bytes) : Option Segment :=
  match ipStart raw with
  | some start => if start + 40 ≤ raw.length then extractTcpPayload raw start else some (bareSegment raw)
  | none => some (bareSegment raw)

def decodeValue (data : Bytes) (opCode : ℕ) (isCmd : Bool) : Double :=
  match motionRecord opCode with
  | none => .nan
  | some motionRecord =>
    match if isCmd then motionRecord.send else motionRecord.returned with
    | .uInt8 => if 1 ≤ data.length then .ofNat (read (data.take 1)) else .nan
    | .uInt16BE => if 2 ≤ data.length then .ofNat (read (data.take 2)) else .nan
    | .uInt32BE => if 4 ≤ data.length then .ofNat (read (data.take 4)) else .nan
    | .float32BE => if 4 ≤ data.length then .ofSingle (read (data.take 4)) else .nan
    -- the packet appeared, with no value
    | .none => .ofNat 1

/-- `0x` and four hexadecimal digits. -/
def hexX4 (n : ℕ) : String :=
  let digit (k : ℕ) : Char := if k % 16 < 10 then Char.ofNat (48 + k % 16) else Char.ofNat (55 + k % 16)
  String.ofList ['0', 'x', digit (n / 4096), digit (n / 256), digit (n / 16), digit n]

structure MotionPacketEntity where
  axis : UInt8
  opCode : String
  description : String
  value : Double
  isCmd : Bool
  deriving DecidableEq

/-- The entity of a payload and its source port; neither start bytes nor length nor checksum are looked at. -/
def entity (payload : Bytes) (srcPort : ℕ) : Option MotionPacketEntity :=
  if payload.length < 7 then none
  else
    let isReport := srcPort == MOTION_REPORT_PORT
    let axisId := payload.getD 4 0
    let opCode := readUInt16 payload 5
    match motionRecord opCode with
    | none => none
    | some record =>
      let captureData := if 8 < payload.length then (payload.drop 7).dropLast else []
      let value := decodeValue captureData opCode !isReport
      if value = .nan then none
      else some ⟨axisId, hexX4 opCode, record.opCodeDescription, value, !isReport⟩

def parse (rawPacket : Bytes) : Option MotionPacketEntity :=
  (segment rawPacket).bind fun s => entity (s.payload.bytes rawPacket) s.srcPort

end Kanat.MotionPackets
