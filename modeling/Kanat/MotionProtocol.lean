import Mathlib.Algebra.GroupWithZero.Nat
import Mathlib.Data.List.Basic

/-! # The simulator's packets

`protocol.py`: a packet built, and one parsed from the front of a buffer. -/
namespace Kanat.MotionProtocol

abbrev Bytes := List UInt8

def START_BYTE_1 : UInt8 := 0x50
def START_BYTE_2 : UInt8 := 0x54

/-- The sum modulo 256. -/
def calculateChecksum (packetBody : Bytes) : UInt8 := (packetBody.map UInt8.toNat).sum.toUInt8

/-- `none` is `bytearray`'s error, the length not fitting its byte. -/
def buildPacket (groupId axisId : UInt8) (opcode : ℕ) (data : Bytes) : Option Bytes :=
  let opHigh := (opcode / 256).toUInt8
  let opLow := opcode.toUInt8
  let length := 1 + 1 + 2 + data.length
  if length < 256 then
    let body := [length.toUInt8, groupId, axisId, opHigh, opLow] ++ data
    some ([START_BYTE_1, START_BYTE_2] ++ body ++ [calculateChecksum body])
  else none

/-- The buffer from its first start bytes on. -/
def fromStart : Bytes → Option Bytes
  | a :: b :: rest =>
    if a = START_BYTE_1 ∧ b = START_BYTE_2 then some (a :: b :: rest) else fromStart (b :: rest)
  | _ => none

/-- The packet at the front of the buffer and what is left of it, `none` for an incomplete one, one with a bad
checksum and no start bytes alike. -/
def parsePacket (buffer : Bytes) : Option Bytes × Bytes :=
  match fromStart buffer with
  | none => (none, [])
  | some buffer =>
    if buffer.length < 8 then (none, buffer)
    else
      let lengthFromHeader := (buffer.getD 2 0).toNat
      let totalPacketLen := 4 + lengthFromHeader
      if buffer.length < totalPacketLen then (none, buffer)
      else
        let packet := buffer.take totalPacketLen
        let remainingBuffer := buffer.drop totalPacketLen
        let body := (packet.drop 2).dropLast
        let expectedCs := calculateChecksum body
        let receivedCs := packet.getLastD 0
        if expectedCs ≠ receivedCs then (none, remainingBuffer) else (some packet, remainingBuffer)

end Kanat.MotionProtocol
