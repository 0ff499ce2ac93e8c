import Kanat.NetworkFrames
import Kanat.MotionProtocol

/-! # The simulator's packets as the motion parser reads them

A packet of `build_packet` is put in a frame and parsed by the other program: the header is found, the payload cut
out, and its value read by the command table. Each of these is a lemma of its own, up to the whole frame. -/
namespace Kanat.MotionPackets
open BigEndian (read write read_write length_write)
open MotionProtocol (buildPacket parsePacket calculateChecksum)

/-- The bytes a value of the type takes. -/
def ValueTypes.width : ValueTypes → ℕ
  | .none => 0
  | .uInt8 => 1
  | .uInt16BE => 2
  | .uInt32BE => 4
  | .float32BE => 4

/-- A value of a type by its wire number; a float is one by its bits, and no NaN. -/
structure Value (type : ValueTypes) where
  raw : ℕ
  fits : raw < 256 ^ type.width
  number : type = .float32BE → Double.ofSingle raw ≠ .nan

namespace Value
variable {type : ValueTypes}

def bytes (v : Value type) : Bytes := write type.width v.raw

/-- No value is the 1 of a packet that appeared. -/
def double (v : Value type) : Double :=
  match type with
  | .none => .ofNat 1
  | .float32BE => .ofSingle v.raw
  | _ => .ofNat v.raw

private theorem double_ne_nan (v : Value type) : v.double ≠ .nan := by
  cases type with
  | float32BE => exact v.number rfl
  | none => nofun
  | uInt8 => nofun
  | uInt16BE => nofun
  | uInt32BE => nofun

theorem length_bytes (v : Value type) : v.bytes.length = type.width := length_write _ _

private theorem width_le (type : ValueTypes) : type.width ≤ 4 := by cases type <;> decide

end Value

/-- The type of what a record's command or report carries. -/
def MotionRecord.carried (record : MotionRecord) (isCmd : Bool) : ValueTypes :=
  if isCmd then record.send else record.returned

theorem decodeValue_eq {opCode : ℕ} {record : MotionRecord} (hr : motionRecord opCode = some record) (data : Bytes)
    (isCmd : Bool) : decodeValue data opCode isCmd = match record.carried isCmd with
      | .uInt8 => if 1 ≤ data.length then .ofNat (read (data.take 1)) else .nan
      | .uInt16BE => if 2 ≤ data.length then .ofNat (read (data.take 2)) else .nan
      | .uInt32BE => if 4 ≤ data.length then .ofNat (read (data.take 4)) else .nan
      | .float32BE => if 4 ≤ data.length then .ofSingle (read (data.take 4)) else .nan
      | .none => .ofNat 1 := by
  rw [decodeValue, hr]
  rfl

/-- A value's bytes are decoded to it. -/
theorem decodeValue_bytes {opCode : ℕ} {record : MotionRecord} (hr : motionRecord opCode = some record)
    {isCmd : Bool} (v : Value (record.carried isCmd)) : decodeValue v.bytes opCode isCmd = v.double := by
  rw [decodeValue_eq hr]
  generalize record.carried isCmd = type at v
  have hlen := v.length_bytes
  have hread : read (v.bytes.take type.width) = v.raw := by
    rw [← hlen, List.take_length, Value.bytes, read_write _ _ v.fits]
  cases type with
  | none => rfl
  | uInt8 => exact (if_pos hlen.ge).trans (congrArg Double.ofNat hread)
  | uInt16BE => exact (if_pos hlen.ge).trans (congrArg Double.ofNat hread)
  | uInt32BE => exact (if_pos hlen.ge).trans (congrArg Double.ofNat hread)
  | float32BE => exact (if_pos hlen.ge).trans (congrArg Double.ofSingle hread)

theorem readUInt16_pair (hi lo : UInt8) (rest : Bytes) : read ((hi :: lo :: rest).take 2) = 256 * hi.toNat + lo.toNat := by
  simp [BigEndian.read]

/-- The packet's bytes, for data that fits its length. -/
theorem buildPacket_eq (groupId axisId : UInt8) (opcode : ℕ) {data : Bytes} (h : data.length < 252) :
    ∃ length cs, buildPacket groupId axisId opcode data = some ([0x50, 0x54, length, groupId, axisId,
      (opcode / 256).toUInt8, opcode.toUInt8] ++ data ++ [cs]) := by
  let body := [(1 + 1 + 2 + data.length).toUInt8, groupId, axisId, (opcode / 256).toUInt8, opcode.toUInt8] ++ data
  exact ⟨(1 + 1 + 2 + data.length).toUInt8, calculateChecksum body, if_pos (by omega)⟩

private theorem entity_packet {opCode : ℕ} {record : MotionRecord} (hr : motionRecord opCode = some record)
    (length groupId axisId cs : UInt8) {srcPort : ℕ} (v : Value (record.carried (srcPort != MOTION_REPORT_PORT))) :
    entity ([0x50, 0x54, length, groupId, axisId, (opCode / 256).toUInt8, opCode.toUInt8] ++ v.bytes ++ [cs]) srcPort =
      some ⟨axisId, hexX4 opCode, record.opCodeDescription, v.double, srcPort != MOTION_REPORT_PORT⟩ := by
  have hlt := opCode_lt hr
  have hcode : readUInt16 ([0x50, 0x54, length, groupId, axisId, (opCode / 256).toUInt8, opCode.toUInt8] ++
      v.bytes ++ [cs]) 5 = opCode := by
    rw [List.append_assoc]
    refine (readUInt16_pair _ _ (v.bytes ++ [cs])).trans ?_
    have hhi : (opCode / 256).toUInt8.toNat = opCode / 256 % 256 := UInt8.toNat_ofNat'
    have hlo : opCode.toUInt8.toNat = opCode % 256 := UInt8.toNat_ofNat'
    rw [hhi, hlo]
    omega
  have hlen : ([0x50, 0x54, length, groupId, axisId, (opCode / 256).toUInt8, opCode.toUInt8] ++
      v.bytes ++ [cs]).length = 8 + v.bytes.length := by
    simp only [List.length_append, List.length_cons, List.length_nil]
    omega
  have hdata : (if 8 < 8 + v.bytes.length then (List.drop 7 ([0x50, 0x54, length, groupId, axisId,
      (opCode / 256).toUInt8, opCode.toUInt8] ++ v.bytes ++ [cs])).dropLast else []) = v.bytes := by
    cases hv : v.bytes with
    | nil => rfl
    | cons x xs =>
      rw [if_pos (by rw [List.length_cons]; omega)]
      exact List.dropLast_concat
  simp only [entity, hlen, hcode, hr, hdata]
  rw [if_neg (by omega)]
  have hvalue : decodeValue v.bytes opCode (!srcPort == MOTION_REPORT_PORT) = v.double := decodeValue_bytes hr v
  rw [hvalue, if_neg v.double_ne_nan]
  rfl

/-- A frame whose link header holds no signature has its segment where it is. -/
theorem segment_frame (link : Link) (ip : IpHeader) (tcp : TcpHeader) (payload : Bytes) :
    segment (tcpFrame link.bytes ip tcp payload) =
      if payload = [] then none else some (tcpSegmentOf link.bytes tcp payload) := by
  have hlen := length_tcpFrame link.bytes ip tcp payload
  have hlong := tcp.long
  have hstart : ipStart (tcpFrame link.bytes ip tcp payload) = some link.bytes.length := by
    refine (ipSignature_frame ip link.short ?_ fun i hi => ?_).mpr link.unsigned
    · rw [List.length_append]
      omega
    · exact decide_eq_true (by omega)
  rw [segment_of_start hstart (by omega), extractTcpPayload_frame]

theorem parse_frame (link : Link) (ip : IpHeader) (tcp : TcpHeader) (payload : Bytes) :
    parse (tcpFrame link.bytes ip tcp payload) = if payload = [] then none else entity payload tcp.srcPort := by
  rw [parse, segment_frame]
  by_cases hp : payload = []
  · rw [if_pos hp, if_pos hp, Option.bind_none]
  · rw [if_neg hp, if_neg hp, Option.bind_some, payload_bytes, tcpSegmentOf]

/-- What the parser asks of a payload: an opcode it knows, and a value of its type before the last byte. -/
def Decodable (payload : Bytes) (isCmd : Bool) : Prop :=
  7 ≤ payload.length ∧ ∃ record, motionRecord (readUInt16 payload 5) = some record ∧
    let data := if 8 < payload.length then (payload.drop 7).dropLast else []
    (record.carried isCmd).width ≤ data.length ∧
      (record.carried isCmd = .float32BE → Double.ofSingle (read (data.take 4)) ≠ .nan)

private theorem decodeValue_ne_nan {opCode : ℕ} {record : MotionRecord} (hr : motionRecord opCode = some record)
    (data : Bytes) (isCmd : Bool) : decodeValue data opCode isCmd ≠ .nan ↔
      (record.carried isCmd).width ≤ data.length ∧
        (record.carried isCmd = .float32BE → Double.ofSingle (read (data.take 4)) ≠ .nan) := by
  rw [decodeValue_eq hr]
  cases record.carried isCmd with
  | none => simp [ValueTypes.width, Double.ofNat]
  | uInt8 => by_cases h : 1 ≤ data.length <;> simp [ValueTypes.width, Double.ofNat, h]
  | uInt16BE => by_cases h : 2 ≤ data.length <;> simp [ValueTypes.width, Double.ofNat, h]
  | uInt32BE => by_cases h : 4 ≤ data.length <;> simp [ValueTypes.width, Double.ofNat, h]
  | float32BE => by_cases h : 4 ≤ data.length <;> simp [ValueTypes.width, h]

private theorem entity_isSome (payload : Bytes) (srcPort : ℕ) :
    (entity payload srcPort).isSome ↔ Decodable payload (srcPort != MOTION_REPORT_PORT) := by
  simp only [entity, Decodable]
  by_cases hlen : payload.length < 7
  · rw [if_pos hlen]
    simp [Nat.not_le.mpr hlen]
  · rw [if_neg hlen]
    cases hr : motionRecord (readUInt16 payload 5) with
    | none => simp
    | some record =>
      have hvalue := decodeValue_ne_nan hr (if 8 < payload.length then (payload.drop 7).dropLast else [])
        (srcPort != MOTION_REPORT_PORT)
      simp only [Nat.le_of_not_lt hlen, true_and, Option.some.injEq, exists_eq_left']
      rw [← hvalue]
      by_cases hn : decodeValue (if 8 < payload.length then (payload.drop 7).dropLast else [])
          (readUInt16 payload 5) (srcPort != MOTION_REPORT_PORT) = .nan
      · have hnone : decodeValue _ _ (!srcPort == MOTION_REPORT_PORT) = .nan := hn
        simp only [hnone, if_true, hn, ne_eq, not_true, Option.isSome_none, Bool.false_eq_true]
      · have hsome : ¬ decodeValue _ _ (!srcPort == MOTION_REPORT_PORT) = .nan := hn
        simp only [hsome, if_false, hn, ne_eq, not_false_eq_true, Option.isSome_some]

/-- The parser reads back every value the simulator puts in a packet; what it accepts is any payload long enough,
with an opcode it knows and a value of its type. -/
theorem codec_agreement :
    (∀ (opCode : ℕ) (record : MotionRecord), motionRecord opCode = some record →
      ∀ (groupId axisId : UInt8) (link : Link) (ip : IpHeader) (tcp : TcpHeader),
      let isCmd := tcp.srcPort != MOTION_REPORT_PORT
      ∀ v : Value (record.carried isCmd), ∃ packet, buildPacket groupId axisId opCode v.bytes = some packet ∧
        parse (tcpFrame link.bytes ip tcp packet) =
          some ⟨axisId, hexX4 opCode, record.opCodeDescription, v.double, isCmd⟩) ∧
    ∀ (link : Link) (ip : IpHeader) (tcp : TcpHeader) (payload : Bytes),
      (parse (tcpFrame link.bytes ip tcp payload)).isSome ↔
        Decodable payload (tcp.srcPort != MOTION_REPORT_PORT) := by
  refine ⟨fun opCode record hr groupId axisId link ip tcp v => ?_, fun link ip tcp payload => ?_⟩
  · have hfits : v.bytes.length < 252 := by
      have := v.length_bytes
      have := Value.width_le (record.carried (tcp.srcPort != MOTION_REPORT_PORT))
      omega
    obtain ⟨length, cs, hbuild⟩ := buildPacket_eq groupId axisId opCode hfits
    refine ⟨_, hbuild, ?_⟩
    rw [parse_frame, if_neg (by simp)]
    exact entity_packet hr length groupId axisId cs v
  · rw [parse_frame, ← entity_isSome]
    split
    next hp =>
      subst hp
      simp [entity]
    next => rfl

/-- `MOT_Update` for axis 1 with no start bytes, and with a bad checksum: the parser takes both, the simulator none. -/
theorem codec_disagreement :
    ((parse (tcpFrame [] plainIp plainTcp [0x00, 0x00, 0x04, 0x00, 0x01, 0x01, 0x34, 0x3A])).isSome ∧
      (parsePacket [0x00, 0x00, 0x04, 0x00, 0x01, 0x01, 0x34, 0x3A]).1 = none) ∧
    (parse (tcpFrame [] plainIp plainTcp [0x50, 0x54, 0x04, 0x00, 0x01, 0x01, 0x34, 0x00])).isSome ∧
      (parsePacket [0x50, 0x54, 0x04, 0x00, 0x01, 0x01, 0x34, 0x00]).1 = none := by
  decide

end Kanat.MotionPackets
