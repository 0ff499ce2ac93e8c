import Kanat.NetworkFrames
import Kanat.MotionCodec
import Kanat.SafetyPacketParser

/-! # The headers the parsers read are the frame's

An Ethernet II frame's first twelve bytes are any, its MAC addresses. -/
namespace Kanat.MotionPackets

/-- Six bytes to, six from. -/
structure MacAddresses where
  bytes : Bytes
  length : bytes.length = 12

/-- The header of an Ethernet II frame that carries IPv4. -/
def MacAddresses.link (macs : MacAddresses) : Bytes := macs.bytes ++ [0x08, 0x00]

theorem MacAddresses.length_link (macs : MacAddresses) : macs.link.length = 14 := by
  rw [link, List.length_append, macs.length]
  rfl

theorem MacAddresses.mem_link (macs : MacAddresses) : 0x45 ∈ macs.link ↔ 0x45 ∈ macs.bytes := by
  rw [link, List.mem_append]
  exact or_iff_left (by decide)

structure MotionFrame where
  macs : MacAddresses
  ip : IpHeader
  tcp : TcpHeader
  payload : Bytes
  payload_ne : payload ≠ []

namespace MotionFrame
variable (f : MotionFrame)

def bytes : Bytes := tcpFrame f.macs.link f.ip f.tcp f.payload

/-- The parser reads the frame's TCP header and payload where they are, and makes of them what they say. -/
def Located : Prop :=
  segment f.bytes = some (tcpSegmentOf f.macs.link f.tcp f.payload) ∧ parse f.bytes = entity f.payload f.tcp.srcPort

end MotionFrame

/-- A segment's header follows the signature found, or starts a packet of none. -/
theorem segment_headerStart {raw : Bytes} {s : Segment} (h : segment raw = some s) :
    s.headerStart = 0 ∨ ∃ n, ipStart raw = some n ∧ s.headerStart = n + 20 := by
  have hbare : (bareSegment raw).headerStart = 0 := by
    simp only [bareSegment]
    split_ifs <;> rfl
  unfold segment at h
  cases hs : ipStart raw with
  | none =>
    rw [hs] at h
    exact Or.inl (Option.some.inj h ▸ hbare)
  | some n =>
    have hbyte : byteAt raw n = 0x45 := (ipSignature_eq_some.mp hs).1
    rw [hs] at h
    dsimp only at h
    split_ifs at h with hlen
    · refine Or.inr ⟨n, rfl, ?_⟩
      simp only [extractTcpPayload, hbyte] at h
      split_ifs at h
      rw [← Option.some.inj h]
      rfl
    · exact Or.inl (Option.some.inj h ▸ hbare)

private theorem motion_located (f : MotionFrame) : f.Located ↔ 0x45 ∉ f.macs.bytes := by
  rw [← f.macs.mem_link]
  constructor
  · rintro ⟨hseg, -⟩
    have hlink := f.macs.length_link
    rcases segment_headerStart hseg with h0 | ⟨n, hn, hstart⟩
    · simp only [tcpSegmentOf] at h0
      omega
    · simp only [tcpSegmentOf, Nat.add_right_cancel_iff] at hstart
      rw [← hstart] at hn
      refine (ipSignature_frame f.ip (by omega) ?_ fun i hi => ?_).mp hn
      · have := f.tcp.long
        rw [List.length_append]
        omega
      · have := length_tcpFrame f.macs.link f.ip f.tcp f.payload
        have := f.tcp.long
        exact decide_eq_true (by rw [MotionFrame.bytes]; omega)
  · intro hnot
    let link : Link := ⟨f.macs.link, by rw [f.macs.length_link]; decide, hnot⟩
    refine ⟨?_, ?_⟩
    · exact (segment_frame link f.ip f.tcp f.payload).trans (if_neg f.payload_ne)
    · exact (parse_frame link f.ip f.tcp f.payload).trans (if_neg f.payload_ne)

end Kanat.MotionPackets

namespace Kanat.SafetyPackets
open MotionPackets (Bytes Span IpHeader MacAddresses byteAt readUInt16 byteAt_append_left byteAt_append_right
  readUInt16_append_left readUInt16_append_right ipSignature_frame ipSignature_eq_some ip_byte length_link_ip)

/-- A UDP datagram in an Ethernet II frame, padded to its shortest. -/
structure SafetyFrame where
  macs : MacAddresses
  ip : IpHeader
  udp : Bytes
  payload : Bytes
  padding : Bytes
  protocol : byteAt ip.bytes 9 = 17
  udp_length : udp.length = 8
  length_given : readUInt16 udp 4 = 8 + payload.length
  payload_ne : payload ≠ []

section
variable {a b : Bytes} {i : ℕ}

private theorem address_append_left (h : i + 4 ≤ a.length) : address (a ++ b) i = address a i := by
  rw [address, address, byteAt_append_left (by omega), byteAt_append_left (by omega), byteAt_append_left (by omega),
    byteAt_append_left (by omega)]

private theorem address_append_right : address (a ++ b) (a.length + i) = address b i := by
  simp only [address, Nat.add_assoc, byteAt_append_right]

end

namespace SafetyFrame
variable (f : SafetyFrame)

def bytes : Bytes := f.macs.link ++ (f.ip.bytes ++ (f.udp ++ (f.payload ++ f.padding)))

/-- Where the frame's headers and payload are. -/
def datagramOf : Datagram where
  ipStart := f.macs.link.length
  payload := ⟨f.macs.link.length + 28, f.payload.length⟩
  srcIp := address f.ip.bytes 12
  dstIp := address f.ip.bytes 16

/-- The parser reads the frame's IP header and payload where they are, and makes of them what they say. -/
def Located : Prop :=
  datagram f.bytes = some f.datagramOf ∧ parse f.bytes = entity f.payload (address f.ip.bytes 16)

theorem length_bytes : f.bytes.length = f.macs.link.length + 28 + f.payload.length + f.padding.length := by
  simp only [bytes, List.length_append, f.ip.length, f.udp_length]
  omega

private theorem byteAt_ip {i : ℕ} (h : i < 20) : byteAt f.bytes (f.macs.link.length + i) = byteAt f.ip.bytes i := by
  rw [bytes, byteAt_append_right, byteAt_append_left (by rw [f.ip.length]; exact h)]

theorem address_ip {i : ℕ} (h : i + 4 ≤ 20) : address f.bytes (f.macs.link.length + i) = address f.ip.bytes i := by
  rw [bytes, address_append_right, address_append_left (by rw [f.ip.length]; exact h)]

private theorem udpLen_eq : readUInt16 f.bytes (f.macs.link.length + 20 + 4) = 8 + f.payload.length := by
  have hf : f.bytes = (f.macs.link ++ f.ip.bytes) ++ (f.udp ++ (f.payload ++ f.padding)) := by
    rw [bytes, List.append_assoc]
  rw [hf, ← length_link_ip f.macs.link f.ip, readUInt16_append_right,
    readUInt16_append_left (by rw [f.udp_length]; decide), f.length_given]

private theorem extractUdpPayload_frame : extractUdpPayload f.bytes f.macs.link.length = some f.datagramOf := by
  have hlen := f.length_bytes
  have hpos : 0 < f.payload.length := List.length_pos_iff.mpr f.payload_ne
  have hsig : byteAt f.bytes f.macs.link.length = 0x45 := ip_byte _ _ f.ip
  have hproto : byteAt f.bytes (f.macs.link.length + 9) = 17 := (f.byteAt_ip (by decide)).trans f.protocol
  have hsrc := f.address_ip (i := 12) (by decide)
  have hdst := f.address_ip (i := 16) (by decide)
  have hudp := f.udpLen_eq
  unfold extractUdpPayload
  simp only [hsig, hproto, Nat.reduceMod, Nat.reduceMul, Nat.reduceDiv]
  rw [hudp, if_neg (by omega), if_neg (by decide), if_neg (by omega), if_neg (by decide), if_neg (by omega),
    if_neg (by omega), hsrc, hdst]
  have hmin : min (8 + f.payload.length - 8) (f.bytes.length - (f.macs.link.length + 20 + 8)) = f.payload.length := by
    omega
  rw [hmin, if_neg (by omega)]
  rfl

theorem payload_bytes : f.datagramOf.payload.bytes f.bytes = f.payload := by
  have hl : f.macs.link.length + 28 = (f.macs.link ++ f.ip.bytes ++ f.udp).length := by
    simp only [List.length_append, f.ip.length, f.udp_length]
  have hf : f.bytes = (f.macs.link ++ f.ip.bytes ++ f.udp) ++ (f.payload ++ f.padding) := by
    simp only [bytes, List.append_assoc]
  simp only [datagramOf, Span.bytes, hl, hf]
  rw [List.drop_left, List.take_left]

end SafetyFrame

private theorem datagram_of_start {raw : Bytes} {n : ℕ} (h : ipStart raw = some n) (hlen : n + 28 ≤ raw.length) :
    datagram raw = extractUdpPayload raw n := by
  unfold datagram
  rw [h]
  exact if_pos hlen

/-- A datagram's header is the signature found, or the start of a packet of none. -/
theorem datagram_ipStart {raw : Bytes} {d : Datagram} (h : datagram raw = some d) :
    d.ipStart = 0 ∨ ipStart raw = some d.ipStart := by
  unfold datagram at h
  cases hs : ipStart raw with
  | none =>
    rw [hs] at h
    exact Or.inl (Option.some.inj h ▸ rfl)
  | some n =>
    rw [hs] at h
    dsimp only at h
    split_ifs at h with hlen
    · refine Or.inr ?_
      simp only [extractUdpPayload] at h
      split_ifs at h
      rw [← Option.some.inj h]
    · exact Or.inl (Option.some.inj h ▸ rfl)

private theorem safety_located (f : SafetyFrame) : f.Located ↔ 0x45 ∉ f.macs.bytes := by
  rw [← f.macs.mem_link]
  have hlink := f.macs.length_link
  have hlen := f.length_bytes
  have hfound : ipStart f.bytes = some f.macs.link.length ↔ 0x45 ∉ f.macs.link := by
    refine ipSignature_frame f.ip (by omega) ?_ fun i hi => ?_
    · rw [List.length_append, f.udp_length]
      omega
    · exact decide_eq_true (show i + 20 ≤ f.bytes.length by omega)
  constructor
  · rintro ⟨hdata, -⟩
    rcases datagram_ipStart hdata with h0 | hn
    · simp only [SafetyFrame.datagramOf] at h0
      omega
    · exact hfound.mp hn
  · intro hnot
    have hdata : datagram f.bytes = some f.datagramOf :=
      (datagram_of_start (hfound.mpr hnot) (by omega)).trans f.extractUdpPayload_frame
    refine ⟨hdata, ?_⟩
    rw [parse, if_neg (by omega), hdata, Option.bind_some, f.payload_bytes, SafetyFrame.datagramOf]

end Kanat.SafetyPackets

namespace Kanat.HeaderLocation
open MotionPackets SafetyPackets

/-- Both parsers read the frame's own headers and payload exactly when no byte of its MAC addresses is 0x45. -/
theorem located_iff (motion : MotionFrame) (safety : SafetyFrame) :
    (motion.Located ↔ 0x45 ∉ motion.macs.bytes) ∧ (safety.Located ↔ 0x45 ∉ safety.macs.bytes) :=
  ⟨motion_located motion, safety_located safety⟩

/-- To a card whose address starts with 0x45. -/
def signedMacs : MacAddresses := ⟨0x45 :: List.replicate 11 0, rfl⟩

def updateFrame : MotionFrame :=
  ⟨signedMacs, plainIp, plainTcp, [0x50, 0x54, 0x04, 0x00, 0x01, 0x01, 0x34, 0x3A], by decide⟩

def fireFrame : SafetyFrame where
  macs := signedMacs
  ip := ⟨0x45 :: List.replicate 8 0 ++ 17 :: List.replicate 6 0 ++ [132, 8, 7, 101], rfl, rfl⟩
  udp := [0, 0, 0, 0, 0, 12, 0, 0]
  payload := [0x00, 0x27, 0xFF, 0x00]
  padding := []
  protocol := rfl
  udp_length := rfl
  length_given := rfl
  payload_ne := by decide

/-- Neither packet of a frame to that card is parsed, though each is one. -/
theorem not_located : MotionPackets.parse updateFrame.bytes ≠ MotionPackets.entity updateFrame.payload updateFrame.tcp.srcPort ∧
    SafetyPackets.parse fireFrame.bytes ≠ SafetyPackets.entity fireFrame.payload (address fireFrame.ip.bytes 16) := by
  decide

end Kanat.HeaderLocation
