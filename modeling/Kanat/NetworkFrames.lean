import Kanat.MotionPacketParser

/-! # Frames on the wire, and where the parsers find their headers

A frame is its three headers and a payload, each header a structure that only well-formed ones inhabit. The parsers
look for the IPv4 signature byte by byte; the lemmas say where they find it. -/
namespace Kanat.MotionPackets
open BigEndian (read)

/-- A link-layer header that holds no IPv4 signature. -/
structure Link where
  bytes : Bytes
  short : bytes.length < 32
  unsigned : 0x45 ∉ bytes

/-- An IPv4 header of five words. -/
structure IpHeader where
  bytes : Bytes
  length : bytes.length = 20
  signed : bytes.head? = some 0x45

/-- A TCP header, its length the one it gives. -/
structure TcpHeader where
  bytes : Bytes
  length : bytes.length = byteAt bytes 12 / 16 * 4
  long : 20 ≤ bytes.length

def TcpHeader.srcPort (tcp : TcpHeader) : ℕ := readUInt16 tcp.bytes 0
def TcpHeader.dstPort (tcp : TcpHeader) : ℕ := readUInt16 tcp.bytes 2

/-- A TCP segment after a link header of any bytes. -/
def tcpFrame (link : Bytes) (ip : IpHeader) (tcp : TcpHeader) (payload : Bytes) : Bytes :=
  link ++ (ip.bytes ++ (tcp.bytes ++ payload))

section
variable {a b : Bytes} {i : ℕ}

theorem byteAt_append_left (h : i < a.length) : byteAt (a ++ b) i = byteAt a i := by
  simp only [byteAt, List.getD_eq_getElem?_getD, List.getElem?_append_left h]

theorem byteAt_append_right : byteAt (a ++ b) (a.length + i) = byteAt b i := by
  simp only [byteAt, List.getD_eq_getElem?_getD, List.getElem?_append_right (Nat.le_add_right _ _),
    Nat.add_sub_cancel_left]

theorem readUInt16_append_left (h : i + 2 ≤ a.length) : readUInt16 (a ++ b) i = readUInt16 a i := by
  rw [readUInt16, readUInt16, List.drop_append_of_le_length (by omega),
    List.take_append_of_le_length (by rw [List.length_drop]; omega)]

theorem readUInt16_append_right : readUInt16 (a ++ b) (a.length + i) = readUInt16 b i := by
  rw [readUInt16, readUInt16, List.drop_append, List.drop_eq_nil_of_le (Nat.le_add_right _ _), List.nil_append,
    Nat.add_sub_cancel_left]

private theorem mem_iff_byteAt (x : UInt8) : x ∈ a ↔ ∃ i < a.length, byteAt (a ++ b) i = x.toNat := by
  constructor
  · intro hx
    obtain ⟨i, hi, rfl⟩ := List.mem_iff_getElem.mp hx
    refine ⟨i, hi, ?_⟩
    rw [byteAt_append_left hi]
    simp [byteAt, hi]
  · rintro ⟨i, hi, hb⟩
    rw [byteAt_append_left hi] at hb
    have hx : a[i] = x := UInt8.toNat_inj.mp (by simpa [byteAt, hi] using hb)
    exact hx ▸ List.getElem_mem hi

end

theorem ipSignature_eq_some {raw : Bytes} {enough : ℕ → Bool} {n : ℕ} : ipSignature raw enough = some n ↔
    byteAt raw n = 0x45 ∧ enough n ∧ n < 32 ∧ n < raw.length - 20 ∧ ∀ j < n, byteAt raw j = 0x45 → enough j = false := by
  simp only [ipSignature, List.find?_range_eq_some, List.mem_range, Bool.and_eq_true, beq_iff_eq, lt_min_iff,
    Bool.not_eq_true', Bool.and_eq_false_imp]
  constructor
  · rintro ⟨⟨hb, he⟩, ⟨h32, hl⟩, hfirst⟩
    exact ⟨hb, he, h32, hl, hfirst⟩
  · rintro ⟨hb, he, h32, hl, hfirst⟩
    exact ⟨⟨hb, he⟩, ⟨h32, hl⟩, hfirst⟩

theorem ip_byte (link rest : Bytes) (ip : IpHeader) : byteAt (link ++ (ip.bytes ++ rest)) link.length = 0x45 := by
  have h := byteAt_append_right (a := link) (b := ip.bytes ++ rest) (i := 0)
  rw [Nat.add_zero] at h
  obtain ⟨t, ht⟩ := List.head?_eq_some_iff.mp ip.signed
  rw [h, ht]
  rfl

/-- The header is found where it is exactly when no byte before it looks like one. -/
theorem ipSignature_frame {link rest : Bytes} (ip : IpHeader) {enough : ℕ → Bool} (hshort : link.length < 32)
    (hrest : 0 < rest.length) (henough : ∀ i ≤ link.length, enough i) :
    ipSignature (link ++ (ip.bytes ++ rest)) enough = some link.length ↔ 0x45 ∉ link := by
  have hlen : link.length < (link ++ (ip.bytes ++ rest)).length - 20 := by
    rw [List.length_append, List.length_append, ip.length]
    omega
  rw [ipSignature_eq_some, mem_iff_byteAt (b := ip.bytes ++ rest)]
  constructor
  · rintro ⟨-, -, -, -, hfirst⟩ ⟨i, hi, hb⟩
    exact absurd (henough i hi.le) (by simp [hfirst i hi hb])
  · intro hnot
    refine ⟨ip_byte link rest ip, henough _ (le_refl _), hshort, hlen, fun j hj hb => ?_⟩
    exact absurd ⟨j, hj, hb⟩ hnot

theorem segment_of_start {raw : Bytes} {n : ℕ} (h : ipStart raw = some n) (hlen : n + 40 ≤ raw.length) :
    segment raw = extractTcpPayload raw n := by
  unfold segment
  rw [h]
  exact if_pos hlen

section
variable (link : Bytes) (ip : IpHeader) (tcp : TcpHeader) (payload : Bytes)

theorem length_tcpFrame : (tcpFrame link ip tcp payload).length =
    link.length + 20 + tcp.bytes.length + payload.length := by
  simp only [tcpFrame, List.length_append, ip.length]
  omega

/-- The frame from its TCP header on. -/
theorem tcpFrame_eq : tcpFrame link ip tcp payload = (link ++ ip.bytes) ++ (tcp.bytes ++ payload) := by
  rw [tcpFrame, List.append_assoc]

theorem length_link_ip : (link ++ ip.bytes).length = link.length + 20 := by rw [List.length_append, ip.length]

private theorem byteAt_tcp {i : ℕ} (h : i < tcp.bytes.length) :
    byteAt (tcpFrame link ip tcp payload) (link.length + 20 + i) = byteAt tcp.bytes i := by
  rw [tcpFrame_eq, ← length_link_ip link ip, byteAt_append_right, byteAt_append_left h]

theorem readUInt16_tcp {i : ℕ} (h : i + 2 ≤ tcp.bytes.length) :
    readUInt16 (tcpFrame link ip tcp payload) (link.length + 20 + i) = readUInt16 tcp.bytes i := by
  rw [tcpFrame_eq, ← length_link_ip link ip, readUInt16_append_right, readUInt16_append_left h]

/-- Where the frame's TCP header and payload are. -/
def tcpSegmentOf : Segment where
  headerStart := link.length + 20
  payload := ⟨link.length + 20 + tcp.bytes.length, payload.length⟩
  srcPort := tcp.srcPort
  dstPort := tcp.dstPort

theorem extractTcpPayload_frame : extractTcpPayload (tcpFrame link ip tcp payload) link.length =
    if payload = [] then none else some (tcpSegmentOf link tcp payload) := by
  have hlong := tcp.long
  have hlen := length_tcpFrame link ip tcp payload
  have hip : byteAt (tcpFrame link ip tcp payload) link.length % 16 * 4 = 20 := by
    rw [tcpFrame, ip_byte]
  have htcp : byteAt (tcpFrame link ip tcp payload) (link.length + 20 + 12) / 16 * 4 = tcp.bytes.length := by
    rw [byteAt_tcp _ _ _ _ (by omega), ← tcp.length]
  simp only [extractTcpPayload, hip, htcp, hlen]
  rw [if_neg (by omega)]
  by_cases hp : payload = []
  · subst hp
    rw [if_pos (by simp), if_pos rfl]
  · have hpos : 0 < payload.length := List.length_pos_iff.mpr hp
    have hsrc := readUInt16_tcp link ip tcp payload (i := 0) (by omega)
    have hdst := readUInt16_tcp link ip tcp payload (i := 2) (by omega)
    rw [if_neg (by omega), if_neg hp]
    simp only [tcpSegment, tcpSegmentOf, hlen, TcpHeader.srcPort, TcpHeader.dstPort, hdst,
      Nat.add_sub_cancel_left]
    rw [← hsrc, Nat.add_zero]

theorem payload_bytes : (tcpSegmentOf link tcp payload).payload.bytes (tcpFrame link ip tcp payload) = payload := by
  have hl : link.length + 20 + tcp.bytes.length = (link ++ ip.bytes ++ tcp.bytes).length := by
    simp only [List.length_append, ip.length]
  have hf : tcpFrame link ip tcp payload = (link ++ ip.bytes ++ tcp.bytes) ++ payload := by
    simp only [tcpFrame, List.append_assoc]
  simp only [tcpSegmentOf, Span.bytes, hl, hf]
  rw [List.drop_left, List.take_length]

end

def plainIp : IpHeader := ⟨0x45 :: List.replicate 19 0, rfl, rfl⟩

def plainTcp : TcpHeader := ⟨List.replicate 12 0 ++ 0x50 :: List.replicate 7 0, rfl, by decide⟩

end Kanat.MotionPackets
