import Kanat.ClientFraming

/-! # What the simulator's parser returns

Every packet it returns is whole, but for one whose length byte is below the four bytes a body has at least. -/
namespace Kanat.MotionProtocol
open PacketStream

/-- What `handle_client` reads of a packet before its `try`: axis, opcode and data. -/
def header (packet : Bytes) : Option (UInt8 × ℕ × Bytes) := do
  let axisId ← packet[4]?
  let opHigh ← packet[5]?
  let opLow ← packet[6]?
  return (axisId, opHigh.toNat * 256 + opLow.toNat, (packet.drop 7).dropLast)

structure Whole (packet : Bytes) : Prop where
  starts : packet.take 2 = [START_BYTE_1, START_BYTE_2]
  long : 8 ≤ packet.length
  length : (packet.getD 2 0).toNat + 4 = packet.length
  checked : calculateChecksum (packet.drop 2).dropLast = packet.getLastD 0

/-- The packet returned for a buffer, if any, is whole and read in range, and it and what is left end the buffer. -/
def ReturnsWhole (buffer : Bytes) : Prop :=
  ∀ packet rest, parsePacket buffer = (some packet, rest) →
    Whole packet ∧ (header packet).isSome ∧ packet ++ rest <:+ buffer

/-- Past the first start bytes there is a length byte below 4, and the checksum of a packet of that length. -/
def StartsShort (buffer : Bytes) : Prop :=
  ∃ b, fromStart buffer = some b ∧ 8 ≤ b.length ∧ (b.getD 2 0).toNat < 4 ∧
    calculateChecksum ((b.drop 2).take ((b.getD 2 0).toNat + 1)) = b.getD ((b.getD 2 0).toNat + 3) 0

variable {buffer b packet rest : Bytes}

private theorem fromStart_starts (h : fromStart buffer = some b) :
    b <:+ buffer ∧ b.take 2 = [START_BYTE_1, START_BYTE_2] := by
  induction buffer with
  | nil => cases h
  | cons a buffer ih =>
    cases buffer with
    | nil => cases h
    | cons c rest =>
      rw [fromStart_cons_cons] at h
      split_ifs at h with hs
      · obtain rfl := Option.some.inj h
        exact ⟨List.suffix_refl _, by rw [hs.1, hs.2]; rfl⟩
      · obtain ⟨hsuffix, hstart⟩ := ih h
        exact ⟨hsuffix.trans (List.suffix_cons a _), hstart⟩

/-- A packet returned is cut off the front of what the buffer is from its first start bytes on. -/
theorem parsePacket_some : parsePacket buffer = (some packet, rest) ↔
    ∃ b, fromStart buffer = some b ∧ 8 ≤ b.length ∧ 4 + (b.getD 2 0).toNat ≤ b.length ∧
      calculateChecksum ((b.take (4 + (b.getD 2 0).toNat)).drop 2).dropLast =
        (b.take (4 + (b.getD 2 0).toNat)).getLastD 0 ∧
      packet = b.take (4 + (b.getD 2 0).toNat) ∧ rest = b.drop (4 + (b.getD 2 0).toNat) := by
  rw [parsePacket]
  cases hs : fromStart buffer with
  | none => simp
  | some b =>
    simp only [Option.some.injEq, exists_eq_left']
    split_ifs with h8 ht hc
    · exact iff_of_false (by simp) fun h => absurd h.1 (by omega)
    · exact iff_of_false (by simp) fun h => absurd h.2.1 (by omega)
    · exact iff_of_false (by simp) fun h => hc h.2.2.1
    · refine ⟨fun h => ?_, fun h => ?_⟩
      · obtain ⟨hp, rfl⟩ := Prod.mk.inj h
        exact ⟨by omega, by omega, not_not.mp hc, (Option.some.inj hp).symm, rfl⟩
      · rw [h.2.2.2.1, h.2.2.2.2]

private theorem getD_take {n i : ℕ} (h : i < n) : (b.take n).getD i 0 = b.getD i 0 := by
  rw [List.getD_eq_getElem?_getD, List.getD_eq_getElem?_getD, List.getElem?_take_of_lt h]

private theorem isSome_header (h : 7 ≤ packet.length) : (header packet).isSome := by
  have h4 : packet[4]? = some packet[4] := List.getElem?_eq_getElem (by omega)
  have h5 : packet[5]? = some packet[5] := List.getElem?_eq_getElem (by omega)
  have h6 : packet[6]? = some packet[6] := List.getElem?_eq_getElem (by omega)
  rw [header, h4, h5, h6]
  rfl

/-- The sum and the byte it is compared with, of a packet cut to its length. -/
theorem checksum_take {n : ℕ} (hn : n + 4 ≤ b.length) :
    ((b.take (4 + n)).drop 2).dropLast = (b.drop 2).take (n + 1) ∧ (b.take (4 + n)).getLastD 0 = b.getD (n + 3) 0 := by
  constructor
  · rw [List.drop_take, List.dropLast_eq_take, List.take_take, List.length_take, List.length_drop]
    congr 1
    omega
  · rw [List.getLastD_eq_getLast?, List.getLast?_eq_getElem?, List.length_take, List.getElem?_take_of_lt (by omega),
      List.getD_eq_getElem?_getD]
    congr 2
    omega

/-- The parser returns whole packets exactly where the buffer does not start short. -/
theorem returnsWhole_iff : ReturnsWhole buffer ↔ ¬StartsShort buffer := by
  constructor
  · rintro h ⟨b, hs, h8, hn, hc⟩
    obtain ⟨hsum, hlast⟩ := checksum_take (b := b) (n := (b.getD 2 0).toNat) (by omega)
    have hparse := parsePacket_some.mpr ⟨b, hs, h8, by omega, by rw [hsum, hlast]; exact hc, rfl, rfl⟩
    have hlong := (h _ _ hparse).1.long
    rw [List.length_take] at hlong
    omega
  · intro h packet rest hparse
    obtain ⟨b, hs, h8, ht, hc, rfl, rfl⟩ := parsePacket_some.mp hparse
    obtain ⟨hsuffix, hstart⟩ := fromStart_starts hs
    have hlong : 4 ≤ (b.getD 2 0).toNat := by
      by_contra hn
      obtain ⟨hsum, hlast⟩ := checksum_take (b := b) (n := (b.getD 2 0).toNat) (by omega)
      exact h ⟨b, hs, h8, by omega, by rw [← hsum, ← hlast]; exact hc⟩
    have hlength : (b.take (4 + (b.getD 2 0).toNat)).length = 4 + (b.getD 2 0).toNat := by
      rw [List.length_take]
      omega
    refine ⟨⟨?_, by omega, ?_, hc⟩, isSome_header (by omega), ?_⟩
    · rwa [List.take_take, Nat.min_eq_left (by omega)]
    · rw [getD_take (by omega), hlength]
      omega
    · rwa [List.take_append_drop]

/-- A packet that is built is parsed again in front of anything. -/
theorem parsePacket_buildPacket (groupId axisId : UInt8) (opcode : ℕ) {data : Bytes} (h : data.length ≤ 251)
    (suffix : Bytes) : ∃ packet, buildPacket groupId axisId opcode data = some packet ∧
      parsePacket (packet ++ suffix) = (some packet, suffix) := by
  let length := (1 + 1 + 2 + data.length).toUInt8
  let body := [length, groupId, axisId, (opcode / 256).toUInt8, opcode.toUInt8] ++ data
  let packet := [START_BYTE_1, START_BYTE_2] ++ body ++ [calculateChecksum body]
  have hlength : length.toNat = 4 + data.length := by
    change (1 + 1 + 2 + data.length) % 256 = 4 + data.length
    omega
  have hpacket : packet.length = 4 + length.toNat := by
    rw [hlength]
    simp only [packet, body, List.length_append, List.length_cons, List.length_nil]
    omega
  have hget : (packet ++ suffix).getD 2 0 = length := rfl
  have htake : (packet ++ suffix).take (4 + length.toNat) = packet := hpacket ▸ List.take_left
  have hdrop : (packet ++ suffix).drop (4 + length.toNat) = suffix := hpacket ▸ List.drop_left
  have hbody : (packet.drop 2).dropLast = body := List.dropLast_concat
  have hlast : packet.getLastD 0 = calculateChecksum body := List.getLastD_concat
  refine ⟨packet, if_pos (by omega), parsePacket_some.mpr ⟨packet ++ suffix, rfl, ?_, ?_, ?_, ?_, ?_⟩⟩
  · rw [List.length_append, hpacket, hlength]
    omega
  · rw [hget, List.length_append, hpacket]
    omega
  · rw [hget, htake, hbody, hlast]
  · rw [hget, htake]
  · rw [hget, hdrop]

/-- What the parser returns is whole exactly where the buffer does not start short, and what is built is parsed again. -/
theorem parses_whole (buffer : Bytes) : (ReturnsWhole buffer ↔ ¬StartsShort buffer) ∧
    ∀ (groupId axisId : UInt8) (opcode : ℕ) (data suffix : Bytes), data.length ≤ 251 →
      ∃ packet, buildPacket groupId axisId opcode data = some packet ∧
        parsePacket (packet ++ suffix) = (some packet, suffix) :=
  ⟨returnsWhole_iff, fun groupId axisId opcode _ suffix h => parsePacket_buildPacket groupId axisId opcode h suffix⟩

theorem parses_whole_lrfRange : ∃ packet, buildPacket 0 0 0x0301 [0x42, 0x48, 0, 0] = some packet ∧
    parsePacket (packet ++ [0x50]) = (some packet, [0x50]) :=
  (parses_whole []).2 0 0 0x0301 [0x42, 0x48, 0, 0] [0x50] (by decide)

/-- A packet of four bytes, and four more. -/
def emptyBody : Bytes := [0x50, 0x54, 0x00, 0x00, 0x00, 0x00, 0x00, 0x00]

/-- It is returned with no axis in it. -/
theorem parsePacket_emptyBody : parsePacket emptyBody = (some [0x50, 0x54, 0x00, 0x00], [0x00, 0x00, 0x00, 0x00]) ∧
    header [0x50, 0x54, 0x00, 0x00] = none ∧ ¬ReturnsWhole emptyBody := by
  have hparse : parsePacket emptyBody = (some [0x50, 0x54, 0x00, 0x00], [0x00, 0x00, 0x00, 0x00]) := by decide
  exact ⟨hparse, rfl, fun h => absurd (h _ _ hparse).1.long (by decide)⟩

end Kanat.MotionProtocol
