import Kanat.MotionProtocol
import Kanat.PacketStream

/-! # The simulator's client loop over the chunks it receives

`handle_client` of `motion_simulator.py`, less what each packet does: the packets it takes off its buffer. -/
namespace Kanat.MotionProtocol
open PacketStream

structure Client where
  buffer : Bytes := []
  handed : List Bytes := []
  connected : Bool := true

namespace Client

/-- The inner loop; each turn but the last shortens the buffer. -/
def handlePackets : ℕ → Client → Client
  | 0, s => s
  | fuel + 1, s =>
    match parsePacket s.buffer with
    | (none, buffer) => { s with buffer }
    | (some packet, buffer) =>
      let s := { s with buffer, handed := s.handed ++ [packet] }
      -- its axis and opcode are read outside the handler's `try`
      if packet.length < 7 then { s with connected := false } else handlePackets fuel s

def receive (s : Client) (data : Bytes) : Client :=
  if s.connected then
    if data = [] then { s with connected := false }
    else
      let s := { s with buffer := s.buffer ++ data }
      handlePackets (s.buffer.length + 1) s
  else s

end Client

def handleClient (chunks : List Bytes) : Client := chunks.foldl Client.receive {}

def cutFrom (buffer : Bytes) : Cut UInt8 :=
  let totalPacketLen := 4 + (buffer.getD 2 0).toNat
  let packet := buffer.take totalPacketLen
  if buffer.length < 8 ∨ buffer.length < totalPacketLen then .wait
  else if calculateChecksum (packet.drop 2).dropLast = packet.getLastD 0 then .packet packet (buffer.drop totalPacketLen)
  else .corrupt (buffer.drop totalPacketLen)

def cut (buffer : Bytes) : Cut UInt8 := ((fromStart buffer).map cutFrom).getD .wait

/-- What the parser leaves of a buffer it waits on. -/
def kept (buffer : Bytes) : Bytes := (fromStart buffer).getD []

/-- The start byte a buffer may end in. -/
def lastStart (buffer : Bytes) : Bytes := if buffer.getLast? = some START_BYTE_1 then [START_BYTE_1] else []

def pending (buffer : Bytes) : Bytes := (fromStart buffer).getD (lastStart buffer)

private theorem parsePacket_eq (buffer : Bytes) : parsePacket buffer = match cut buffer with
    | .wait => (none, kept buffer)
    | .corrupt rest => (none, rest)
    | .packet packet rest => (some packet, rest) := by
  simp only [parsePacket, cut, kept]
  cases fromStart buffer with
  | none => rfl
  | some b =>
    simp only [Option.map_some, Option.getD_some, cutFrom]
    by_cases h8 : b.length < 8
    · rw [if_pos h8, if_pos (Or.inl h8)]
    · by_cases ht : b.length < 4 + (b.getD 2 0).toNat
      · rw [if_neg h8, if_pos ht, if_pos (Or.inr ht)]
      · rw [if_neg h8, if_neg ht, if_neg (not_or.mpr ⟨h8, ht⟩), ite_not]
        split_ifs <;> rfl

variable {b b' rest p y : Bytes}

theorem fromStart_cons_cons (a c : UInt8) (rest : Bytes) : fromStart (a :: c :: rest) =
    if a = START_BYTE_1 ∧ c = START_BYTE_2 then some (a :: c :: rest) else fromStart (c :: rest) := rfl

/-- A start found is at the front of what is left, and is the one found there. -/
theorem fromStart_some (h : fromStart b = some b') :
    b'.length ≤ b.length ∧ ∀ y, fromStart (b ++ y) = some (b' ++ y) ∧ fromStart (b' ++ y) = some (b' ++ y) := by
  induction b with
  | nil => cases h
  | cons a b ih =>
    cases b with
    | nil => cases h
    | cons c rest =>
      rw [fromStart_cons_cons] at h
      split_ifs at h with hs
      · obtain rfl := Option.some.inj h
        refine ⟨Nat.le_refl _, fun y => ?_⟩
        simp only [List.cons_append, fromStart_cons_cons, if_pos hs, and_self]
      · obtain ⟨hl, hy⟩ := ih h
        refine ⟨Nat.le_trans hl (Nat.le_succ _), fun y => ⟨?_, (hy y).2⟩⟩
        rw [List.cons_append, List.cons_append, fromStart_cons_cons, if_neg hs]
        exact (hy y).1

/-- With no start found only a last start byte can matter. -/
theorem fromStart_none (h : fromStart b = none) (y : Bytes) : fromStart (b ++ y) = fromStart (lastStart b ++ y) := by
  induction b with
  | nil => rfl
  | cons a b ih =>
    cases b with
    | nil =>
      by_cases ha : a = START_BYTE_1
      · subst ha
        rfl
      · have hl : lastStart [a] = [] := by simp [lastStart, ha]
        rw [hl, List.nil_append]
        cases y with
        | nil => rfl
        | cons c rest =>
          rw [List.cons_append, List.nil_append, fromStart_cons_cons, if_neg (fun h => ha h.1)]
    | cons c rest =>
      rw [fromStart_cons_cons] at h
      split_ifs at h with hs
      have hl : lastStart (a :: c :: rest) = lastStart (c :: rest) := by simp [lastStart]
      rw [hl, ← ih h, List.cons_append, List.cons_append, fromStart_cons_cons, if_neg hs]

private theorem lastStart_append (b y : Bytes) : lastStart (b ++ y) = lastStart (lastStart b ++ y) := by
  rcases List.eq_nil_or_concat y with rfl | ⟨y, z, rfl⟩
  · rw [List.append_nil, List.append_nil]
    by_cases h : b.getLast? = some START_BYTE_1 <;> simp [lastStart, h]
  · simp [lastStart, ← List.append_assoc]

/-- A buffer long enough to decide stays decided as bytes come. -/
theorem cutFrom_append (h : ¬ (b.length < 8 ∨ b.length < 4 + (b.getD 2 0).toNat)) (y : Bytes) :
    cutFrom (b ++ y) = match cutFrom b with
      | .wait => .wait
      | .corrupt rest => .corrupt (rest ++ y)
      | .packet packet rest => .packet packet (rest ++ y) := by
  obtain ⟨h8, ht⟩ := not_or.mp h
  have hget : (b ++ y).getD 2 0 = b.getD 2 0 := by
    rw [List.getD_eq_getElem?_getD, List.getD_eq_getElem?_getD, List.getElem?_append_left (by omega)]
  have hlen : ¬ ((b ++ y).length < 8 ∨ (b ++ y).length < 4 + (b.getD 2 0).toNat) := by
    rw [List.length_append]
    omega
  simp only [cutFrom, hget]
  rw [if_neg hlen, if_neg h, List.take_append_of_le_length (by omega), List.drop_append_of_le_length (by omega)]
  split_ifs <;> rfl

theorem cutFrom_ne_wait (h : cutFrom b ≠ .wait) : ¬ (b.length < 8 ∨ b.length < 4 + (b.getD 2 0).toNat) := by
  intro hw
  exact h (if_pos hw)

private theorem cutFrom_rest (h : cutFrom b = .corrupt rest ∨ cutFrom b = .packet p rest) :
    rest = b.drop (4 + (b.getD 2 0).toNat) ∧ 8 ≤ b.length := by
  have hlen : ¬ (b.length < 8 ∨ b.length < 4 + (b.getD 2 0).toNat) :=
    cutFrom_ne_wait (by rcases h with h | h <;> rw [h] <;> nofun)
  simp only [cutFrom, if_neg hlen] at h
  split_ifs at h with hc <;> simp_all

theorem cut_of_some (h : fromStart b = some b') : cut b = cutFrom b' := by
  rw [cut, h]
  rfl

private theorem cut_of_none (h : fromStart b = none) : cut b = .wait := by
  rw [cut, h]
  rfl

/-- What is decided was decided from a start found. -/
theorem start_of_cut (h : cut b ≠ .wait) : ∃ b', fromStart b = some b' ∧ cut b = cutFrom b' ∧ cutFrom b' ≠ .wait := by
  cases hs : fromStart b with
  | none => exact absurd (cut_of_none hs) h
  | some b' => exact ⟨b', rfl, cut_of_some hs, cut_of_some hs ▸ h⟩

theorem cut_shorter (h : cut b = .corrupt rest ∨ cut b = .packet p rest) : rest.length < b.length := by
  obtain ⟨b', hs, hc, -⟩ := start_of_cut (by rcases h with h | h <;> rw [h] <;> nofun)
  rw [hc] at h
  obtain ⟨hrest, h8⟩ := cutFrom_rest h
  have := (fromStart_some hs).1
  rw [hrest, List.length_drop]
  omega

theorem cut_append (h : cut b ≠ .wait) (y : Bytes) : cut (b ++ y) = match cut b with
    | .wait => .wait
    | .corrupt rest => .corrupt (rest ++ y)
    | .packet packet rest => .packet packet (rest ++ y) := by
  obtain ⟨b', hs, hc, hw⟩ := start_of_cut h
  rw [cut_of_some ((fromStart_some hs).2 y).1, hc]
  exact cutFrom_append (cutFrom_ne_wait hw) y

/-- All the buffer can still need is pending. -/
theorem fromStart_pending (b y : Bytes) : fromStart (b ++ y) = fromStart (pending b ++ y) := by
  cases hs : fromStart b with
  | none =>
    rw [fromStart_none hs y]
    simp only [pending, hs, Option.getD_none]
  | some b' =>
    obtain ⟨hb, hb'⟩ := (fromStart_some hs).2 y
    simp only [pending, hs, Option.getD_some]
    rw [hb, hb']

theorem pending_append (b y : Bytes) : pending (b ++ y) = pending (pending b ++ y) := by
  have hs := fromStart_pending b y
  cases hy : fromStart (b ++ y) with
  | some c =>
    rw [hy] at hs
    rw [pending, pending, hy, ← hs]
    rfl
  | none =>
    rw [hy] at hs
    rw [pending, pending, hy, ← hs]
    show lastStart (b ++ y) = lastStart (pending b ++ y)
    cases hb : fromStart b with
    | none =>
      simp only [pending, hb, Option.getD_none]
      exact lastStart_append b y
    | some b' => simp [((fromStart_some hb).2 y).1] at hy

/-- The simulator's packets; one too short to read its opcode ends the connection. -/
def framer : Framer UInt8 where
  cut := cut
  pending := pending
  final := fun packet => packet.length < 7
  corrupt_shorter := fun h => cut_shorter (p := []) (Or.inl h)
  packet_shorter := fun h => cut_shorter (Or.inr h)
  corrupt_append := fun y h => by rw [cut_append (by rw [h]; nofun), h]
  packet_append := fun y h => by rw [cut_append (by rw [h]; nofun), h]
  wait_append := fun {b} y _ => by rw [cut, cut, fromStart_pending b y]
  pending_append := fun {b} y _ => pending_append b y

/-- The packets of a whole stream. -/
def packets (stream : Bytes) : List Bytes := (framer.frames stream).1

namespace Client

def view (s : Client) : Received UInt8 := ⟨s.handed, if s.connected then some s.buffer else none⟩

/-- With turns enough the inner loop hands over what the cutter advances by. -/
theorem handlePackets_view {fuel : ℕ} {s : Client} (hf : s.buffer.length < fuel) (hc : s.connected = true) :
    (handlePackets fuel s).view =
      ⟨s.handed ++ (framer.advance kept s.buffer).1, (framer.advance kept s.buffer).2⟩ := by
  induction fuel generalizing s with
  | zero => exact absurd hf (Nat.not_lt_zero _)
  | succ fuel ih =>
    simp only [handlePackets, parsePacket_eq]
    cases hcut : cut s.buffer with
    | wait =>
      rw [Framer.advance_wait (F := framer) hcut]
      simp [view, hc]
    | corrupt rest =>
      rw [Framer.advance_corrupt (F := framer) hcut]
      simp [view, hc]
    | packet packet rest =>
      have hlt : rest.length < s.buffer.length := cut_shorter (Or.inr hcut)
      rw [Framer.advance_packet (F := framer) hcut]
      by_cases hshort : packet.length < 7
      · have hfin : framer.final packet = true := decide_eq_true hshort
        simp [hshort, hfin, view]
      · have hfin : framer.final packet = false := decide_eq_false hshort
        simp only [if_neg hshort, hfin, Bool.false_eq_true, if_false]
        have hrest := ih (s := ⟨rest, s.handed ++ [packet], s.connected⟩)
          (Nat.lt_of_lt_of_le hlt (Nat.le_of_lt_succ hf)) hc
        refine hrest.trans ?_
        simp

theorem receive_view (s : Client) {data : Bytes} (hd : data ≠ []) :
    (s.receive data).view = s.view.receive framer kept data := by
  simp only [receive, Received.receive]
  cases hc : s.connected with
  | false => simp [view, hc]
  | true =>
    simp only [if_true, if_neg hd]
    have hturns := handlePackets_view (s := ⟨s.buffer ++ data, s.handed, true⟩) (Nat.lt_succ_self _) rfl
    refine hturns.trans ?_
    simp [view, hc]

theorem run_view {chunks : List Bytes} (s : Client) (hne : ∀ data ∈ chunks, data ≠ []) :
    (chunks.foldl receive s).view = s.view.run framer kept chunks := by
  induction chunks generalizing s with
  | nil => rfl
  | cons data chunks ih =>
    rw [List.foldl_cons, ih (s.receive data) fun d hd => hne d (List.mem_cons_of_mem _ hd),
      receive_view s (hne data List.mem_cons_self)]
    rfl

/-- No received chunk leaves a start byte at the end of a buffer searched in vain, or complete packets past one
with a bad checksum. -/
def CleanSteps (s : Client) (chunks : List Bytes) : Prop :=
  ConditionalRuns.Each receive (fun s data => s.connected → framer.Clean kept (s.buffer ++ data)) s chunks

private theorem cleanRun_view {chunks : List Bytes} (s : Client) (hne : ∀ data ∈ chunks, data ≠ [])
    (h : s.CleanSteps chunks) : CleanRun framer kept s.view chunks := by
  induction chunks generalizing s with
  | nil => exact trivial
  | cons data chunks ih =>
    refine ⟨?_, ?_⟩
    · intro buffer hb
      cases hc : s.connected with
      | false => simp [view, hc] at hb
      | true =>
        obtain rfl : s.buffer = buffer := by simpa [view, hc] using hb
        exact h.1 hc
    · rw [← receive_view s (hne data List.mem_cons_self)]
      exact ih (s.receive data) (fun d hd => hne d (List.mem_cons_of_mem _ hd)) h.2

end Client

/-- Over clean steps the packets handed over are those of the stream, which are the ones handed over when all of it
comes in one chunk and later bytes after it. -/
theorem framing_chunk_independent {chunks : List Bytes} (hne : ∀ data ∈ chunks, data ≠ [])
    (hclean : ({} : Client).CleanSteps chunks) :
    (handleClient chunks).handed = packets chunks.flatten ∧
      ∀ later : List Bytes, (∀ data ∈ later, data ≠ []) → chunks.flatten.length ≤ later.length →
        packets chunks.flatten <+: (handleClient (chunks.flatten :: later)).handed := by
  constructor
  · have hrun : Faithful framer (({} : Client).view.run framer kept chunks) ([] ++ chunks.flatten) :=
      run_faithful chunks faithful_start (Client.cleanRun_view {} hne hclean)
    rw [← Client.run_view {} hne] at hrun
    exact hrun.handed
  · intro later hlater hlen
    by_cases hs : chunks.flatten = []
    · rw [hs, packets, Framer.frames_nil]
      exact List.nil_prefix
    · have hview := Client.run_view {} (List.forall_mem_cons.mpr ⟨hs, hlater⟩)
      have hwhole : packets chunks.flatten <+: (({} : Client).view.run framer kept (chunks.flatten :: later)).handed :=
        whole_then_later chunks.flatten hlen
      rw [← hview] at hwhole
      exact hwhole

/-- `COM_Connect`, and it with a bad checksum. -/
def connect : Bytes := [0x50, 0x54, 0x04, 0x00, 0x00, 0x07, 0x02, 0x0D]

def corruptConnect : Bytes := [0x50, 0x54, 0x04, 0x00, 0x00, 0x07, 0x02, 0x00]

theorem framing_chunk_independent_connect : (handleClient [connect.take 3, connect.drop 3]).handed = packets connect := by
  have hfirst : framer.cut (connect.take 3) = .wait := rfl
  have hwhole : framer.cut connect = .packet connect [] := rfl
  have hnone : framer.cut [] = .wait := rfl
  have hclean : ({} : Client).CleanSteps [connect.take 3, connect.drop 3] := by
    refine ⟨fun _ => ?_, fun _ => ?_, trivial⟩
    · exact (Framer.clean_wait hfirst).mpr rfl
    · refine (Framer.clean_packet hwhole).mpr (Or.inr ?_)
      exact (Framer.clean_wait hnone).mpr rfl
  exact (framing_chunk_independent (by decide) hclean).1

/-- A start cut in two is lost, and a packet waits behind a corrupt one. -/
theorem framing_chunk_dependent :
    (handleClient [connect.take 1, connect.drop 1]).handed ≠ (handleClient [connect, connect.take 1]).handed ∧
      (handleClient [corruptConnect ++ connect]).handed ≠ (handleClient [corruptConnect, connect]).handed := by
  decide

end Kanat.MotionProtocol
