import Kanat.MotionSimulator
import Kanat.WholePackets
import Mathlib.Data.List.Forall2

/-! # The simulator's client and one connection's thread in conversation (ui_client.py: TCPClient; handle_client)

Bytes in flight arrive in order and in whatever pieces; the other connections and the simulation loop share the
simulator. The client is a new one: what a connection lost halfway leaves in its buffer is another connection's. -/
namespace Kanat.MotionConversation
open MotionProtocol MotionSimulator

/-- What `request_data` is called for; the rest is for `send_command`. -/
def isGetter : Name → Bool
  | .LRF_GetRange | .MOT_GetLoadPosition | .MOT_GetMotorSpeed | .MOT_GetMotorVoltage | .MOT_GetMotorCurrent
  | .ERR_CaptureMotorErrorRegister | .DG_GetBallisticOffset => true
  | _ => false

/-- The bytes a command packs. -/
def dataSize : Name → ℕ
  | .DG_SetSyncMode | .DG_SetInnerMode => 2
  | .LRF_SetRange | .MOT_SetPositionAbsolute | .MOT_SetPositionRelative | .MOT_SetSpeed | .MOT_SetAcceleration
  | .DG_SetBallisticOffset => 4
  | _ => 0

structure Call where
  name : Name
  axisId : UInt8
  data : Bytes
  fits : data.length = dataSize name
  deriving DecidableEq

/-- What a packet says: its axis, its opcode and its data. -/
abbrev Header := UInt8 × ℕ × Bytes

def Call.header (c : Call) : Header := (c.axisId, NAME_TO_OPCODE c.name, c.data)

def Call.packet (c : Call) : Bytes := (buildPacket 0x00 c.axisId (NAME_TO_OPCODE c.name) c.data).getD []

/-- `failed` is `False` for a command and `None` for a request. -/
inductive Result (F : Type) where
  | acknowledged
  | float (x : F)
  | word (x : UInt16)
  | failed
  deriving DecidableEq

section
variable {F : Type} [Add F] [Neg F] [LT F] [DecidableLT F] [OfScientific F]

/-- A packet as it was handled. -/
structure Handled (F : Type) [OfScientific F] where
  sim : Simulator F
  uniform : F → F → F
  header : Header

/-- `handle_client`'s. -/
structure Server (F : Type) [OfScientific F] where
  buffer : Bytes := []
  handled : List (Handled F) := []
  connected : Bool := true

/-- `TCPClient`'s, but for its `Call`s. -/
structure Client where
  sock : Bool := true
  buffer : Bytes := []

structure World (F : Type) [OfScientific F] where
  sim : Simulator F
  server : Server F := {}
  toServer : Bytes := []
  toClient : Bytes := []
  client : Client := {}
  waiting : Option Call := none
  done : List (Call × Result F) := []

inductive Event (F : Type) where
  | call (c : Call)
  | serverReceives (n : ℕ)
  | clientReceives (n : ℕ)
  | timeout
  | disconnect
  | elsewhere (step : Step F)

variable (floats : FloatBytes F) (uniform : ℕ → F → F → F)

def decode (name : Name) (field : Bytes) : Result F :=
  if name = .ERR_CaptureMotorErrorRegister then
    match unpackWord field with
    | some x => .word x
    | none => .failed
  else if field.length = 4 then
    match floats.unpack field with
    | some x => .float x
    | none => .failed
  else .failed

namespace World

/-- What one `recv` of up to 1024 bytes may take: some of what is there. -/
def taken (n : ℕ) (inFlight : Bytes) : Bytes := inFlight.take (min (n + 1) 1024)

def left (n : ℕ) (inFlight : Bytes) : Bytes := inFlight.drop (min (n + 1) 1024)

/-- The inner loop; each turn but the last shortens the buffer. -/
@[grind =] def handlePackets : ℕ → World F → World F
  | 0, w => w
  | fuel + 1, w =>
    match parsePacket w.server.buffer with
    | (none, buffer) => { w with server := { w.server with buffer } }
    | (some packet, buffer) =>
      match header packet with
      -- its axis and opcode are read outside the handler's `try`
      | none => { w with server := { w.server with buffer, connected := false } }
      | some (axisId, opcode, data) =>
        let h : Handled F := ⟨w.sim, uniform w.server.handled.length, (axisId, opcode, data)⟩
        let (sim, reply) := handle floats h.uniform w.sim axisId opcode data
        handlePackets fuel { w with
          sim, server := { w.server with buffer, handled := w.server.handled ++ [h] }, toClient := w.toClient ++ reply }

def serverReceives (n : ℕ) (w : World F) : World F :=
  if w.server.connected then
    let data := taken n w.toServer
    if data = [] then
      -- it waits, but for a socket that was closed
      if w.client.sock then w else { w with server := { w.server with connected := false } }
    else
      let buffer := w.server.buffer ++ data
      handlePackets floats uniform (buffer.length + 1)
        { w with server := { w.server with buffer }, toServer := left n w.toServer }
  else w

def finish (r : Result F) (w : World F) : World F :=
  match w.waiting with
  | none => w
  | some c => { w with waiting := none, done := w.done ++ [(c, r)] }

def disconnect (w : World F) : World F := { w with client := { w.client with sock := false } }

/-- The call's one `recv`, or one of a request's. -/
def clientReceives (n : ℕ) (w : World F) : World F :=
  match w.waiting with
  | none => w
  | some c =>
    let data := taken n w.toClient
    if data = [] then
      if w.server.connected then w
      else if isGetter c.name then (w.finish .failed).disconnect
      else w.finish .failed
    else
      let w := { w with toClient := left n w.toClient }
      if isGetter c.name then
        let (pkt, buffer) := parsePacket (w.client.buffer ++ data)
        let w := { w with client := { w.client with buffer } }
        match pkt with
        | none => w
        | some pkt => w.finish (decode floats c.name (pkt.drop 7).dropLast)
      else w.finish (if data = ACK_REPLY then .acknowledged else .failed)

variable [Sub F] [Mul F]

def step (w : World F) : Event F → World F
  | .call c =>
    if !w.client.sock then { w with done := w.done ++ [(c, .failed)] }
    -- one call at a time
    else if w.waiting.isSome then w
    else { w with toServer := w.toServer ++ c.packet, waiting := some c }
  | .serverReceives n => w.serverReceives floats uniform n
  | .clientReceives n => w.clientReceives floats n
  | .timeout => if w.waiting.isSome then (w.finish .failed).disconnect else w
  | .disconnect => if w.waiting.isSome then w else w.disconnect
  | .elsewhere step => { w with sim := w.sim.step floats step }

def run (events : List (Event F)) (w : World F) : World F := events.foldl (step floats uniform) w

/-- Every call made, in order. -/
def asked (w : World F) : List Call := w.done.map Prod.fst ++ w.waiting.toList

end World

/-- What a call made of the packet that was handled for it: a command was carried out, a request got the reading that
the simulator took for it. -/
def Answered (c : Call) (r : Result F) (h : Handled F) : Prop :=
  h.header = c.header ∧
    match answer floats h.uniform h.sim c.axisId (NAME_TO_OPCODE c.name) c.data with
    | some (_, some field) => r = decode floats c.name field
    | some (_, none) => isGetter c.name = false ∧ r = .acknowledged
    | none => False

end

/-- No packet can come of it any more. -/
def Dead (b : Bytes) : Prop := ∀ b', fromStart b = some b' → b'.length < 8

/-- A packet as either side builds them. -/
structure Built (p : Bytes) (axisId : UInt8) (opcode : ℕ) (data : Bytes) : Prop where
  built : buildPacket 0x00 axisId opcode data = some p
  known : opcode < 0x1000
  short : data.length ≤ 4

/-- What is left of a packet on its way: its start is kept, or nothing will come of it. -/
def OnWay (p buffer inFlight : Bytes) : Prop :=
  (buffer ++ inFlight = p ∧ (buffer = [] ∨ 2 ≤ buffer.length)) ∨ Dead (buffer ++ inFlight)

variable {b p buffer chunk rest data : Bytes} {axisId : UInt8} {opcode : ℕ}

theorem dead_nil : Dead [] := nofun

private theorem fromStart_suffix {v : Bytes} (u : Bytes) {b : Bytes} (h : fromStart v = some b) :
    ∃ b', fromStart (u ++ v) = some b' ∧ b.length ≤ b'.length := by
  induction u with
  | nil => exact ⟨b, h, le_rfl⟩
  | cons a u ih =>
    obtain ⟨b', hb', hle⟩ := ih
    cases huv : u ++ v with
    | nil =>
      rw [huv] at hb'
      cases hb'
    | cons c w =>
      rw [List.cons_append, huv, fromStart_cons_cons]
      rw [huv] at hb'
      split_ifs
      · refine ⟨_, rfl, hle.trans ?_⟩
        have hshorter := (fromStart_some hb').1
        rw [List.length_cons]
        omega
      · exact ⟨b', hb', hle⟩

theorem Dead.suffix {u v : Bytes} (h : Dead (u ++ v)) : Dead v := by
  intro b hb
  obtain ⟨b', hb', hle⟩ := fromStart_suffix u hb
  exact hle.trans_lt (h b' hb')

/-- Of a dead stream the parser makes nothing, and what it keeps is dead too. -/
theorem Dead.receive (h : Dead (b ++ rest)) : ∃ b', parsePacket b = (none, b') ∧ Dead (b' ++ rest) := by
  rw [parsePacket]
  cases hs : fromStart b with
  | none => exact ⟨[], rfl, h.suffix⟩
  | some b' =>
    obtain ⟨hwhole, hagain⟩ := (fromStart_some hs).2 rest
    have hshort := h _ hwhole
    rw [List.length_append] at hshort
    refine ⟨b', if_pos (by omega), fun b'' hb'' => ?_⟩
    rw [hagain] at hb''
    obtain rfl := Option.some.inj hb''
    rw [List.length_append]
    exact hshort

/-- All but a packet's end. -/
def opening (axisId : UInt8) (opcode : ℕ) (data : Bytes) : Bytes :=
  [(1 + 1 + 2 + data.length).toUInt8, 0x00, axisId, (opcode / 256).toUInt8, opcode.toUInt8]

theorem Built.eq (h : Built p axisId opcode data) : ∃ checksum, p =
    START_BYTE_1 :: START_BYTE_2 :: (opening axisId opcode data ++ data ++ [checksum]) := by
  obtain ⟨hbuilt, -, hshort⟩ := h
  rw [buildPacket, if_pos (by omega)] at hbuilt
  exact ⟨_, (Option.some.inj hbuilt).symm⟩

theorem Built.length (h : Built p axisId opcode data) : p.length = 8 + data.length := by
  obtain ⟨checksum, rfl⟩ := h.eq
  simp [opening]
  omega

theorem Built.parse (h : Built p axisId opcode data) : parsePacket p = (some p, []) := by
  obtain ⟨packet, hpacket, hparse⟩ := parsePacket_buildPacket 0x00 axisId opcode
    (h.short.trans (by norm_num)) []
  obtain rfl := Option.some.inj (h.built.symm.trans hpacket)
  rwa [List.append_nil] at hparse

/-- A part of a packet that has its start is waited on. -/
theorem Built.waits (h : Built p axisId opcode data) {part : Bytes} (hpart : part ++ rest = p) (hrest : rest ≠ [])
    (hlong : 2 ≤ part.length) : parsePacket part = (none, part) := by
  have hlength := congrArg List.length hpart
  rw [List.length_append, h.length] at hlength
  have hmore := List.length_pos_iff.mpr hrest
  obtain ⟨checksum, rfl⟩ := h.eq
  match part, hlong with
  | a :: b :: part, _ =>
    obtain ⟨rfl, htail⟩ := List.cons_eq_cons.mp hpart
    obtain ⟨rfl, hbody⟩ := List.cons_eq_cons.mp htail
    have hstart : fromStart (START_BYTE_1 :: START_BYTE_2 :: part) = some (START_BYTE_1 :: START_BYTE_2 :: part) := rfl
    have htotal : 8 ≤ (START_BYTE_1 :: START_BYTE_2 :: part).length → (START_BYTE_1 :: START_BYTE_2 :: part).length <
        4 + ((START_BYTE_1 :: START_BYTE_2 :: part).getD 2 0).toNat := by
      intro h8
      cases part with
      | nil => simp at h8
      | cons c part =>
        obtain rfl := (List.cons_eq_cons.mp hbody).1
        have hshort := h.short
        have hcount : ((1 + 1 + 2 + data.length).toUInt8).toNat = 4 + data.length := by
          change (1 + 1 + 2 + data.length) % 256 = 4 + data.length
          omega
        change _ < 4 + ((1 + 1 + 2 + data.length).toUInt8).toNat
        omega
    rw [parsePacket, hstart]
    dsimp only
    by_cases h8 : (START_BYTE_1 :: START_BYTE_2 :: part).length < 8
    · rw [if_pos h8]
    · rw [if_neg h8, if_pos (htotal (not_lt.mp h8))]

theorem Built.dead_tail (h : Built (START_BYTE_1 :: p) axisId opcode data) : Dead p := by
  have hlength := h.length
  obtain ⟨checksum, htail⟩ := h.eq
  obtain rfl := (List.cons_eq_cons.mp htail).2
  obtain ⟨-, hknown, hshort⟩ := h
  -- past the second start byte neither the length, the group nor the opcode is a start byte
  have hcount : (1 + 1 + 2 + data.length).toUInt8 ≠ START_BYTE_1 := by
    intro h
    have hcount := congrArg UInt8.toNat h
    change (1 + 1 + 2 + data.length) % 256 = 0x50 at hcount
    omega
  have hopcode : (opcode / 256).toUInt8 ≠ START_BYTE_2 := by
    intro h
    have hhigh := congrArg UInt8.toNat h
    change opcode / 256 % 256 = 0x54 at hhigh
    omega
  intro b hb
  change fromStart (START_BYTE_2 :: (1 + 1 + 2 + data.length).toUInt8 :: 0x00 :: axisId :: (opcode / 256).toUInt8 ::
    (opcode.toUInt8 :: data ++ [checksum])) = some b at hb
  rw [fromStart_cons_cons, if_neg fun h => absurd h.1 (by decide), fromStart_cons_cons, if_neg fun h => hcount h.1,
    fromStart_cons_cons, if_neg fun h => absurd h.1 (by decide), fromStart_cons_cons, if_neg fun h => hopcode h.2] at hb
  have hle := (fromStart_some hb).1
  simp only [List.length_cons, List.length_append, List.length_nil] at hle
  omega

theorem Built.field (h : Built p axisId opcode data) : (p.drop 7).dropLast = data := by
  obtain ⟨checksum, rfl⟩ := h.eq
  exact List.dropLast_concat

theorem Built.header (h : Built p axisId opcode data) : header p = some (axisId, opcode, data) := by
  have hknown := h.known
  have hopcode : (opcode / 256).toUInt8.toNat * 256 + opcode.toUInt8.toNat = opcode := by
    change opcode / 256 % 256 * 256 + opcode % 256 = opcode
    omega
  rw [MotionProtocol.header, h.field]
  obtain ⟨checksum, rfl⟩ := h.eq
  change some (axisId, (opcode / 256).toUInt8.toNat * 256 + opcode.toUInt8.toNat, data) = _
  rw [hopcode]

/-- Bytes that arrive complete the packet, or leave the rest of it on its way. -/
theorem OnWay.receive (hp : Built p axisId opcode data) (h : OnWay p buffer (chunk ++ rest)) (hchunk : chunk ≠ []) :
    (rest = [] ∧ parsePacket (buffer ++ chunk) = (some p, [])) ∨
      ∃ buffer', parsePacket (buffer ++ chunk) = (none, buffer') ∧ OnWay p buffer' rest := by
  rcases h with ⟨hwhole, hkept⟩ | hdead
  · rw [← List.append_assoc] at hwhole
    by_cases hrest : rest = []
    · subst hrest
      rw [List.append_nil] at hwhole
      exact .inl ⟨rfl, hwhole ▸ hp.parse⟩
    · have hone := List.length_pos_iff.mpr hchunk
      by_cases hlong : 2 ≤ (buffer ++ chunk).length
      · exact .inr ⟨_, hp.waits hwhole hrest hlong, .inl ⟨hwhole, .inr hlong⟩⟩
      · -- its first byte alone, which the parser throws away
        obtain ⟨first, rfl⟩ : ∃ first, chunk = [first] :=
          List.length_eq_one_iff.mp (by rw [List.length_append] at hlong; omega)
        obtain rfl : buffer = [] := hkept.resolve_right fun h => hlong (by rw [List.length_append]; omega)
        obtain ⟨checksum, heq⟩ := hp.eq
        obtain rfl : first = START_BYTE_1 := (List.cons_eq_cons.mp (hwhole.trans heq)).1
        refine .inr ⟨[], rfl, .inr ?_⟩
        rw [← hwhole] at hp
        exact hp.dead_tail
  · rw [← List.append_assoc] at hdead
    obtain ⟨buffer', hparse, hdead'⟩ := hdead.receive
    exact .inr ⟨buffer', hparse, .inr hdead'⟩

section
variable {F : Type} [Add F] [Neg F] [LT F] [DecidableLT F] [OfScientific F]
variable (floats : FloatBytes F)

/-- What a packet is answered with. -/
def Handled.reply (h : Handled F) : Bytes := (handle floats h.uniform h.sim h.header.1 h.header.2.1 h.header.2.2).2

/-- A packet's handling, for a call that may have been given up. -/
def Handled.Answers (h : Handled F) (x : Call × Result F) : Prop :=
  h.header = x.1.header ∧ (x.2 ≠ .failed → Answered floats x.1 x.2 h)

/-- The reply on its way back: a packet with the reading, an acknowledgement where there is none. -/
def Replying (c : Call) (h : Handled F) (buffer inFlight : Bytes) : Prop :=
  if isGetter c.name then
    Dead (buffer ++ inFlight) ∨ ∃ after field p, answer floats h.uniform h.sim c.axisId (NAME_TO_OPCODE c.name) c.data =
      some (after, some field) ∧ Built p c.axisId (NAME_TO_OPCODE c.name) field ∧ OnWay p buffer inFlight
  else buffer = [] ∧ inFlight = ACK_REPLY ∧
    ∃ after, answer floats h.uniform h.sim c.axisId (NAME_TO_OPCODE c.name) c.data = some (after, none)

/-- What a reachable world looks like. -/
inductive Inv : World F → Prop
  | idle {w : World F} (connected : w.server.connected = true) (sock : w.client.sock = true)
      (waiting : w.waiting = none) (toServer : w.server.buffer = [] ∧ w.toServer = [])
      (toClient : w.client.buffer = [] ∧ w.toClient = [])
      (handled : List.Forall₂ (Handled.Answers floats) w.server.handled w.done) : Inv w
  | asking {w : World F} (c : Call) (connected : w.server.connected = true) (sock : w.client.sock = true)
      (waiting : w.waiting = some c) (toServer : OnWay c.packet w.server.buffer w.toServer)
      (toClient : w.client.buffer = [] ∧ w.toClient = [])
      (handled : List.Forall₂ (Handled.Answers floats) w.server.handled w.done) : Inv w
  | replying {w : World F} (c : Call) (h : Handled F) (before : List (Handled F))
      (connected : w.server.connected = true) (sock : w.client.sock = true) (waiting : w.waiting = some c)
      (toServer : w.server.buffer = [] ∧ w.toServer = []) (header : h.header = c.header)
      (last : w.server.handled = before ++ [h]) (toClient : Replying floats c h w.client.buffer w.toClient)
      (handled : List.Forall₂ (Handled.Answers floats) before w.done) : Inv w
  | hungUp {w : World F} (answered dropped : List (Call × Result F)) (sock : w.client.sock = false)
      (waiting : w.waiting = none) (done : w.done = answered ++ dropped) (failed : ∀ x ∈ dropped, x.2 = .failed)
      (handled : List.Forall₂ (Handled.Answers floats) w.server.handled answered)
      (toServer : Dead (w.server.buffer ++ w.toServer) ∨
        ∃ x rest, dropped = x :: rest ∧ OnWay x.1.packet w.server.buffer w.toServer) : Inv w

variable {floats} {uniform : ℕ → F → F → F} {sim : Simulator F} {w : World F}

private theorem unpackWord_isSome (h : data.length = 2) : (unpackWord data).isSome := by
  obtain ⟨a, b, rfl⟩ := List.length_eq_two.mp h
  rfl

omit [Add F] [Neg F] [LT F] [DecidableLT F] in
theorem answerSystem_command {name : Name} (hcommand : isGetter name = false) (hfits : data.length = dataSize name) :
    ∃ after, answerSystem floats sim (NAME_TO_OPCODE name) data = some (after, none) := by
  have hfloat (h : dataSize name = 4) : ∃ x, floats.unpack data = some x :=
    Option.isSome_iff_exists.mp (floats.unpack_isSome (hfits.trans h))
  have hword (h : dataSize name = 2) : ∃ x, unpackWord data = some x :=
    Option.isSome_iff_exists.mp (unpackWord_isSome (hfits.trans h))
  cases name with
  | LRF_SetRange =>
    obtain ⟨x, hx⟩ := hfloat rfl
    exact ⟨_, by simp [answerSystem, NAME_TO_OPCODE, hx]; rfl⟩
  | DG_SetSyncMode | DG_SetInnerMode =>
    obtain ⟨x, hx⟩ := hword rfl
    exact ⟨_, by simp [answerSystem, NAME_TO_OPCODE, hx]; rfl⟩
  | LRF_GetRange | MOT_GetLoadPosition | MOT_GetMotorSpeed | MOT_GetMotorVoltage | MOT_GetMotorCurrent
  | ERR_CaptureMotorErrorRegister | DG_GetBallisticOffset => cases hcommand
  | _ => exact ⟨sim, rfl⟩

theorem commanded_isSome {name : Name} (hfits : data.length = dataSize name) (axis : SimpleAxis F) (axisId : UInt8) :
    ∃ after, commanded floats axis axisId (NAME_TO_OPCODE name) data = some after := by
  have hfloat (h : dataSize name = 4) : ∃ x, floats.unpack data = some x :=
    Option.isSome_iff_exists.mp (floats.unpack_isSome (hfits.trans h))
  cases name with
  | MOT_SetPositionAbsolute | MOT_SetPositionRelative | MOT_SetSpeed | MOT_SetAcceleration =>
    obtain ⟨x, hx⟩ := hfloat rfl
    exact ⟨_, by simp [commanded, NAME_TO_OPCODE, hx]; rfl⟩
  | DG_SetBallisticOffset =>
    obtain ⟨x, hx⟩ := hfloat rfl
    by_cases haxis : axisId ∈ [1, 2]
    · exact ⟨axis.setBallisticOffset x, by simp only [commanded, if_pos haxis, hx]; rfl⟩
    · exact ⟨axis, by simp only [commanded, if_neg haxis]; rfl⟩
  | _ => exact ⟨_, rfl⟩

theorem reading_command {name : Name} (hcommand : isGetter name = false) (draw : F → F → F) (axis : SimpleAxis F) :
    reading floats draw axis (NAME_TO_OPCODE name) = none := by
  cases name <;> first | rfl | cases hcommand

/-- A command is carried out, and acknowledged. -/
theorem answer_command (floats : FloatBytes F) (sim : Simulator F) (c : Call) (hcommand : isGetter c.name = false)
    (draw : F → F → F) :
    ∃ after, answer floats draw sim c.axisId (NAME_TO_OPCODE c.name) c.data = some (after, none) := by
  unfold answer
  split
  · exact answerSystem_command hcommand c.fits
  · split
    · next axis _ =>
      obtain ⟨after, hafter⟩ := commanded_isSome c.fits axis c.axisId
      exact ⟨_, by rw [answerAxis, reading_command hcommand, hafter]; rfl⟩
    · exact ⟨sim, rfl⟩

private theorem length_reading {axis : SimpleAxis F} {draw : F → F → F} {field : Bytes}
    (h : reading floats draw axis opcode = some (some field)) : field.length ≤ 4 := by
  unfold reading at h
  split_ifs at h
  all_goals
    first
      | exact (floats.length_pack (Option.some.inj h)).le
      | obtain rfl := Option.some.inj (Option.some.inj h)
        exact Nat.le_of_ble_eq_true rfl

private theorem length_field {field : Bytes} {draw : F → F → F} {after : Simulator F}
    (h : answer floats draw sim axisId opcode data = some (after, some field)) : field.length ≤ 4 := by
  unfold answer at h
  split at h
  · unfold answerSystem at h
    split_ifs at h
    · cases h
    · obtain ⟨range, hrange, heq⟩ := Option.map_eq_some_iff.mp h
      cases heq
      exact (floats.length_pack hrange).le
    · obtain ⟨_, -, heq⟩ := Option.map_eq_some_iff.mp h
      cases heq
    · obtain ⟨_, -, heq⟩ := Option.map_eq_some_iff.mp h
      cases heq
    · obtain ⟨_, -, heq⟩ := Option.map_eq_some_iff.mp h
      cases heq
    · cases h
  · split at h
    · unfold answerAxis at h
      split at h
      · next packed hpacked =>
        obtain ⟨_, hfield, heq⟩ := Option.map_eq_some_iff.mp h
        cases heq
        rw [hfield] at hpacked
        exact length_reading hpacked
      · obtain ⟨_, -, heq⟩ := Option.map_eq_some_iff.mp h
        cases heq
    · cases h

/-- A reading is sent back in a packet of its own. -/
theorem handle_field {draw : F → F → F} {after : Simulator F} {field : Bytes}
    (hanswer : answer floats draw sim axisId opcode data = some (after, some field)) (hknown : opcode < 0x1000) :
    Built (handle floats draw sim axisId opcode data).2 axisId opcode field := by
  have hshort := length_field hanswer
  obtain ⟨p, hp, -⟩ := parsePacket_buildPacket 0x00 axisId opcode (show field.length ≤ 251 by omega) []
  rw [handle, hanswer]
  dsimp only
  rw [hp]
  exact ⟨hp, hknown, hshort⟩

theorem Call.built (c : Call) : Built c.packet c.axisId (NAME_TO_OPCODE c.name) c.data := by
  have hshort : c.data.length ≤ 4 := by
    rw [c.fits]
    cases c.name <;> decide
  obtain ⟨p, hp, -⟩ := parsePacket_buildPacket 0x00 c.axisId (NAME_TO_OPCODE c.name) (hshort.trans (by norm_num)) []
  refine ⟨?_, NAME_TO_OPCODE_lt c.name, hshort⟩
  rw [Call.packet, hp]
  rfl

namespace World

theorem taken_append_left (n : ℕ) (inFlight : Bytes) : taken n inFlight ++ left n inFlight = inFlight :=
  List.take_append_drop _ _

theorem taken_eq_nil {n : ℕ} {inFlight : Bytes} : taken n inFlight = [] ↔ inFlight = [] := by
  rw [taken, List.take_eq_nil_iff]
  exact or_iff_right (by omega)

theorem taken_nil (n : ℕ) : taken n [] = [] := taken_eq_nil.mpr rfl

theorem handlePackets_wait (fuel : ℕ) (hparse : parsePacket w.server.buffer = (none, buffer)) :
    handlePackets floats uniform (fuel + 1) w = { w with server := { w.server with buffer } } := by
  rw [handlePackets, hparse]

private theorem handlePackets_packet (fuel : ℕ) (hparse : parsePacket w.server.buffer = (some p, []))
    {said : Header} (hheader : header p = some said) :
    let h : Handled F := ⟨w.sim, uniform w.server.handled.length, said⟩
    handlePackets floats uniform (fuel + 2) w = { w with
      sim := (handle floats h.uniform w.sim said.1 said.2.1 said.2.2).1
      server := { w.server with buffer := [], handled := w.server.handled ++ [h] }
      toClient := w.toClient ++ h.reply floats } := by
  intro h
  rw [handlePackets, hparse]
  dsimp only
  rw [hheader]
  exact handlePackets_wait fuel rfl

/-- Bytes that reach the server, as it parses them. -/
theorem serverReceives_eq (w : World F) (n : ℕ) (hconnected : w.server.connected = true) (hsome : w.toServer ≠ []) :
    w.serverReceives floats uniform n =
      handlePackets floats uniform ((w.server.buffer ++ taken n w.toServer).length + 1)
        { w with server := { w.server with buffer := w.server.buffer ++ taken n w.toServer }
                 toServer := left n w.toServer } := by
  rw [serverReceives, if_pos hconnected, if_neg (mt taken_eq_nil.mp hsome)]

end World
open World

theorem dead_ack : Dead ACK_REPLY := nofun

/-- The reply to a call's packet is on its way. -/
theorem replying_handled (c : Call) (h : Handled F) (hheader : h.header = c.header) :
    Replying floats c h [] (h.reply floats) := by
  have hreply : h.reply floats = (handle floats h.uniform h.sim c.axisId (NAME_TO_OPCODE c.name) c.data).2 := by
    rw [Handled.reply, hheader]
    rfl
  rw [hreply, Replying]
  split
  · cases hanswer : answer floats h.uniform h.sim c.axisId (NAME_TO_OPCODE c.name) c.data with
    | none =>
      rw [handle, hanswer]
      exact .inl dead_ack
    | some answered =>
      obtain ⟨after, field⟩ := answered
      cases field with
      | none =>
        rw [handle, hanswer]
        exact .inl dead_ack
      | some field =>
        have hbuilt := handle_field hanswer (NAME_TO_OPCODE_lt c.name)
        exact .inr ⟨after, field, _, rfl, hbuilt, .inl ⟨rfl, .inl rfl⟩⟩
  · next hcommand =>
    obtain ⟨after, hanswer⟩ := answer_command floats h.sim c (Bool.eq_false_iff.mpr hcommand) h.uniform
    exact ⟨rfl, by rw [handle, hanswer], after, hanswer⟩

/-- A packet that is complete is handled at once. -/
theorem handlePackets_call {c : Call} (hsome : w.server.buffer ≠ [])
    (hparse : parsePacket w.server.buffer = (some c.packet, [])) :
    let h : Handled F := ⟨w.sim, uniform w.server.handled.length, c.header⟩
    handlePackets floats uniform (w.server.buffer.length + 1) w = { w with
      sim := (handle floats h.uniform w.sim c.header.1 c.header.2.1 c.header.2.2).1
      server := { w.server with buffer := [], handled := w.server.handled ++ [h] }
      toClient := w.toClient ++ h.reply floats } := by
  intro h
  obtain ⟨k, hk⟩ := Nat.exists_eq_succ_of_ne_zero (List.length_pos_iff.mpr hsome).ne'
  rw [hk]
  exact handlePackets_packet k hparse c.built.header

theorem Inv.serverReceives (h : Inv floats w) (n : ℕ) : Inv floats (w.serverReceives floats uniform n) := by
  cases h with
  | idle connected sock waiting toServer toClient handled =>
    have hsame : w.serverReceives floats uniform n = w := by
      rw [World.serverReceives, if_pos connected, toServer.2, if_pos (taken_nil n), if_pos sock]
    rw [hsame]
    exact .idle connected sock waiting toServer toClient handled
  | asking c connected sock waiting toServer toClient handled =>
    by_cases hsome : w.toServer = []
    · have hsame : w.serverReceives floats uniform n = w := by
        rw [World.serverReceives, if_pos connected, hsome, if_pos (taken_nil n), if_pos sock]
      rw [hsame]
      exact .asking c connected sock waiting toServer toClient handled
    · rw [serverReceives_eq w n connected hsome]
      rw [← taken_append_left n w.toServer] at toServer
      have hdata : taken n w.toServer ≠ [] := mt taken_eq_nil.mp hsome
      rcases toServer.receive c.built hdata with ⟨hleft, hparse⟩ | ⟨buffer', hparse, honWay⟩
      · refine (congrArg (Inv floats) (handlePackets_call (by simp [hdata]) hparse)).mpr ?_
        refine .replying c _ w.server.handled connected sock waiting ⟨rfl, hleft⟩ rfl rfl ?_ handled
        rw [toClient.1, toClient.2, List.nil_append]
        exact replying_handled c _ rfl
      · rw [handlePackets_wait _ hparse]
        exact .asking c connected sock waiting honWay toClient handled
  | replying c said before connected sock waiting toServer header last toClient handled =>
    have hsame : w.serverReceives floats uniform n = w := by
      rw [World.serverReceives, if_pos connected, toServer.2, if_pos (taken_nil n), if_pos sock]
    rw [hsame]
    exact .replying c said before connected sock waiting toServer header last toClient handled
  | hungUp answered dropped sock waiting done failed handled toServer =>
    by_cases connected : w.server.connected = true
    · by_cases hsome : w.toServer = []
      · rw [World.serverReceives, if_pos connected, if_pos (taken_eq_nil.mpr hsome), if_neg (by simp [sock])]
        exact .hungUp answered dropped sock waiting done failed handled toServer
      · rw [serverReceives_eq w n connected hsome]
        rw [← taken_append_left n w.toServer, ← List.append_assoc] at toServer
        have hdata : taken n w.toServer ≠ [] := mt taken_eq_nil.mp hsome
        rcases toServer with hdead | ⟨x, rest, rfl, honWay⟩
        · obtain ⟨buffer', hparse, hdead'⟩ := hdead.receive
          rw [handlePackets_wait _ hparse]
          exact .hungUp answered dropped sock waiting done failed handled (.inl hdead')
        · rcases honWay.receive x.1.built hdata with ⟨hleft, hparse⟩ | ⟨buffer', hparse, honWay'⟩
          · refine (congrArg (Inv floats) (handlePackets_call (by simp [hdata]) hparse)).mpr ?_
            refine .hungUp (answered ++ [x]) rest sock waiting (by simp [done]) (fun y hy => ?_) ?_ ?_
            · exact failed y (List.mem_cons_of_mem _ hy)
            · exact List.rel_append handled (.cons ⟨rfl, fun h => absurd (failed x List.mem_cons_self) h⟩ .nil)
            · change Dead ([] ++ left n w.toServer) ∨ _
              rw [hleft]
              exact .inl dead_nil
          · rw [handlePackets_wait _ hparse]
            exact .hungUp answered (x :: rest) sock waiting done failed handled (.inr ⟨x, rest, rfl, honWay'⟩)
    · rw [World.serverReceives, if_neg connected]
      exact .hungUp answered dropped sock waiting done failed handled toServer

omit [Add F] [Neg F] [LT F] [DecidableLT F] in
theorem World.finish_of_waiting {c : Call} (h : w.waiting = some c) (r : Result F) :
    w.finish r = { w with waiting := none, done := w.done ++ [(c, r)] } := by
  rw [finish, h]

theorem Inv.clientReceives (h : Inv floats w) (n : ℕ) : Inv floats (w.clientReceives floats n) := by
  cases h with
  | idle connected sock waiting toServer toClient handled =>
    rw [World.clientReceives, waiting]
    exact .idle connected sock waiting toServer toClient handled
  | asking c connected sock waiting toServer toClient handled =>
    have hsame : w.clientReceives floats n = w := by
      rw [World.clientReceives, waiting]
      dsimp only
      rw [toClient.2, if_pos (taken_nil n), if_pos connected]
    rw [hsame]
    exact .asking c connected sock waiting toServer toClient handled
  | hungUp answered dropped sock waiting done failed handled toServer =>
    rw [World.clientReceives, waiting]
    exact .hungUp answered dropped sock waiting done failed handled toServer
  | replying c said before connected sock waiting toServer header last toClient handled =>
    by_cases hsome : w.toClient = []
    · have hsame : w.clientReceives floats n = w := by
        rw [World.clientReceives, waiting]
        dsimp only
        rw [if_pos (taken_eq_nil.mpr hsome), if_pos connected]
      rw [hsame]
      exact .replying c said before connected sock waiting toServer header last toClient handled
    · have hdata : taken n w.toClient ≠ [] := mt taken_eq_nil.mp hsome
      rw [World.clientReceives, waiting]
      dsimp only
      rw [if_neg hdata]
      unfold Replying at toClient
      split
      · next hgetter =>
        rw [if_pos hgetter] at toClient
        rw [← taken_append_left n w.toClient, ← List.append_assoc] at toClient
        rcases toClient with hdead | ⟨after, field, p, hanswer, hbuilt, honWay⟩
        · obtain ⟨buffer', hparse, hdead'⟩ := hdead.receive
          rw [hparse]
          refine .replying c said before connected sock rfl toServer header last ?_ handled
          rw [Replying, if_pos hgetter]
          exact .inl hdead'
        · rcases honWay.receive hbuilt hdata with ⟨hleft, hparse⟩ | ⟨buffer', hparse, honWay'⟩
          · rw [hparse]
            dsimp only
            rw [finish_of_waiting rfl, hbuilt.field]
            refine .idle connected sock rfl toServer ⟨rfl, hleft⟩ ?_
            rw [last]
            refine List.rel_append handled (.cons ⟨header, fun _ => ⟨header, ?_⟩⟩ .nil)
            rw [hanswer]
          · rw [hparse]
            refine .replying c said before connected sock rfl toServer header last ?_ handled
            rw [Replying, if_pos hgetter]
            exact .inr ⟨after, field, p, hanswer, hbuilt, honWay'⟩
      · next hcommand =>
        rw [if_neg hcommand] at toClient
        obtain ⟨hbuffer, hack, after, hanswer⟩ := toClient
        have hwhole : 1 ≤ min (n + 1) 1024 := by omega
        have htaken : taken n w.toClient = ACK_REPLY := by
          rw [hack]
          exact List.take_of_length_le hwhole
        rw [if_pos htaken, finish_of_waiting rfl]
        refine .idle connected sock rfl toServer ⟨hbuffer, ?_⟩ ?_
        · dsimp only
          rw [hack]
          exact List.drop_of_length_le hwhole
        · rw [last]
          refine List.rel_append handled (.cons ⟨header, fun _ => ⟨header, ?_⟩⟩ .nil)
          rw [hanswer]
          exact ⟨Bool.eq_false_iff.mpr hcommand, rfl⟩

theorem inv_start (floats : FloatBytes F) (sim : Simulator F) : Inv floats { sim } :=
  .idle rfl rfl rfl ⟨rfl, rfl⟩ ⟨rfl, rfl⟩ .nil

theorem handled_headers {handled : List (Handled F)} {done : List (Call × Result F)}
    (h : List.Forall₂ (Handled.Answers floats) handled done) :
    handled.map Handled.header = done.map fun x => x.1.header := by
  induction h with
  | nil => rfl
  | cons hanswers _ ih => rw [List.map_cons, List.map_cons, hanswers.1, ih]

theorem Inv.headers (h : Inv floats w) : w.server.handled.map Handled.header <+: w.asked.map Call.header := by
  rw [asked, List.map_append, List.map_map]
  cases h with
  | idle _ _ waiting _ _ handled | asking c _ _ waiting _ _ handled =>
    rw [handled_headers handled]
    exact List.prefix_append _ _
  | replying c said before _ _ waiting _ header last _ handled =>
    rw [last, waiting, List.map_append, handled_headers handled, List.map_singleton, header]
    exact List.prefix_rfl
  | hungUp answered dropped _ waiting done _ handled _ =>
    rw [handled_headers handled, done, List.map_append, List.append_assoc]
    exact List.prefix_append _ _

theorem Inv.answers (h : Inv floats w) {i : ℕ} {c : Call} {r : Result F} (hdone : w.done[i]? = some (c, r))
    (hr : r ≠ .failed) : ∃ said, w.server.handled[i]? = some said ∧ Answered floats c r said := by
  have hat {handled : List (Handled F)} {done : List (Call × Result F)}
      (hall : List.Forall₂ (Handled.Answers floats) handled done) (hi : done[i]? = some (c, r)) :
      ∃ said, handled[i]? = some said ∧ Answered floats c r said := by
    obtain ⟨hlt, hget⟩ := List.getElem?_eq_some_iff.mp hi
    have hlt' : i < handled.length := hall.length_eq ▸ hlt
    have hanswers := hall.get hlt' hlt
    rw [List.get_eq_getElem, List.get_eq_getElem, hget] at hanswers
    exact ⟨_, List.getElem?_eq_getElem hlt', hanswers.2 hr⟩
  cases h with
  | idle _ _ _ _ _ handled | asking _ _ _ _ _ _ handled => exact hat handled hdone
  | replying _ said before _ _ _ _ _ last _ handled =>
    obtain ⟨said, hsaid, hanswered⟩ := hat handled hdone
    refine ⟨said, ?_, hanswered⟩
    rw [last, List.getElem?_append_left (List.getElem?_eq_some_iff.mp hsaid).1]
    exact hsaid
  | hungUp answered dropped _ _ done failed handled _ =>
    rw [done] at hdone
    by_cases hi : i < answered.length
    · rw [List.getElem?_append_left hi] at hdone
      exact hat handled hdone
    · rw [List.getElem?_append_right (not_lt.mp hi)] at hdone
      exact absurd (failed _ (List.mem_of_getElem? hdone)) hr

theorem World.taken_short {n : ℕ} {inFlight : Bytes} (h : inFlight.length ≤ 12) (hn : 12 ≤ n) :
    taken n inFlight = inFlight ∧ left n inFlight = [] :=
  ⟨List.take_of_length_le (by omega), List.drop_of_length_le (by omega)⟩

omit [Add F] [Neg F] [LT F] [DecidableLT F] in
theorem World.clientReceives_packet {c : Call} {field : Bytes} {done : List (Call × Result F)}
    (hwaiting : w.waiting = some c) (hdone : w.done = done) (hgetter : isGetter c.name = true)
    (hbuffer : w.client.buffer = []) (hp : Built w.toClient c.axisId (NAME_TO_OPCODE c.name) field) {m : ℕ}
    (hm : 12 ≤ m) : (w.clientReceives floats m).done = done ++ [(c, decode floats c.name field)] := by
  have hlength : w.toClient.length ≤ 12 := by
    have hshort := hp.short
    rw [hp.length]
    omega
  have hsome : w.toClient ≠ [] := by
    intro h
    have hlong := hp.length
    rw [h] at hlong
    simp at hlong
    omega
  rw [World.clientReceives, hwaiting]
  dsimp only
  rw [(taken_short hlength hm).1, if_neg hsome, if_pos hgetter, hbuffer, List.nil_append, hp.parse]
  dsimp only
  rw [finish_of_waiting rfl, hp.field, hdone]

omit [Add F] [Neg F] [LT F] [DecidableLT F] in
theorem World.clientReceives_ack {c : Call} {done : List (Call × Result F)} (hwaiting : w.waiting = some c)
    (hdone : w.done = done) (hcommand : isGetter c.name = false) (hack : w.toClient = ACK_REPLY) {m : ℕ} (hm : 12 ≤ m) :
    (w.clientReceives floats m).done = done ++ [(c, .acknowledged)] := by
  rw [World.clientReceives, hwaiting]
  dsimp only
  rw [hack, (taken_short (by decide) hm).1, if_neg (by decide), if_neg (by simp [hcommand]), if_pos rfl,
    finish_of_waiting rfl, hdone]

variable [Sub F] [Mul F]

theorem Inv.step (h : Inv floats w) (e : Event F) : Inv floats (w.step floats uniform e) := by
  cases e with
  | serverReceives n => exact h.serverReceives n
  | clientReceives n => exact h.clientReceives n
  | elsewhere step =>
    cases h with
    | idle connected sock waiting toServer toClient handled =>
      exact .idle connected sock waiting toServer toClient handled
    | asking c connected sock waiting toServer toClient handled =>
      exact .asking c connected sock waiting toServer toClient handled
    | replying c said before connected sock waiting toServer header last toClient handled =>
      exact .replying c said before connected sock waiting toServer header last toClient handled
    | hungUp answered dropped sock waiting done failed handled toServer =>
      exact .hungUp answered dropped sock waiting done failed handled toServer
  | call c =>
    rw [World.step]
    cases h with
    | idle connected sock waiting toServer toClient handled =>
      rw [if_neg (by simp [sock]), if_neg (by simp [waiting])]
      refine .asking c connected sock rfl (.inl ⟨?_, .inl toServer.1⟩) toClient handled
      rw [toServer.1, toServer.2]
      rfl
    | asking c' connected sock waiting toServer toClient handled =>
      rw [if_neg (by simp [sock]), if_pos (by simp [waiting])]
      exact .asking c' connected sock waiting toServer toClient handled
    | replying c' said before connected sock waiting toServer header last toClient handled =>
      rw [if_neg (by simp [sock]), if_pos (by simp [waiting])]
      exact .replying c' said before connected sock waiting toServer header last toClient handled
    | hungUp answered dropped sock waiting done failed handled toServer =>
      rw [if_pos (by simp [sock])]
      refine .hungUp answered (dropped ++ [(c, .failed)]) sock waiting (by simp [done]) (fun x hx => ?_) handled ?_
      · rcases List.mem_append.mp hx with hx | hx
        · exact failed x hx
        · exact congrArg Prod.snd (List.mem_singleton.mp hx)
      · refine toServer.imp_right fun ⟨x, rest, hdropped, honWay⟩ => ⟨x, rest ++ [(c, .failed)], ?_, honWay⟩
        rw [hdropped, List.cons_append]
  | timeout =>
    rw [World.step]
    cases h with
    | idle connected sock waiting toServer toClient handled =>
      rw [if_neg (by simp [waiting])]
      exact .idle connected sock waiting toServer toClient handled
    | asking c connected sock waiting toServer toClient handled =>
      rw [if_pos (by simp [waiting]), finish_of_waiting waiting]
      exact .hungUp w.done [(c, .failed)] rfl rfl rfl (by simp) handled (.inr ⟨_, [], rfl, toServer⟩)
    | replying c said before connected sock waiting toServer header last toClient handled =>
      rw [if_pos (by simp [waiting]), finish_of_waiting waiting]
      refine .hungUp (w.done ++ [(c, .failed)]) [] rfl rfl (List.append_nil _).symm nofun ?_ ?_
      · refine last ▸ List.rel_append handled (.cons ⟨header, fun h => absurd rfl h⟩ .nil)
      · exact .inl (by simpa [World.disconnect, toServer.1, toServer.2] using dead_nil)
    | hungUp answered dropped sock waiting done failed handled toServer =>
      rw [if_neg (by simp [waiting])]
      exact .hungUp answered dropped sock waiting done failed handled toServer
  | disconnect =>
    rw [World.step]
    cases h with
    | idle connected sock waiting toServer toClient handled =>
      rw [if_neg (by simp [waiting])]
      refine .hungUp w.done [] rfl waiting (List.append_nil _).symm nofun handled (.inl ?_)
      simpa [World.disconnect, toServer.1, toServer.2] using dead_nil
    | asking c connected sock waiting toServer toClient handled =>
      rw [if_pos (by simp [waiting])]
      exact .asking c connected sock waiting toServer toClient handled
    | replying c said before connected sock waiting toServer header last toClient handled =>
      rw [if_pos (by simp [waiting])]
      exact .replying c said before connected sock waiting toServer header last toClient handled
    | hungUp answered dropped sock waiting done failed handled toServer =>
      rw [if_neg (by simp [waiting])]
      exact .hungUp answered dropped rfl waiting done failed handled toServer

theorem Inv.run (h : Inv floats w) (events : List (Event F)) : Inv floats (w.run floats uniform events) := by
  induction events generalizing w with
  | nil => exact h
  | cons e events ih => exact ih (h.step e)

/-- A call whose packet and reply arrive whole returns the answer to it. -/
theorem Inv.exchange (h : Inv floats w) (hsock : w.client.sock = true) (hidle : w.waiting = none) (c : Call) {n m : ℕ}
    (hn : 12 ≤ n) (hm : 12 ≤ m) {r : Result F}
    (hr : Answered floats c r ⟨w.sim, uniform w.server.handled.length, c.header⟩) :
    (w.run floats uniform [.call c, .serverReceives n, .clientReceives m]).done = w.done ++ [(c, r)] := by
  cases h with
  | asking c' _ _ waiting _ _ _ | replying c' _ _ _ _ waiting _ _ _ _ _ =>
    rw [hidle] at waiting
    cases waiting
  | hungUp _ _ sock _ _ _ _ _ =>
    rw [hsock] at sock
    cases sock
  | idle connected _ _ toServer toClient _ =>
    set said : Handled F := ⟨w.sim, uniform w.server.handled.length, c.header⟩
    have hasked : w.step floats uniform (.call c) = { w with toServer := c.packet, waiting := some c } := by
      rw [World.step, if_neg (by simp [hsock]), if_neg (by simp [hidle]), toServer.2, List.nil_append]
    have hpacket : c.packet.length ≤ 12 := by
      have hshort := c.built.short
      rw [c.built.length]
      omega
    have hsome : c.packet ≠ [] := by
      obtain ⟨checksum, heq⟩ := c.built.eq
      rw [heq]
      nofun
    have hhandled : ({ w with toServer := c.packet, waiting := some c } : World F).serverReceives floats uniform n =
        { w with
          sim := (handle floats said.uniform w.sim c.header.1 c.header.2.1 c.header.2.2).1
          server := { w.server with buffer := [], handled := w.server.handled ++ [said] }
          toServer := []
          toClient := said.reply floats
          waiting := some c } := by
      rw [serverReceives_eq { w with toServer := c.packet, waiting := some c } n connected hsome]
      dsimp only
      rw [(taken_short hpacket hn).1, (taken_short hpacket hn).2, toServer.1, List.nil_append]
      refine (handlePackets_call hsome c.built.parse).trans ?_
      rw [toClient.2, List.nil_append]
    rw [World.run, List.foldl_cons, hasked, List.foldl_cons, World.step, hhandled, List.foldl_cons, List.foldl_nil,
      World.step]
    have hreply : said.reply floats =
        (handle floats said.uniform w.sim c.axisId (NAME_TO_OPCODE c.name) c.data).2 := rfl
    obtain ⟨-, hr⟩ := hr
    cases hanswer : answer floats said.uniform w.sim c.axisId (NAME_TO_OPCODE c.name) c.data with
    | none =>
      rw [hanswer] at hr
      exact hr.elim
    | some answered =>
      obtain ⟨after, field⟩ := answered
      rw [hanswer] at hr
      cases field with
      | none =>
        obtain ⟨hcommand, rfl⟩ := hr
        refine World.clientReceives_ack rfl rfl hcommand ?_ hm
        change said.reply floats = ACK_REPLY
        rw [hreply, handle, hanswer]
      | some field =>
        obtain rfl : r = decode floats c.name field := hr
        have hgetter : isGetter c.name = true := by
          by_contra hcommand
          obtain ⟨after', hack⟩ := answer_command floats w.sim c (Bool.eq_false_iff.mpr hcommand) said.uniform
          cases hanswer.symm.trans hack
        have hbuilt : Built (said.reply floats) c.axisId (NAME_TO_OPCODE c.name) field :=
          handle_field hanswer (NAME_TO_OPCODE_lt c.name)
        refine World.clientReceives_packet rfl rfl hgetter ?_ hbuilt hm
        exact toClient.1

/-- Whatever happens between and however the bytes arrive: the simulator handles what the client asks of it, each packet
once and in order; a call that does not fail returns what its own packet was answered with; and one whose bytes arrive
whole does return it. -/
theorem conversation (floats : FloatBytes F) (uniform : ℕ → F → F → F) (sim : Simulator F) (events : List (Event F)) :
    let w := ({ sim } : World F).run floats uniform events
    w.server.handled.map Handled.header <+: w.asked.map Call.header ∧
      (∀ (i : ℕ) (c : Call) (r : Result F), w.done[i]? = some (c, r) → r ≠ .failed →
        ∃ said, w.server.handled[i]? = some said ∧ Answered floats c r said) ∧
      ∀ (c : Call) (n m : ℕ) (r : Result F), w.client.sock = true → w.waiting = none → 12 ≤ n → 12 ≤ m →
        Answered floats c r ⟨w.sim, uniform w.server.handled.length, c.header⟩ →
          (w.run floats uniform [.call c, .serverReceives n, .clientReceives m]).done = w.done ++ [(c, r)] := by
  intro w
  have hinv : Inv floats w := (inv_start floats sim).run events
  exact ⟨hinv.headers, fun i c r hdone hr => hinv.answers hdone hr,
    fun c n m r hsock hidle hn hm hr => hinv.exchange hsock hidle c hn hm hr⟩

end

/-- Axis 1 is turned on, and its error register read: it is on, and its motion complete. -/
theorem conversation_readBack :
    let floats : FloatBytes ℚ := ⟨fun _ => none, fun _ => some 0, nofun, fun _ => rfl⟩
    let uniform : ℕ → ℚ → ℚ → ℚ := fun _ low _ => low
    let on : Call := ⟨.MOT_AxisOn, 1, [], rfl⟩
    let readBack : Call := ⟨.ERR_CaptureMotorErrorRegister, 1, [], rfl⟩
    let w := ({ sim := Simulator.start } : World ℚ).run floats uniform
      [.call on, .serverReceives 12, .clientReceives 12]
    w.server.handled.map Handled.header = [on.header] ∧
      (w.run floats uniform [.call readBack, .serverReceives 12, .clientReceives 12]).done =
        [(on, .acknowledged), (readBack, .word 6)] := by
  intro floats uniform on readBack w
  obtain ⟨-, -, hdone⟩ := conversation floats uniform Simulator.start
    [.call on, .serverReceives 12, .clientReceives 12]
  have hfirst : w.done = [(on, .acknowledged)] := by decide
  have hregister : (answer floats (uniform w.server.handled.length) w.sim readBack.axisId
      (NAME_TO_OPCODE readBack.name) readBack.data).map Prod.snd = some (some [0, 6]) := by decide +kernel
  obtain ⟨⟨sim, field⟩, hanswer, hfield⟩ := Option.map_eq_some_iff.mp hregister
  obtain rfl : field = some [0, 6] := hfield
  have hdecode : .word 6 = decode floats readBack.name [0, 6] := by decide
  have hread : Answered floats readBack (.word 6) ⟨w.sim, uniform w.server.handled.length, readBack.header⟩ := by
    refine ⟨rfl, ?_⟩
    dsimp only
    rw [hanswer]
    exact hdecode
  refine ⟨by decide, ?_⟩
  have hsecond := hdone readBack 12 12 (.word 6) (by decide) (by decide) le_rfl le_rfl hread
  exact hsecond.trans (congrArg (· ++ _) hfirst)

end Kanat.MotionConversation
