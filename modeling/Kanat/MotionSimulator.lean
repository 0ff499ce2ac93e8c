import Kanat.MotionProtocol
import Mathlib.Algebra.Order.Field.Basic
import Mathlib.Data.Rat.Cast.Order
import Mathlib.Tactic.Linarith
import Mathlib.Tactic.NormNum

/-! # The motion simulator's axes, and what it answers to a packet (motion_simulator.py)

Numbers are whatever Python's floats are modelled by: `Float`, or a field when they are taken to be exact. -/
namespace Kanat.MotionSimulator
open MotionProtocol

/-- The opcodes that the simulator or its client names. -/
inductive Name where
  | COM_Connect | LRF_SetRange | LRF_GetRange | DG_SetSyncMode | DG_SetInnerMode
  | MOT_GetLoadPosition | MOT_GetMotorSpeed | MOT_GetMotorVoltage | MOT_GetMotorCurrent
  | ERR_CaptureMotorErrorRegister | DG_GetBallisticOffset
  | MOT_SetPositionAbsolute | MOT_SetPositionRelative | MOT_SetSpeed | MOT_SetAcceleration
  | MOT_AxisOn | MOT_AxisOff | MOT_AxisReset | DG_SetBallisticOffset | MOT_SetPositionMode | MOT_Update
  deriving DecidableEq

def NAME_TO_OPCODE : Name → ℕ
  | .COM_Connect => 0x0702
  | .LRF_SetRange => 0x0300
  | .LRF_GetRange => 0x0301
  | .DG_SetSyncMode => 0x0FA0
  | .DG_SetInnerMode => 0x0FA1
  | .MOT_GetLoadPosition => 0x0109
  | .MOT_GetMotorSpeed => 0x010A
  | .MOT_GetMotorVoltage => 0x0107
  | .MOT_GetMotorCurrent => 0x0106
  | .ERR_CaptureMotorErrorRegister => 0x0E0B
  | .DG_GetBallisticOffset => 0x0FBE
  | .MOT_SetPositionAbsolute => 0x0139
  | .MOT_SetPositionRelative => 0x0138
  | .MOT_SetSpeed => 0x0131
  | .MOT_SetAcceleration => 0x0130
  | .MOT_AxisOn => 0x013C
  | .MOT_AxisOff => 0x013D
  | .MOT_AxisReset => 0x013E
  | .DG_SetBallisticOffset => 0x0FBD
  | .MOT_SetPositionMode => 0x013B
  | .MOT_Update => 0x0134

theorem NAME_TO_OPCODE_injective : Function.Injective NAME_TO_OPCODE := by
  intro a b h
  cases a <;> cases b <;> first | rfl | exact absurd h (by decide)

theorem NAME_TO_OPCODE_lt (name : Name) : NAME_TO_OPCODE name < 0x1000 := by
  cases name <;> decide

def ACK_REPLY : Bytes := [0x06]

/-- `struct`'s big-endian floats: `none` where it raises. -/
structure FloatBytes (F : Type) where
  pack : F → Option Bytes
  unpack : Bytes → Option F
  length_pack : ∀ {x data}, pack x = some data → data.length = 4
  unpack_isSome : ∀ {data}, data.length = 4 → (unpack data).isSome

def packWord (word : UInt16) : Bytes := [(word >>> 8).toUInt8, word.toUInt8]

def unpackWord : Bytes → Option UInt16
  | [high, low] => some (high.toUInt16 <<< 8 ||| low.toUInt16)
  | _ => none

section
variable {F : Type} [Add F] [Sub F] [Mul F] [Neg F] [LT F] [DecidableLT F] [OfScientific F]

/-- `abs`, `min` and `max`. -/
def pyAbs (x : F) : F := if x < 0.0 then -x else x
def pyMin (x y : F) : F := if y < x then y else x
def pyMax (x y : F) : F := if x < y then y else x

def SIM_UPDATE_INTERVAL : F := 0.01

structure SimpleAxis (F : Type) [OfScientific F] where
  axisId : UInt8
  currentPosition : F := 0.0
  currentSpeed : F := 0.0
  targetPosition : F := 0.0
  maxSpeed : F := 10.0
  acceleration : F := 20.0
  isOn : Bool := false
  isFaulted : Bool := false
  isMotionComplete : Bool := true
  ballisticOffset : F := 0.0

namespace SimpleAxis

def update (a : SimpleAxis F) : SimpleAxis F :=
  if !a.isOn || a.isFaulted then { a with currentSpeed := 0.0, isMotionComplete := true }
  else
    let delta := a.targetPosition - a.currentPosition
    if pyAbs delta < 0.01 then
      { a with currentSpeed := 0.0, currentPosition := a.targetPosition, isMotionComplete := true }
    else
      let moveStep := a.maxSpeed * SIM_UPDATE_INTERVAL
      if delta > 0.0 then
        let step := pyMin moveStep delta
        { a with currentPosition := a.currentPosition + step, currentSpeed := a.maxSpeed, isMotionComplete := false }
      else
        let step := pyMax (-moveStep) delta
        { a with currentPosition := a.currentPosition + step, currentSpeed := -a.maxSpeed, isMotionComplete := false }

def setTargetAbs (pos : F) (a : SimpleAxis F) : SimpleAxis F :=
  { a with targetPosition := pos, isMotionComplete := false }

def setTargetRel (relPos : F) (a : SimpleAxis F) : SimpleAxis F :=
  { a with targetPosition := a.targetPosition + relPos, isMotionComplete := false }

def setSpeed (speed : F) (a : SimpleAxis F) : SimpleAxis F := { a with maxSpeed := pyAbs speed }

def setAccel (accel : F) (a : SimpleAxis F) : SimpleAxis F := { a with acceleration := pyAbs accel }

def setAxisOn (a : SimpleAxis F) : SimpleAxis F := { a with isOn := true, isFaulted := false }

def setAxisOff (a : SimpleAxis F) : SimpleAxis F := { a with isOn := false, currentSpeed := 0.0 }

def setAxisReset (a : SimpleAxis F) : SimpleAxis F := { a with isFaulted := false }

def setBallisticOffset (offset : F) (a : SimpleAxis F) : SimpleAxis F := { a with ballisticOffset := offset }

variable (uniform : F → F → F)

def getVoltage : F := 24.0 + uniform (-0.2) 0.2

def getCurrent (a : SimpleAxis F) : F :=
  let baseCurrent := 1.0 + uniform (-0.5) 0.5
  let baseCurrent := if pyAbs a.currentSpeed > 0.01 then baseCurrent + 0.5 else baseCurrent
  pyMax 0.0 baseCurrent

def getErrorRegister (a : SimpleAxis F) : UInt16 :=
  (if a.isFaulted then 0x0001 else 0) ||| (if a.isOn then 0x0002 else 0) |||
    (if a.isMotionComplete then 0x0004 else 0) ||| (if a.getCurrent uniform > 2.0 then 0x0080 else 0) |||
    if a.axisId = 5 then 0x8000 else 0

end SimpleAxis

/-- The simulator's state, which every connection and the simulation loop share. -/
structure Simulator (F : Type) [OfScientific F] where
  simulatedAxes : UInt8 → Option (SimpleAxis F)
  simulatedLrfRange : F := 0.0
  isSyncMode : Bool := false
  isInnerMode : Bool := false

def SIMULATED_AXES : List UInt8 := [1, 2, 4, 5]

/-- As it starts: every axis there is, and off. -/
def Simulator.start : Simulator F where
  simulatedAxes id := if id ∈ SIMULATED_AXES then some { axisId := id } else none

def Simulator.setAxis (sim : Simulator F) (axis : SimpleAxis F) (id : UInt8) : Simulator F :=
  { sim with simulatedAxes := Function.update sim.simulatedAxes id (some axis) }

/-- One axis's turn in the simulation loop. -/
def Simulator.tick (sim : Simulator F) (id : UInt8) : Simulator F :=
  match sim.simulatedAxes id with
  | none => sim
  | some axis => sim.setAxis axis.update id

variable (floats : FloatBytes F) (uniform : F → F → F)

/-- The system's opcodes: the state after, and a reply's data where there is any. -/
def answerSystem (sim : Simulator F) (opcode : ℕ) (data : Bytes) : Option (Simulator F × Option Bytes) :=
  if opcode = NAME_TO_OPCODE .COM_Connect then some (sim, none)
  else if opcode = NAME_TO_OPCODE .LRF_GetRange then
    (floats.pack sim.simulatedLrfRange).map fun range => (sim, some range)
  else if opcode = NAME_TO_OPCODE .LRF_SetRange then
    (floats.unpack data).map fun range => ({ sim with simulatedLrfRange := range }, none)
  else if opcode = NAME_TO_OPCODE .DG_SetSyncMode then
    (unpackWord data).map fun (val : UInt16) => ({ sim with isSyncMode := val ≠ 0, isInnerMode := false }, none)
  else if opcode = NAME_TO_OPCODE .DG_SetInnerMode then
    (unpackWord data).map fun (val : UInt16) => ({ sim with isInnerMode := val ≠ 0 }, none)
  else some (sim, none)

/-- What one of the axis's getters packs. -/
def reading (axis : SimpleAxis F) (opcode : ℕ) : Option (Option Bytes) :=
  if opcode = NAME_TO_OPCODE .MOT_GetLoadPosition then some (floats.pack axis.currentPosition)
  else if opcode = NAME_TO_OPCODE .MOT_GetMotorSpeed then some (floats.pack axis.currentSpeed)
  else if opcode = NAME_TO_OPCODE .MOT_GetMotorVoltage then some (floats.pack (SimpleAxis.getVoltage uniform))
  else if opcode = NAME_TO_OPCODE .MOT_GetMotorCurrent then some (floats.pack (axis.getCurrent uniform))
  else if opcode = NAME_TO_OPCODE .ERR_CaptureMotorErrorRegister then
    some (some (packWord (axis.getErrorRegister uniform)))
  else if opcode = NAME_TO_OPCODE .DG_GetBallisticOffset then some (floats.pack axis.ballisticOffset)
  else none

/-- What one of the axis's setters leaves of it, `none` where its data cannot be unpacked. -/
def commanded (axis : SimpleAxis F) (axisId : UInt8) (opcode : ℕ) (data : Bytes) : Option (SimpleAxis F) :=
  if opcode = NAME_TO_OPCODE .MOT_SetPositionAbsolute then (floats.unpack data).map axis.setTargetAbs
  else if opcode = NAME_TO_OPCODE .MOT_SetPositionRelative then (floats.unpack data).map axis.setTargetRel
  else if opcode = NAME_TO_OPCODE .MOT_SetSpeed then (floats.unpack data).map axis.setSpeed
  else if opcode = NAME_TO_OPCODE .MOT_SetAcceleration then (floats.unpack data).map axis.setAccel
  else if opcode = NAME_TO_OPCODE .MOT_AxisOn then some axis.setAxisOn
  else if opcode = NAME_TO_OPCODE .MOT_AxisOff then some axis.setAxisOff
  else if opcode = NAME_TO_OPCODE .MOT_AxisReset then some axis.setAxisReset
  else if opcode = NAME_TO_OPCODE .DG_SetBallisticOffset then
    if axisId ∈ [1, 2] then (floats.unpack data).map axis.setBallisticOffset else some axis
  -- the position mode, the update and every unhandled opcode
  else some axis

def answerAxis (sim : Simulator F) (axis : SimpleAxis F) (axisId : UInt8) (opcode : ℕ) (data : Bytes) :
    Option (Simulator F × Option Bytes) :=
  match reading floats uniform axis opcode with
  | some packed => packed.map fun field => (sim, some field)
  | none => (commanded floats axis axisId opcode data).map fun axis => (sim.setAxis axis axisId, none)

/-- `none` is whatever the handler raises. -/
def answer (sim : Simulator F) (axisId : UInt8) (opcode : ℕ) (data : Bytes) : Option (Simulator F × Option Bytes) :=
  if axisId = 0 then answerSystem floats sim opcode data
  else
    match sim.simulatedAxes axisId with
    | some axis => answerAxis floats uniform sim axis axisId opcode data
    | none => some (sim, none)

/-- The state after a packet, and what is sent for it: an exception is acknowledged too. -/
def handle (sim : Simulator F) (axisId : UInt8) (opcode : ℕ) (data : Bytes) : Simulator F × Bytes :=
  match answer floats uniform sim axisId opcode data with
  | none => (sim, ACK_REPLY)
  | some (sim, none) => (sim, ACK_REPLY)
  | some (sim, some field) => (sim, (buildPacket 0x00 axisId opcode field).getD ACK_REPLY)

end

/-- `struct`'s `>f`. -/
def structFloat : FloatBytes Float where
  pack x :=
    let single := x.toFloat32
    let bits := single.toBits
    if single.isInf && !x.isInf then none
    else some [(bits >>> 24).toUInt8, (bits >>> 16).toUInt8, (bits >>> 8).toUInt8, bits.toUInt8]
  unpack
    | [a, b, c, d] => some (Float32.ofBits
        (a.toUInt32 <<< 24 ||| b.toUInt32 <<< 16 ||| c.toUInt32 <<< 8 ||| d.toUInt32)).toFloat
    | _ => none
  length_pack h := by
    dsimp only at h
    split at h
    · cases h
    · obtain rfl := Option.some.inj h
      rfl
  unpack_isSome h := by
    obtain ⟨a, b, c, d, rfl⟩ := List.length_eq_four.mp h
    rfl

section
variable {F : Type} [Add F] [Neg F] [LT F] [DecidableLT F] [OfScientific F]

/-- A turn of the simulation loop, or a packet on any connection. -/
inductive Step (F : Type) where
  | tick (id : UInt8)
  | packet (uniform : F → F → F) (axisId : UInt8) (opcode : ℕ) (data : Bytes)

def Step.ticks (id : UInt8) : Step F → Bool
  | .tick id' => id' = id
  | .packet .. => false

/-- What sets the axis another course or stops it. -/
def Step.redirects (id : UInt8) : Step F → Bool
  | .tick _ => false
  | .packet _ axisId opcode _ => axisId = id ∧ opcode ∈ [Name.MOT_SetPositionAbsolute, .MOT_SetPositionRelative,
      .MOT_SetSpeed, .MOT_AxisOff].map NAME_TO_OPCODE

variable [Sub F] [Mul F] in
def Simulator.step (floats : FloatBytes F) (sim : Simulator F) : Step F → Simulator F
  | .tick id => sim.tick id
  | .packet uniform axisId opcode data => (handle floats uniform sim axisId opcode data).1

variable [Sub F] [Mul F] in
def Simulator.run (floats : FloatBytes F) (sim : Simulator F) (steps : List (Step F)) : Simulator F :=
  steps.foldl (Simulator.step floats) sim

variable {floats : FloatBytes F} {uniform : F → F → F} {sim : Simulator F}

omit [Add F] [Neg F] [LT F] [DecidableLT F] in
theorem axes_setAxis_self (axis : SimpleAxis F) (id : UInt8) : (sim.setAxis axis id).simulatedAxes id = some axis :=
  Function.update_self ..

omit [Add F] [Neg F] [LT F] [DecidableLT F] in
theorem axes_setAxis_of_ne (axis : SimpleAxis F) {id id' : UInt8} (h : id ≠ id') :
    (sim.setAxis axis id').simulatedAxes id = sim.simulatedAxes id :=
  Function.update_of_ne h ..

omit [Add F] [Neg F] [LT F] [DecidableLT F] in
private theorem axes_answerSystem {opcode : ℕ} {data : Bytes} {after : Simulator F × Option Bytes}
    (h : answerSystem floats sim opcode data = some after) : after.1.simulatedAxes = sim.simulatedAxes := by
  unfold answerSystem at h
  split_ifs at h
  · obtain rfl := Option.some.inj h
    rfl
  all_goals
    first
      | obtain ⟨_, -, rfl⟩ := Option.map_eq_some_iff.mp h
        rfl
      | obtain rfl := Option.some.inj h
        rfl

theorem handle_fst (axisId : UInt8) (opcode : ℕ) (data : Bytes) : (handle floats uniform sim axisId opcode data).1 =
    ((answer floats uniform sim axisId opcode data).map Prod.fst).getD sim := by
  unfold handle
  split
  · next h => rw [h]; rfl
  · next h => rw [h]; rfl
  · next h => rw [h]; rfl

/-- A packet changes no axis but its own, and that one as the command says. -/
theorem axes_handle (floats : FloatBytes F) (uniform : F → F → F) (sim : Simulator F) (id axisId : UInt8) (opcode : ℕ)
    (data : Bytes) : (handle floats uniform sim axisId opcode data).1.simulatedAxes id = sim.simulatedAxes id ∨
      axisId = id ∧ ∃ axis after, sim.simulatedAxes id = some axis ∧
        commanded floats axis axisId opcode data = some after ∧
        (handle floats uniform sim axisId opcode data).1.simulatedAxes id = some after := by
  rw [handle_fst]
  cases hanswer : answer floats uniform sim axisId opcode data with
  | none => exact .inl rfl
  | some after =>
    change after.1.simulatedAxes id = _ ∨ _
    unfold answer at hanswer
    split at hanswer
    · exact .inl (congrFun (axes_answerSystem hanswer) id)
    · split at hanswer
      · next axis haxis =>
        unfold answerAxis at hanswer
        split at hanswer
        · obtain ⟨_, -, rfl⟩ := Option.map_eq_some_iff.mp hanswer
          exact .inl rfl
        · obtain ⟨left, hleft, rfl⟩ := Option.map_eq_some_iff.mp hanswer
          by_cases hid : axisId = id
          · subst hid
            exact .inr ⟨rfl, axis, left, haxis, hleft, axes_setAxis_self left axisId⟩
          · exact .inl (axes_setAxis_of_ne left (Ne.symm hid))
      · obtain rfl := Option.some.inj hanswer
        exact .inl rfl

/-- What does not redirect an axis that is on changes at most what its motion does not depend on. -/
theorem commanded_course {axis after : SimpleAxis F} {axisId : UInt8} {opcode : ℕ} {data : Bytes}
    (hon : axis.isOn = true) (hfault : axis.isFaulted = false)
    (hkeeps : (Step.packet uniform axisId opcode data).redirects axisId = false)
    (h : commanded floats axis axisId opcode data = some after) :
    ∃ acceleration ballisticOffset, after = { axis with acceleration, ballisticOffset } := by
  simp only [Step.redirects, true_and, decide_eq_false_iff_not, List.map_cons, List.map_nil, List.mem_cons,
    List.not_mem_nil, or_false, not_or] at hkeeps
  obtain ⟨habs, hrel, hspeed, hoff⟩ := hkeeps
  unfold commanded at h
  rw [if_neg habs, if_neg hrel, if_neg hspeed, if_neg hoff] at h
  split_ifs at h
  · obtain ⟨accel, -, rfl⟩ := Option.map_eq_some_iff.mp h
    exact ⟨pyAbs accel, axis.ballisticOffset, rfl⟩
  · obtain rfl := Option.some.inj h
    exact ⟨axis.acceleration, axis.ballisticOffset, by rw [SimpleAxis.setAxisOn, ← hon, ← hfault]⟩
  · obtain rfl := Option.some.inj h
    exact ⟨axis.acceleration, axis.ballisticOffset, by rw [SimpleAxis.setAxisReset, ← hfault]⟩
  · obtain ⟨offset, -, rfl⟩ := Option.map_eq_some_iff.mp h
    exact ⟨axis.acceleration, offset, rfl⟩
  · obtain rfl := Option.some.inj h
    exact ⟨axis.acceleration, axis.ballisticOffset, rfl⟩
  · obtain rfl := Option.some.inj h
    exact ⟨axis.acceleration, axis.ballisticOffset, rfl⟩

end

section
variable {K : Type} [Field K] [LinearOrder K] [IsStrictOrderedRing K]

private theorem pyAbs_eq (x : K) : pyAbs x = |x| := by
  unfold pyAbs
  norm_num
  split_ifs with h
  · exact (abs_of_neg h).symm
  · exact (abs_of_nonneg (not_lt.mp h)).symm

omit [Field K] [IsStrictOrderedRing K] in
private theorem pyMin_eq (x y : K) : pyMin x y = min x y := by
  rw [pyMin, min_comm, min_def_lt]

omit [Field K] [IsStrictOrderedRing K] in
private theorem pyMax_eq (x y : K) : pyMax x y = max x y := (max_def_lt x y).symm

/-- A turn brings an axis nearer to its target by a whole step or all the way, never past it, and reports the motion
complete only there. -/
theorem update_approaches {axis : SimpleAxis K} (hon : axis.isOn = true) (hfault : axis.isFaulted = false)
    (hspeed : 0 ≤ axis.maxSpeed) :
    axis.update.currentPosition ∈ Set.uIcc axis.currentPosition axis.targetPosition ∧
      |axis.targetPosition - axis.update.currentPosition| ≤
        max (|axis.targetPosition - axis.currentPosition| - axis.maxSpeed * SIM_UPDATE_INTERVAL) 0 ∧
      (axis.update.isMotionComplete = true → axis.update.currentPosition = axis.targetPosition) ∧
      (axis.currentPosition = axis.targetPosition →
        axis.update.isMotionComplete = true ∧ axis.update.currentSpeed = 0) := by
  have hstep : 0 ≤ axis.maxSpeed * (SIM_UPDATE_INTERVAL : K) := mul_nonneg hspeed (by norm_num [SIM_UPDATE_INTERVAL])
  set step : K := axis.maxSpeed * SIM_UPDATE_INTERVAL with hs
  unfold SimpleAxis.update
  rw [hon, hfault, if_neg (by decide)]
  simp only [pyAbs_eq, pyMin_eq, pyMax_eq, ← hs]
  split_ifs with hnear hright
  · exact ⟨Set.right_mem_uIcc, by simp, fun _ => rfl, fun _ => ⟨rfl, by norm_num⟩⟩
  · have hdelta : 0 < axis.targetPosition - axis.currentPosition := by norm_num at hright; linarith
    have hmin : 0 ≤ min step (axis.targetPosition - axis.currentPosition) := le_min hstep hdelta.le
    have hle := min_le_right step (axis.targetPosition - axis.currentPosition)
    refine ⟨Set.mem_uIcc_of_le (by dsimp only; linarith) (by dsimp only; linarith), ?_, nofun,
      fun heq => absurd heq (by linarith)⟩
    rw [abs_of_nonneg (by linarith), abs_of_pos hdelta, ← sub_sub, sub_le_iff_le_add, max_add]
    rcases le_total step (axis.targetPosition - axis.currentPosition) with h | h
    · rw [min_eq_left h]
      exact le_max_of_le_left (by linarith)
    · rw [min_eq_right h]
      exact le_max_of_le_right (by linarith)
  · have hdelta : axis.targetPosition - axis.currentPosition ≤ 0 := by norm_num at hright; linarith
    have hmax : max (-step) (axis.targetPosition - axis.currentPosition) ≤ 0 := max_le (by linarith) hdelta
    have hle := le_max_right (-step) (axis.targetPosition - axis.currentPosition)
    refine ⟨Set.mem_uIcc_of_ge (by dsimp only; linarith) (by dsimp only; linarith), ?_, nofun, fun heq => ?_⟩
    · rw [abs_of_nonpos (by linarith), abs_of_nonpos hdelta]
      rcases le_total (-step) (axis.targetPosition - axis.currentPosition) with h | h
      · rw [max_eq_right h]
        exact le_max_of_le_right (by linarith)
      · rw [max_eq_left h]
        exact le_max_of_le_left (by linarith)
    · rw [heq, sub_self, abs_zero] at hnear
      norm_num at hnear

/-- How far an axis that went out from `origin` has come in `k` of its turns. -/
structure OnCourse (origin axis : SimpleAxis K) (k : ℕ) : Prop where
  on : axis.isOn = true
  sound : axis.isFaulted = false
  target : axis.targetPosition = origin.targetPosition
  speed : axis.maxSpeed = origin.maxSpeed
  between : axis.currentPosition ∈ Set.uIcc origin.currentPosition origin.targetPosition
  nearer : |origin.targetPosition - axis.currentPosition| ≤
    max (|origin.targetPosition - origin.currentPosition| - k * (origin.maxSpeed * SIM_UPDATE_INTERVAL)) 0
  arrived : 0 < k → axis.isMotionComplete = true → axis.currentPosition = origin.targetPosition
  settled : 0 < k → |origin.targetPosition - origin.currentPosition| ≤
    (k - 1 : ℕ) * (origin.maxSpeed * SIM_UPDATE_INTERVAL) → axis.isMotionComplete = true ∧ axis.currentSpeed = 0

variable {origin axis : SimpleAxis K} {k : ℕ}

private theorem onCourse_origin (hon : axis.isOn = true) (hfault : axis.isFaulted = false) : OnCourse axis axis 0 where
  on := hon
  sound := hfault
  target := rfl
  speed := rfl
  between := Set.left_mem_uIcc
  nearer := by simp
  arrived := nofun
  settled := nofun

omit [IsStrictOrderedRing K] in
private theorem update_course (axis : SimpleAxis K) (hon : axis.isOn = true) (hfault : axis.isFaulted = false) :
    axis.update.isOn = true ∧ axis.update.isFaulted = false ∧
      axis.update.targetPosition = axis.targetPosition ∧ axis.update.maxSpeed = axis.maxSpeed := by
  unfold SimpleAxis.update
  rw [hon, hfault, if_neg (by decide)]
  dsimp only
  split_ifs <;> exact ⟨rfl, rfl, rfl, rfl⟩

theorem OnCourse.update (h : OnCourse origin axis k) (hspeed : 0 ≤ origin.maxSpeed) :
    OnCourse origin axis.update (k + 1) := by
  obtain ⟨hbetween, hnearer, hcomplete, hsettled⟩ := update_approaches h.on h.sound (h.speed ▸ hspeed)
  obtain ⟨hon, hfault, htarget, hmax⟩ := update_course axis h.on h.sound
  rw [h.target] at hbetween hnearer hcomplete hsettled htarget
  rw [h.speed] at hnearer hmax
  set step : K := origin.maxSpeed * SIM_UPDATE_INTERVAL
  have hstep : 0 ≤ step := mul_nonneg hspeed (by norm_num [SIM_UPDATE_INTERVAL])
  refine ⟨hon, hfault, htarget, hmax, ?_, ?_, fun _ => hcomplete, fun _ hfar => ?_⟩
  · exact Set.uIcc_subset_uIcc_right h.between hbetween
  · refine hnearer.trans (max_le ?_ (le_max_right _ _))
    rcases le_max_iff.mp h.nearer with hway | hthere
    · refine le_max_of_le_left ?_
      push_cast
      linarith
    · exact le_max_of_le_right (by linarith)
  · have hthere : |origin.targetPosition - axis.currentPosition| ≤ 0 := by
      refine h.nearer.trans (max_le ?_ le_rfl)
      rw [Nat.add_sub_cancel] at hfar
      linarith
    exact hsettled (by linarith [abs_nonpos_iff.mp hthere])

variable {floats : FloatBytes K} {id : UInt8}

theorem OnCourse.step {sim : Simulator K} (h : OnCourse origin axis k) (hspeed : 0 ≤ origin.maxSpeed)
    (haxis : sim.simulatedAxes id = some axis) {step : Step K} (hkeeps : step.redirects id = false) :
    ∃ after, (sim.step floats step).simulatedAxes id = some after ∧
      OnCourse origin after (k + if step.ticks id then 1 else 0) := by
  cases step with
  | tick id' =>
    by_cases hid : id' = id
    · subst hid
      refine ⟨axis.update, ?_, ?_⟩
      · rw [Simulator.step, Simulator.tick, haxis]
        exact axes_setAxis_self _ _
      · rw [Step.ticks, if_pos (by simp)]
        exact h.update hspeed
    · refine ⟨axis, ?_, ?_⟩
      · rw [Simulator.step, Simulator.tick]
        split
        · exact haxis
        · exact (axes_setAxis_of_ne _ (Ne.symm hid)).trans haxis
      · rw [Step.ticks, if_neg (by simpa using hid)]
        exact h
  | packet uniform axisId opcode data =>
    change ∃ after, (handle floats uniform sim axisId opcode data).1.simulatedAxes id = some after ∧
      OnCourse origin after k
    rcases axes_handle floats uniform sim id axisId opcode data with
      hsame | ⟨hid, before, after, hbefore, hafter, hleft⟩
    · exact ⟨axis, hsame.trans haxis, h⟩
    · subst hid
      obtain rfl := Option.some.inj (haxis.symm.trans hbefore)
      obtain ⟨acceleration, ballisticOffset, hcourse⟩ := commanded_course h.on h.sound hkeeps hafter
      subst hcourse
      exact ⟨_, hleft, ⟨h.on, h.sound, h.target, h.speed, h.between, h.nearer, h.arrived, h.settled⟩⟩

theorem OnCourse.run {sim : Simulator K} (h : OnCourse origin axis k) (hspeed : 0 ≤ origin.maxSpeed)
    (haxis : sim.simulatedAxes id = some axis) {steps : List (Step K)}
    (hkeeps : ∀ step ∈ steps, step.redirects id = false) :
    ∃ after, (sim.run floats steps).simulatedAxes id = some after ∧
      OnCourse origin after (k + steps.countP fun step => step.ticks id) := by
  induction steps generalizing sim axis k with
  | nil => exact ⟨axis, haxis, h⟩
  | cons step steps ih =>
    obtain ⟨after, hafter, hcourse⟩ := h.step hspeed haxis (hkeeps step List.mem_cons_self)
    obtain ⟨last, hlast, hrest⟩ := ih hcourse hafter fun step' hstep' => hkeeps step' (List.mem_cons_of_mem _ hstep')
    refine ⟨last, hlast, ?_⟩
    rw [List.countP_cons, Nat.add_comm (List.countP _ _), ← Nat.add_assoc]
    exact hrest

/-- An axis that is on is brought to its target whatever else the simulator is asked: a step nearer each turn, never
past it, its motion complete only there, and there within as many turns as it has steps to go. -/
theorem axis_arrives (floats : FloatBytes K) (sim : Simulator K) (id : UInt8) (axis : SimpleAxis K)
    (haxis : sim.simulatedAxes id = some axis) (hon : axis.isOn = true) (hfault : axis.isFaulted = false)
    (hspeed : 0 ≤ axis.maxSpeed) (steps : List (Step K)) (hkeeps : ∀ step ∈ steps, step.redirects id = false) :
    let turns := steps.countP fun step => step.ticks id
    let way := |axis.targetPosition - axis.currentPosition|
    let perTurn := axis.maxSpeed * SIM_UPDATE_INTERVAL
    ∃ after, (sim.run floats steps).simulatedAxes id = some after ∧ after.targetPosition = axis.targetPosition ∧
      after.currentPosition ∈ Set.uIcc axis.currentPosition axis.targetPosition ∧
      |axis.targetPosition - after.currentPosition| ≤ max (way - turns * perTurn) 0 ∧
      (0 < turns → after.isMotionComplete = true → after.currentPosition = axis.targetPosition) ∧
      (0 < turns → way ≤ (turns - 1 : ℕ) * perTurn →
        after.currentPosition = axis.targetPosition ∧ after.isMotionComplete = true ∧ after.currentSpeed = 0) := by
  intro turns way perTurn
  obtain ⟨after, hafter, hcourse⟩ := (onCourse_origin hon hfault).run hspeed haxis hkeeps
  rw [Nat.zero_add] at hcourse
  refine ⟨after, hafter, hcourse.target, hcourse.between, hcourse.nearer, hcourse.arrived, fun hturns hway => ?_⟩
  obtain ⟨hcomplete, hstill⟩ := hcourse.settled hturns hway
  exact ⟨hcourse.arrived hturns hcomplete, hcomplete, hstill⟩

/-- Axis 1, on, a whole unit away at its default speed. -/
def oneOff : Simulator ℚ := Simulator.start.setAxis { axisId := 1, targetPosition := 1, isOn := true } 1

/-- Eleven turns, with a reset in between. -/
theorem axis_arrives_oneOff :
    let floats : FloatBytes ℚ := ⟨fun _ => none, fun _ => some 0, nofun, fun _ => rfl⟩
    let steps := List.replicate 6 (Step.tick 1) ++ .packet (fun low _ => low) 1 0x013E [] :: List.replicate 5 (.tick 1)
    ∃ after, (oneOff.run floats steps).simulatedAxes 1 = some after ∧ after.currentPosition = 1 ∧
      after.isMotionComplete = true ∧ after.currentSpeed = 0 := by
  intro floats steps
  have hturns : (steps.countP fun step => step.ticks 1) = 11 := by decide
  obtain ⟨after, hafter, -, -, -, -, hsettled⟩ := axis_arrives floats oneOff 1 _ (axes_setAxis_self _ 1) rfl rfl
    (by norm_num) steps (by decide)
  rw [hturns] at hsettled
  exact ⟨after, hafter, hsettled (by norm_num) (by norm_num [SIM_UPDATE_INTERVAL])⟩

end

end Kanat.MotionSimulator
