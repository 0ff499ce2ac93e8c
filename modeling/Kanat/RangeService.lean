import Kanat.ScheduledPrograms
import Mathlib.Data.Int.Notation
import Mathlib.Logic.Function.Basic

/-! # The Range service of the packet processor: starting and stopping a realtime Range

All Ranges share the base packet tables. Each request is a sequence of separate statements, and the
database writers land what is still queued before any of them. -/
namespace Kanat.RangeService
open ResumptionPrograms ScheduledPrograms

inductive Pipe where
  | motion | safety | onvif
deriving DecidableEq, Repr

/-- The order in which every request goes through the packet types. -/
def pipes : List Pipe := [.motion, .safety, .onvif]

structure RangeConfig (Bpf : Type) where
  bpfConfig : Option Bpf
deriving DecidableEq, Repr

structure RangeEntity (Id : Type) where
  id : Id
  startTime : ℤ
  endTime : ℤ
  description : String
deriving DecidableEq, Repr

structure RangeDto (Id Bpf : Type) where
  id : Id
  startTime : ℤ
  endTime : ℤ
  description : String
  config : Option (RangeConfig Bpf)
deriving DecidableEq, Repr

variable {Id Bpf Row : Type}

def RangeMapper.toDto (entity : RangeEntity Id) : RangeDto Id Bpf where
  id := entity.id
  startTime := entity.startTime
  endTime := entity.endTime
  description := entity.description
  config := none

/-- `char.IsWhiteSpace` -/
def isWhiteSpace (c : Char) : Bool :=
  let n := c.toNat
  (9 ≤ n && n ≤ 13) || n == 0x20 || n == 0x85 || n == 0xA0 || n == 0x1680 ||
    (0x2000 ≤ n && n ≤ 0x200A) || n == 0x2028 || n == 0x2029 || n == 0x202F || n == 0x205F ||
    n == 0x3000

/-- `string.Trim` -/
def trim (s : String) : String :=
  String.ofList ((s.toList.dropWhile isWhiteSpace).reverse.dropWhile isWhiteSpace).reverse

/-- One statement or call of a request; a session table's names its Range. -/
inductive Step (Id : Type) where
  | validateAndHydrate
  | utcNow
  | clearAllPackets (p : Pipe)
  | newGuid
  | add
  | setCurrentRange
  | subscribe (p : Pipe)
  | setIsActive
  | getCurrentRange
  | unsubscribe (p : Pipe)
  | resetStats
  | setEndTime
  | getById
  | update
  | createSessionTable (p : Pipe) (id : Id)
deriving DecidableEq, Repr

/-- How a statement went: a `lost` one was carried out, but its caller got an exception. -/
inductive Reply where
  | done | failed | lost
deriving DecidableEq, Repr

/-- Everything a request leaves to others: what `ValidateAndHydrate` makes of the request, the
clock, the new id, how each statement goes, and which rows the writers land just before each. -/
structure Schedule (Id Bpf Row : Type) where
  validated : RangeDto Id Bpf → Option (RangeDto Id Bpf)
  utcNow : ℤ
  newGuid : Id
  reply : Step Id → Reply
  landing : Step Id → Pipe → List Row

namespace Schedule
variable (s : Schedule Id Bpf Row)

def done (step : Step Id) : Bool := s.reply step = .done

def executed (step : Step Id) : Bool := s.reply step ≠ .failed

end Schedule

/-- The packet tables. `landed` and `removed` only keep the record of the rows ever written to a
base table and of those a truncation took out of it. -/
structure Tables (Id Row : Type) where
  base : Pipe → List Row
  sessions : Id → Pipe → Option (List Row)
  landed : Pipe → List Row
  removed : Pipe → List Row

namespace Tables
variable [DecidableEq Id]

def land (t : Tables Id Row) (rows : Pipe → List Row) : Tables Id Row :=
  { t with
    base := fun p => t.base p ++ rows p
    landed := fun p => t.landed p ++ rows p }

/-- `TRUNCATE TABLE` -/
def truncate (t : Tables Id Row) (p : Pipe) : Tables Id Row :=
  { t with
    base := Function.update t.base p []
    removed := Function.update t.removed p (t.removed p ++ t.base p) }

/-- `CREATE TABLE … AS (SELECT * FROM …)` -/
def createSession (t : Tables Id Row) (p : Pipe) (id : Id) : Tables Id Row :=
  { t with
    sessions := fun id' p' => if id' = id ∧ p' = p then some (t.base p) else t.sessions id' p' }

/-- A session table that exists already is never written over. -/
def after (s : Schedule Id Bpf Row) (t : Tables Id Row) (step : Step Id) : Tables Id Row :=
  let t := t.land (s.landing step)
  match step with
  | .clearAllPackets p => if s.executed step then t.truncate p else t
  | .createSessionTable p id =>
      if s.executed step ∧ t.sessions id p = none then t.createSession p id else t
  | _ => t

/-- The record begins anew. -/
def observed (t : Tables Id Row) : Tables Id Row :=
  { t with landed := t.base, removed := fun _ => [] }

end Tables

structure World (Id Bpf Row : Type) where
  tables : Tables Id Row
  ranges : List (RangeEntity Id)
  currentRange : Option (RangeDto Id Bpf)
  isActive : Bool

inductive Op (Id Bpf : Type) where
  | validateAndHydrate (range : RangeDto Id Bpf)
  | utcNow
  | clearAllPackets (p : Pipe)
  | newGuid
  | add (entity : RangeEntity Id)
  | setCurrentRange (range : RangeDto Id Bpf)
  | subscribe (p : Pipe) (config : Bpf)
  | setIsActive (active : Bool)
  | getCurrentRange
  | unsubscribe (p : Pipe)
  | resetStats
  | setEndTime (endTime : ℤ)
  | getById (id : Id)
  | update (entity : RangeEntity Id)
  | createSessionTable (p : Pipe) (id : Id)

def Op.step : Op Id Bpf → Step Id
  | validateAndHydrate _ => .validateAndHydrate
  | utcNow => .utcNow
  | clearAllPackets p => .clearAllPackets p
  | newGuid => .newGuid
  | add _ => .add
  | setCurrentRange _ => .setCurrentRange
  | subscribe p _ => .subscribe p
  | setIsActive _ => .setIsActive
  | getCurrentRange => .getCurrentRange
  | unsubscribe p => .unsubscribe p
  | resetStats => .resetStats
  | setEndTime _ => .setEndTime
  | getById _ => .getById
  | update _ => .update
  | createSessionTable p id => .createSessionTable p id

/-- An exception names the step that threw it. -/
abbrev Ans (Id Bpf : Type) : Op Id Bpf → Type
  | .validateAndHydrate _ => Except (Step Id) (RangeDto Id Bpf)
  | .utcNow => ℤ
  | .newGuid => Id
  | .setCurrentRange _ | .setIsActive _ | .setEndTime _ => Unit
  | .getCurrentRange => Option (RangeDto Id Bpf)
  | .getById _ => Except (Step Id) (Option (RangeEntity Id))
  | .clearAllPackets _ | .add _ | .subscribe _ _ | .unsubscribe _ | .resetStats | .update _
  | .createSessionTable _ _ => Except (Step Id) Unit

abbrev Program (Id Bpf α : Type) := Prog (Ans Id Bpf) (Step Id) α

def Schedule.told (s : Schedule Id Bpf Row) (step : Step Id) : Except (Step Id) Unit :=
  if s.done step then .ok () else .error step

section
variable [DecidableEq Id]

/-- `UPDATE … WHERE id = …` -/
def replace (ranges : List (RangeEntity Id)) (entity : RangeEntity Id) : List (RangeEntity Id) :=
  ranges.map fun r => if r.id = entity.id then entity else r

def answer (s : Schedule Id Bpf Row) (w : World Id Bpf Row) (o : Op Id Bpf) :
    Ans Id Bpf o × World Id Bpf Row :=
  let w' := { w with tables := w.tables.after s o.step }
  match o with
  | .validateAndHydrate range =>
      (match s.validated range with
        | some validated => .ok validated
        | none => .error .validateAndHydrate, w')
  | .utcNow => (s.utcNow, w')
  | .clearAllPackets p => (s.told (.clearAllPackets p), w')
  | .newGuid => (s.newGuid, w')
  | .add entity =>
      (s.told .add, if s.executed .add then { w' with ranges := w.ranges ++ [entity] } else w')
  | .setCurrentRange range => ((), { w' with currentRange := some range })
  | .subscribe p _ => (s.told (.subscribe p), w')
  | .setIsActive active => ((), { w' with isActive := active })
  | .getCurrentRange => (w.currentRange, w')
  | .unsubscribe p => (s.told (.unsubscribe p), w')
  | .resetStats => (s.told .resetStats, w')
  | .setEndTime endTime =>
      ((), { w' with currentRange := w.currentRange.map fun range => { range with endTime } })
  | .getById id =>
      (if s.done .getById then .ok (w.ranges.find? fun r => r.id = id) else .error .getById, w')
  | .update entity =>
      (s.told .update,
        if s.executed .update then { w' with ranges := replace w.ranges entity } else w')
  | .createSessionTable p id =>
      (if w.tables.sessions id p = none then s.told (.createSessionTable p id)
        else .error (.createSessionTable p id), w')

@[simp] theorem answer_tables (s : Schedule Id Bpf Row) (w : World Id Bpf Row) (o : Op Id Bpf) :
    (answer s w o).2.tables = w.tables.after s o.step := by
  cases o with
  | add entity =>
    change (if s.executed .add then _ else _ : World Id Bpf Row).tables = _
    split <;> rfl
  | update entity =>
    change (if s.executed .update then _ else _ : World Id Bpf Row).tables = _
    split <;> rfl
  | _ => rfl

end

def perform (o : Op Id Bpf) : Program Id Bpf (Ans Id Bpf o) :=
  Prog.perform o

def clearAllPacketsAsync (p : Pipe) : Program Id Bpf Unit :=
  perform (.clearAllPackets p) >>= Prog.ofExcept

def createSessionTableAsync (id : Id) (p : Pipe) : Program Id Bpf Unit :=
  perform (.createSessionTable p id) >>= Prog.ofExcept

def createRangeAsync (dto : RangeDto Id Bpf) : Program Id Bpf (RangeDto Id Bpf) := do
  let entity : RangeEntity Id :=
    { id := ← perform .newGuid
      description := trim dto.description
      startTime := dto.startTime
      endTime := -1 }
  perform (.add entity) >>= Prog.ofExcept
  pure (RangeMapper.toDto entity)

def updateRangeByIdAsync (id : Id) (dto : RangeDto Id Bpf) :
    Program Id Bpf (Option (RangeDto Id Bpf)) := do
  match ← perform (.getById id) >>= Prog.ofExcept with
  | none => pure none
  | some existingRange =>
      let existingRange :=
        { existingRange with
          startTime := dto.startTime
          endTime := dto.endTime
          description := dto.description }
      perform (.update existingRange) >>= Prog.ofExcept
      pure (some (RangeMapper.toDto existingRange))

namespace Realtime

def startAsync (config : Bpf) : Program Id Bpf Unit := do
  pipes.forM fun p => perform (.subscribe p config) >>= Prog.ofExcept
  perform (.setIsActive true)

def stopAsync : Program Id Bpf Unit := do
  pipes.forM fun p => perform (.unsubscribe p) >>= Prog.ofExcept
  perform (.setIsActive false)

end Realtime

/-- The start itself, of a Range whose configuration is valid. -/
def beginRange (validatedRange : RangeDto Id Bpf) (bpfConfig : Bpf) :
    Program Id Bpf (RangeDto Id Bpf) := do
  let createdDto ← createRangeAsync validatedRange
  let createdDto := { createdDto with config := validatedRange.config }
  perform (.setCurrentRange createdDto)
  Realtime.startAsync bpfConfig
  pure createdDto

def startRealtimeRangeAsync (range : RangeDto Id Bpf) : Program Id Bpf (RangeDto Id Bpf) := do
  let validatedRange ← perform (.validateAndHydrate range) >>= Prog.ofExcept
  match validatedRange.config.bind RangeConfig.bpfConfig with
  | none => throw .validateAndHydrate
  | some bpfConfig =>
      let validatedRange := { validatedRange with startTime := ← perform .utcNow }
      -- a table that cannot be cleared does not fail the start
      tryCatch (pipes.forM clearAllPacketsAsync) fun _ => pure ()
      beginRange validatedRange bpfConfig

/-- The end of the Range, set in its row and in the service's record of it. -/
def recordEnd (range : RangeDto Id Bpf) : Program Id Bpf (RangeDto Id Bpf) := do
  let endTime ← perform .utcNow
  -- `range` is the service's own record, so that this changes it even if the row is not written
  perform (.setEndTime endTime)
  let range := { range with endTime }
  match ← updateRangeByIdAsync range.id range with
  | none => pure range
  | some updated =>
      perform (.setCurrentRange updated)
      pure updated

/-- The stop of the Range itself, before its packets are looked after. -/
def endCurrentRange : Program Id Bpf (Option (RangeDto Id Bpf)) := do
  let currentRange ← perform .getCurrentRange
  Realtime.stopAsync
  perform .resetStats >>= Prog.ofExcept
  match currentRange with
  | none => pure none
  | some range => some <$> recordEnd range

def stopRealtimeRangeAsync : Program Id Bpf (Option (RangeDto Id Bpf)) := do
  match ← endCurrentRange with
  | none => pure none
  | some range =>
      tryCatch (pipes.forM (createSessionTableAsync range.id)) fun _ => pure ()
      tryCatch (pipes.forM clearAllPacketsAsync) fun _ => pure ()
      pure (some range)

section
variable {P : Op Id Bpf → Prop}

theorem watched_clears (h : ∀ p, P (.clearAllPackets p)) :
    Watched P (tryCatch (pipes.forM clearAllPacketsAsync) fun _ => pure ()) :=
  watched_block fun p _ => watched_bind (watched_perform (h p)) fun _ => watched_ofExcept

theorem watched_copies (id : Id) (h : ∀ p, P (.createSessionTable p id)) :
    Watched P (tryCatch (pipes.forM (createSessionTableAsync id)) fun _ => pure ()) :=
  watched_block fun p _ => watched_bind (watched_perform (h p)) fun _ => watched_ofExcept

theorem watched_createRange (dto : RangeDto Id Bpf) (hguid : P .newGuid) (hadd : ∀ entity, P (.add entity)) :
    Watched P (createRangeAsync dto) := by
  refine watched_bind (watched_perform hguid) fun guid => ?_
  exact watched_bind (watched_bind (watched_perform (hadd _)) fun _ => watched_ofExcept) fun _ => watched_ret

theorem watched_startAsync (config : Bpf) (hsubscribe : ∀ p, P (.subscribe p config)) (hactive : P (.setIsActive true)) :
    Watched P (Realtime.startAsync config) := by
  refine watched_bind (watched_forM fun p _ => ?_) fun _ => watched_perform hactive
  exact watched_bind (watched_perform (hsubscribe p)) fun _ => watched_ofExcept

theorem watched_stopAsync (hunsubscribe : ∀ p, P (.unsubscribe p)) (hactive : P (.setIsActive false)) :
    Watched P (Realtime.stopAsync : Program Id Bpf Unit) := by
  refine watched_bind (watched_forM fun p _ => ?_) fun _ => watched_perform hactive
  exact watched_bind (watched_perform (hunsubscribe p)) fun _ => watched_ofExcept

end

end Kanat.RangeService
