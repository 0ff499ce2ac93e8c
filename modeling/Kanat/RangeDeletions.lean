import Kanat.RangeServiceStarts

/-! # The Range service of the packet processor: deleting Ranges

A Range is a row in one database, its packets are session tables in another. -/
namespace Kanat.RangeService
open ResumptionPrograms ScheduledPrograms

/-- A statement of a delete request. -/
inductive DeleteOp (Id : Type) where
  | getById (id : Id)
  | truncateSession (p : Pipe) (id : Id)
  | dropSession (p : Pipe) (id : Id)
  | getAll
  | delete (id : Id)
deriving DecidableEq, Repr

variable {Id Bpf Row : Type}

/-- An exception names the statement that threw it. -/
abbrev DeleteAns : DeleteOp Id → Type
  | .getById _ => Except (DeleteOp Id) (Option (RangeEntity Id))
  | .getAll => Except (DeleteOp Id) (List (RangeEntity Id))
  | .delete _ => Except (DeleteOp Id) Bool
  | .truncateSession _ _ | .dropSession _ _ => Except (DeleteOp Id) Unit

abbrev DeleteProgram (Id α : Type) := Prog (@DeleteAns Id) (DeleteOp Id) α

/-- How each statement goes, and which rows the writers land just before it. -/
structure DeleteSchedule (Id Row : Type) where
  reply : DeleteOp Id → Reply
  landing : DeleteOp Id → Pipe → List Row

namespace DeleteSchedule
variable (s : DeleteSchedule Id Row)

def done (o : DeleteOp Id) : Bool := s.reply o = .done

def executed (o : DeleteOp Id) : Bool := s.reply o ≠ .failed

def told {α : Type} (o : DeleteOp Id) (a : α) : Except (DeleteOp Id) α := if s.done o then .ok a else .error o

end DeleteSchedule

section
variable [DecidableEq Id]

def Tables.setSession (t : Tables Id Row) (p : Pipe) (id : Id) (rows : Option (List Row)) : Tables Id Row :=
  { t with sessions := fun id' p' => if id' = id ∧ p' = p then rows else t.sessions id' p' }

/-- Truncating a table that is not there fails, dropping it does not. -/
def answerDelete (s : DeleteSchedule Id Row) (w : World Id Bpf Row) (o : DeleteOp Id) :
    DeleteAns o × World Id Bpf Row :=
  let w := { w with tables := w.tables.land (s.landing o) }
  match o with
  | .getById id => (s.told (.getById id) (w.ranges.find? fun r => r.id = id), w)
  | .truncateSession p id =>
      match w.tables.sessions id p with
      | none => (.error (.truncateSession p id), w)
      | some _ =>
          (s.told (.truncateSession p id) (),
            if s.executed (.truncateSession p id) then { w with tables := w.tables.setSession p id (some []) } else w)
  | .dropSession p id =>
      (s.told (.dropSession p id) (),
        if s.executed (.dropSession p id) then { w with tables := w.tables.setSession p id none } else w)
  | .getAll => (s.told .getAll w.ranges, w)
  | .delete id =>
      (s.told (.delete id) (w.ranges.any fun r => r.id = id),
        if s.executed (.delete id) then { w with ranges := w.ranges.filter fun r => r.id ≠ id } else w)

end

def performDelete (o : DeleteOp Id) : DeleteProgram Id (DeleteAns o) := Prog.perform o

def deletePacketsByRangeAsync (id : Id) (p : Pipe) : DeleteProgram Id Unit := do
  performDelete (.truncateSession p id) >>= Prog.ofExcept
  performDelete (.dropSession p id) >>= Prog.ofExcept

def deleteRangeByIdAsync (id : Id) : DeleteProgram Id Bool := do
  match ← performDelete (.getById id) >>= Prog.ofExcept with
  | none => pure false
  | some _ =>
      -- the Range is deleted even if its session tables cannot be
      tryCatch (pipes.forM (deletePacketsByRangeAsync id)) fun _ => pure ()
      performDelete (.delete id) >>= Prog.ofExcept

def deleteAllRangesAsync : DeleteProgram Id ℕ := do
  let ranges ← performDelete .getAll >>= Prog.ofExcept
  ranges.foldlM (fun count range => do
    let deleted ← performDelete (.delete range.id) >>= Prog.ofExcept
    pure (if deleted then count + 1 else count)) 0

/-- A request to the Range service, or rows landing between two. -/
inductive RangeEvent (Id Bpf Row : Type) where
  | other (e : Event Id Bpf Row)
  | deleteRangeById (id : Id) (s : DeleteSchedule Id Row)
  | deleteAllRanges (s : DeleteSchedule Id Row)

section
variable [DecidableEq Id]

def stepRange (c : Service Id Bpf Row) : RangeEvent Id Bpf Row → Service Id Bpf Row
  | .other e => c.step e
  | .deleteRangeById id s => { c with world := (run (answerDelete s) (deleteRangeByIdAsync id) c.world).2 }
  | .deleteAllRanges s => { c with world := (run (answerDelete s) deleteAllRangesAsync c.world).2 }

/-- Each session table is the table of a Range that still exists. -/
def World.Owned (w : World Id Bpf Row) : Prop :=
  ∀ id p, w.tables.sessions id p ≠ none → ∃ r ∈ w.ranges, r.id = id

end

end Kanat.RangeService
