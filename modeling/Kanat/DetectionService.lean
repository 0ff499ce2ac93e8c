import Kanat.InterleavedThreads

/-! # The Detection Service: its one Run, and the calls and the worker that share it

The calls and the worker are threads whose sections under the lock are single operations, answered one at a time by
`answer` over the Runs made so far. The functions are written as the operations they make, in order. -/
namespace Kanat.DetectionService
open ResumptionPrograms InterleavedThreads

inductive RunState where
  | starting | watching | ending
deriving DecidableEq, Repr

/-- The flags of a Run's loop. -/
structure Loop where
  finishing : Bool := false
  stopped : Bool := false
deriving DecidableEq, Repr

def Loop.finish (loop : Loop) : Loop := { loop with finishing := true }
def Loop.stop (loop : Loop) : Loop := { loop with stopped := true }

structure Exn where
  text : String
  name : String
deriving DecidableEq, Repr

/-- `str(error) or type(error).__name__` -/
def Exn.shown (e : Exn) : String :=
  if e.text = "" then e.name else e.text

variable {Id View : Type}

/-- What a Run's `view` reports of it. -/
structure Report (Id View : Type) where
  session : Id
  state : RunState
  baselineMarks : Option ℕ
  baselineView : Option View
deriving DecidableEq, Repr

structure Run (Id View : Type) where
  session : Id
  state : RunState := .starting
  baselineMarks : Option ℕ := none
  baselineView : Option View := none
  error : Option String := none
  loop : Option Loop := none
  ready : Bool := false
  ended : Bool := false
deriving DecidableEq, Repr

namespace Run

def view (run : Run Id View) : Report Id View where
  session := run.session
  state := run.state
  baselineMarks := run.baselineMarks
  baselineView := run.baselineView

/-- `_end`'s own part of the lock. -/
def enterEnding (run : Run Id View) : Run Id View :=
  { run with
    state := .ending
    loop := match run.state with
      | .watching => run.loop.map Loop.finish
      | .starting => run.loop.map Loop.stop
      | .ending => run.loop }

/-- `_watching`'s. -/
def enterWatching (run : Run Id View) (marks : ℕ) (view : View) : Run Id View :=
  { run with
    baselineMarks := some marks
    baselineView := some view
    state := if run.state = .starting then .watching else run.state }

end Run

inductive Body (Id View : Type) where
  | detail (text : String) (run : Option (Report Id View))
  | run (run : Report Id View)
  | ended (session : Id) (baselineView : Option View)
  | status (run : Option (Report Id View))
deriving DecidableEq, Repr

structure Reply (Id View : Type) where
  status : ℕ
  body : Body Id View
deriving DecidableEq, Repr

/-- Where a thread may be interrupted: its sections under the lock, its waits, and the calls it makes
outside the lock. A Run is known by its place in the order of their creation. `begin` is the first
step of a thread that was started for a Run; `baseline` is `process` up to its call of `watching`, and
`looks` the rest of it. -/
inductive Op (Id View : Type) where
  | status
  | claim (session : Id) (url : String)
  | find
  | waitReady (run : ℕ)
  | read (run : ℕ)
  | enterEnding (run : ℕ)
  | waitEnding (run : ℕ)
  | stop (run : ℕ)
  | waitEnded (run : ℕ)
  | answer (reply : Reply Id View)
  | begin
  | openStream (run : ℕ) (url : String)
  | publishLoop (run : ℕ)
  | openPublisher (run : ℕ)
  | baseline (run : ℕ)
  | enterWatching (run : ℕ) (marks : ℕ) (view : View)
  | looks (run : ℕ)
  | closePublisher (run : ℕ)
  | fail (run : ℕ) (error : String)
  | release (run : ℕ)
  | setReady (run : ℕ)
  | setEnded (run : ℕ)

@[reducible] def Ans (Id View : Type) : Op Id View → Type
  | .status => Option (Report Id View)
  | .claim .. => Except (Report Id View) ℕ
  | .find => Option (ℕ × Id)
  | .read _ => Run Id View
  | .enterEnding _ => RunState
  | .waitReady _ | .waitEnding _ | .publishLoop _ => Bool
  | .begin => ℕ × String
  | .openStream .. | .openPublisher _ | .looks _ | .closePublisher _ => Except Exn Unit
  | .baseline _ => Except Exn (Option (ℕ × View))
  | _ => Unit

abbrev M (Id View : Type) := Prog (Ans Id View) Exn

def perform (o : Op Id View) : M Id View (Ans Id View o) :=
  Prog.perform o

/-- `_end` -/
def endRun (run : ℕ) : M Id View Unit := do
  let was ← perform (.enterEnding run)
  if was = .watching then
    if !(← perform (.waitEnding run)) then
      perform (.stop run)
  perform (.waitEnded run)

def start (session : Id) (url : String) : M Id View (Reply Id View) := do
  match ← perform (.claim session url) with
  | .error view => return ⟨409, .detail "another Session's Run is active" (some view)⟩
  | .ok run =>
      if !(← perform (.waitReady run)) then
        endRun run
        return ⟨502, .detail "not watching within 15 s: no baseline was built" none⟩
      let run ← perform (.read run)
      match run.error.filter fun error => error ≠ "" with
      | some error => return ⟨502, .detail error none⟩
      | none =>
          if run.state ≠ .watching then
            return ⟨409, .detail "the Session's Run is ending" (some run.view)⟩
          return ⟨200, .run run.view⟩

def noSuchRun : Reply Id View := ⟨404, .detail "no such Run" none⟩

/-- `end` -/
def endCall [DecidableEq Id] (session : Id) : M Id View (Reply Id View) := do
  match ← perform .find with
  | none => return noSuchRun
  | some (run, holder) =>
      if holder ≠ session then return noSuchRun
      endRun run
      let run ← perform (.read run)
      return ⟨200, .ended session run.baselineView⟩

def close : M Id View Unit := do
  match ← perform .find with
  | some (run, _) => endRun run
  | none => return

def watching (run : ℕ) (marks : ℕ) (view : View) : M Id View Unit := do
  perform (.enterWatching run marks view)
  perform (.setReady run)

def process (run : ℕ) : M Id View Unit := do
  match ← perform (.baseline run) >>= Prog.ofExcept with
  | some (marks, view) =>
      watching run marks view
      perform (.looks run) >>= Prog.ofExcept
  | none => return

/-- The `with` block of `_work`. -/
def publishing (run : ℕ) : M Id View Unit := do
  perform (.openPublisher run) >>= Prog.ofExcept
  (process run).tryCatch fun e => do
    perform (.closePublisher run) >>= Prog.ofExcept
    throw e
  perform (.closePublisher run) >>= Prog.ofExcept

/-- The `try` block of `_work`. -/
def working (run : ℕ) (url : String) : M Id View Unit := do
  perform (.openStream run url) >>= Prog.ofExcept
  if ← perform (.publishLoop run) then
    perform (.stop run)
  publishing run

def work : M Id View Unit := do
  let (run, url) ← perform .begin
  (working run url).tryCatch fun e => perform (.fail run e.shown)
  perform (.release run)
  perform (.setReady run)
  perform (.setEnded run)

structure World (Id View : Type) where
  current : Option ℕ
  currentSession : Option Id
  runs : List (Run Id View)
  /-- The threads started for a Run, and its Stream, that have not begun. -/
  threads : List (ℕ × String)

/-- The service as it starts. -/
def idle : World Id View := ⟨none, none, [], []⟩

/-- What an answer leaves open. -/
inductive Choice (View : Type) where
  | done
  | timesOut
  | raises (e : Exn)
  | thread (k : ℕ)
  | baseline (marks : ℕ) (view : View)

namespace World

def modify (w : World Id View) (run : ℕ) (f : Run Id View → Run Id View) : World Id View :=
  { w with runs := w.runs.modify run f }

def create (w : World Id View) (session : Id) (url : String) : World Id View where
  current := some w.runs.length
  currentSession := some session
  runs := w.runs ++ [{ session := session }]
  threads := w.threads ++ [(w.runs.length, url)]

def release (w : World Id View) (run : ℕ) : World Id View :=
  if w.current = some run then { w with current := none, currentSession := none } else w

end World

/-- A call that may raise, and leaves the world as it is. -/
def attempt (w : World Id View) : Choice View → Option (Except Exn Unit × World Id View)
  | .done => some (.ok (), w)
  | .raises e => some (.error e, w)
  | _ => none

/-- A wait with a time limit: answered once the event is set, or at any time by its running out. -/
def waitFor (w : World Id View) (event : Option Bool) : Choice View → Option (Bool × World Id View)
  | .done => if event = some true then some (true, w) else none
  | .timesOut => some (false, w)
  | _ => none

def answer [DecidableEq Id] (w : World Id View) :
    (o : Op Id View) → Choice View → Option (Ans Id View o × World Id View)
  | .status, .done => some ((w.current.bind (w.runs[·]?)).map Run.view, w)
  | .claim session url, .done =>
      match w.current with
      | none => some (.ok w.runs.length, w.create session url)
      | some run => (w.runs[run]?).map fun r =>
          (if r.session = session then .ok run else .error r.view, w)
  | .find, .done =>
      some (w.current.bind fun run => (w.runs[run]?).map fun r => (run, r.session), w)
  | .waitReady run, choice => waitFor w ((w.runs[run]?).map Run.ready) choice
  | .read run, .done => (w.runs[run]?).map fun r => (r, w)
  | .enterEnding run, .done => (w.runs[run]?).map fun r => (r.state, w.modify run Run.enterEnding)
  | .waitEnding run, choice => waitFor w ((w.runs[run]?).map Run.ended) choice
  | .stop run, .done =>
      some ((), w.modify run fun r => { r with loop := r.loop.map Loop.stop })
  | .waitEnded run, .done =>
      if (w.runs[run]?).map Run.ended = some true then some ((), w) else none
  | .answer _, .done => some ((), w)
  | .begin, .thread k =>
      (w.threads[k]?).map fun t => (t, { w with threads := w.threads.eraseIdx k })
  | .openStream .., choice => attempt w choice
  | .publishLoop run, .done => (w.runs[run]?).map fun r =>
      (decide (r.state = .ending), w.modify run fun r => { r with loop := some {} })
  | .openPublisher _, choice => attempt w choice
  | .baseline _, .baseline marks view => some (.ok (some (marks, view)), w)
  | .baseline _, .done => some (.ok none, w)
  | .baseline _, .raises e => some (.error e, w)
  | .enterWatching run marks view, .done =>
      some ((), w.modify run fun r => r.enterWatching marks view)
  | .looks _, choice => attempt w choice
  | .closePublisher _, choice => attempt w choice
  | .fail run error, .done => some ((), w.modify run fun r => { r with error := some error })
  | .release run, .done => some ((), w.release run)
  | .setReady run, .done => some ((), w.modify run fun r => { r with ready := true })
  | .setEnded run, .done => some ((), w.modify run fun r => { r with ended := true })
  | _, _ => none

inductive Request (Id : Type) where
  | status
  | start (session : Id) (url : String)
  | endRun (session : Id)
  | close
  | work
deriving DecidableEq, Repr

def program [DecidableEq Id] : Request Id → M Id View (Option (Request Id))
  | .status => do
      let run ← perform .status
      perform (.answer ⟨200, .status run⟩)
      return none
  | .start session url => do
      let reply ← start session url
      perform (.answer reply)
      return none
  | .endRun session => do
      let reply ← endCall session
      perform (.answer reply)
      return none
  | .close => do
      close
      return none
  | .work => do
      work
      return none

def service [DecidableEq Id] : System (Ans Id View) Exn (World Id View) (Request Id) (Choice View) where
  program := program
  answer := answer
  drift _ _ := none

end Kanat.DetectionService
