import Kanat.DetectionMemory
import Kanat.InterleavedThreads

/-! # Watching, ending and reconciling, as the calls they make

The backend's functions, written as the calls they make where a thread can be interrupted: of the Detection Service,
of the database and of the memory. Any of these may fail, and what is caught is caught where the source does. -/
namespace Kanat.DetectionSync
open ResumptionPrograms

inductive RunState where
  | starting | watching | ending | ended
deriving DecidableEq, Repr

/-- The Detection Service's Run, as its status, a start or an end reports it. -/
structure Run (Id : Type) where
  session : Id
  state : RunState
deriving DecidableEq, Repr

inductive Status where
  | active | completed
deriving DecidableEq, Repr

structure Session (Id : Type) where
  id : Id
  status : Status
  camera : Option Id
deriving DecidableEq, Repr

structure Camera (Id : Type) where
  id : Id
  aliasName : String
  enabled : Bool
deriving DecidableEq, Repr

inductive Exn (Id : Type) where
  | unreachable
  | refused (status : ℕ) (detail : String) (holder : Option Id)
  | http (status : ℕ)
  | other
deriving DecidableEq, Repr

/-- Where a thread of the backend may be interrupted: the calls of the Detection Service, of the
database, and of the memory. `getSession` is the request's own read, `readSession` the one
`_still_active` makes on a connection of its own. -/
inductive Op (Id : Type) where
  | status
  | startRun (session : Id) (aliasName : String)
  | endRun (session : Id)
  | storeRun (session : Id) (aliasName : String) (run : Run Id)
  | follow (session : Id) (run : Run Id)
  | set (session : Id) (detection : Detection) (onlyFrom : Option (List DetectionState))
  | stateOf (session : Id)
  | inStates (session : Id)
  | discardWatched (session : Id)
  | lockedRead (activeIds : List Id)
  | listCameras
  | listActive
  | getSession (session : Id)
  | readSession (session : Id)
  | sessionDetail (session : Id)
  | cameraAlias (camera : Id)
  | addSession (camera : Option Id)
  | saveSession (session : Id) (status : Option Status)
  | deleteSession (session : Id)
deriving DecidableEq

@[reducible] def Ans (Id : Type) : Op Id → Type
  | .status | .endRun _ => Except (Exn Id) (Option (Run Id))
  | .startRun .. => Except (Exn Id) (Run Id)
  | .storeRun .. | .follow .. | .discardWatched _ => Unit
  | .set .. | .inStates _ => Bool
  | .stateOf _ => Detection
  | .lockedRead _ => List Id × List (Id × DetectionState)
  | .listCameras => Except (Exn Id) (List (Camera Id))
  | .listActive => Except (Exn Id) (List (Session Id))
  | .getSession _ | .readSession _ => Except (Exn Id) (Option (Session Id))
  | .cameraAlias _ => Except (Exn Id) String
  | .addSession _ => Except (Exn Id) (Session Id)
  | .sessionDetail _ | .saveSession .. | .deleteSession _ => Except (Exn Id) Unit

abbrev M (Id : Type) := Prog (Ans Id) (Exn Id)

variable {Id α : Type} [DecidableEq Id]

def perform (o : Op Id) : M Id (Ans Id o) :=
  Prog.perform o

def setState (session : Id) (detection : Detection)
    (onlyFrom : Option (List DetectionState)) : M Id Bool :=
  perform (.set session detection onlyFrom)

def stateOf (session : Id) : M Id Detection :=
  perform (.stateOf session)

def starting (session : Id) : M Id Unit := do
  let _ ← setState session .starting none

/-- `_end_run` -/
def endRun (session : Id) : M Id Bool := do
  match ← perform (.endRun session) with
  | .error .unreachable => return false
  | .error e => throw e
  | .ok none => return false
  | .ok (some ended) =>
      perform (.discardWatched session)
      perform (.follow session ended)
      return true

/-- What a start that was refused with an error reads as. -/
def refusedAs (session : Id) (status : ℕ) (detail : String) (holder : Option Id) : Detection :=
  if status ≠ 409 then
    { state := .notWatching, reason := some .streamFailed, detail := some detail }
  else if holder = some session then
    { state := .notWatching, detail := some detail }
  else
    { state := .notWatching, reason := some .otherSession, detail := some detail }

/-- What the answer to a start is set as. -/
def started (session : Id) (aliasName : String) : Except (Exn Id) (Run Id) → M Id Detection
  | .error .unreachable => return .serviceDown
  | .error (.refused status detail holder) => return refusedAs session status detail holder
  | .error _ => return .runLost
  | .ok run => do
      perform (.storeRun session aliasName run)
      return .watching

def watch (session : Id) (aliasName : String) (onlyFrom : List DetectionState) : M Id Unit := do
  let answer ← perform (.startRun session aliasName)
  let result ← started session aliasName answer
  if !(← setState session result (some onlyFrom)) && result.state = .watching then
    -- its end may have reached the Detection Service before this start did
    if (← stateOf session).state ∈ [DetectionState.ending, .none] then
      let _ ← endRun session

/-- `_still_active`: not known reads not active. -/
def stillActive (session : Id) : M Id Bool := do
  match ← perform (.readSession session) with
  | .ok (some session) => return session.status = .active
  | .ok none => return false
  | .error _ => return false

/-- The way out of `ending` for an exception, raised again. -/
def leave (session : Id) (confirmed : Bool) (e : Exn Id) : M Id α := do
  let kept ← if confirmed then pure true else stillActive session
  let _ ← setState session (if kept then .none else .endUnconfirmed) none
  throw e

/-- No Run to end: the Session is not active, or has no camera and reads `none`. -/
def noRun (session : Session Id) : M Id Bool :=
  if session.status ≠ .active then return true
  else if session.camera = none then not <$> perform (.inStates session.id)
  else return false

def ending (session : Session Id) (body : M Id α) : M Id α := do
  if ← noRun session then body
  else
    let _ ← setState session.id .ending none
    let confirmed ← (endRun session.id).tryCatch (leave session.id false)
    let result ← body.tryCatch (leave session.id confirmed)
    let _ ← setState session.id (if confirmed then .none else .endUnconfirmed) none
    return result

def reopened (session : Id) : M Id Unit := do
  let _ ← setState session .none (some [.endUnconfirmed])

/-- The Run the Detection Service reports, and whether it answered. -/
def statusRead : M Id (Option (Run Id) × Bool) := do
  match ← perform .status with
  | .ok run => return (run, true)
  | .error .unreachable => return (none, false)
  | .error e => throw e

def letGo (activeIds : List Id) (stuck : List (Id × DetectionState)) : M Id Unit :=
  stuck.forM fun entry => do
    let _ ← setState entry.1 (if entry.1 ∈ activeIds then .none else .endUnconfirmed)
      (some [entry.2])

def readNone (ended : List Id) : M Id Unit :=
  ended.forM fun session => do
    let _ ← setState session .none (some idle)

/-- The Session that should hold the Run, and its camera. -/
def wantedOf (cameras : List (Camera Id)) (session : Option (Session Id)) :
    Option (Session Id × Camera Id) := do
  let session ← session
  let id ← session.camera
  let camera ← cameras.find? fun camera => camera.id = id
  if camera.enabled then some (session, camera) else none

def showDisabled (session : Option (Session Id)) (wanted : Option (Session Id × Camera Id)) :
    M Id Unit :=
  match session, wanted with
  | some session, none => do
      let had ← if session.camera ≠ none then pure true
        else (fun detection => decide (detection ≠ .none)) <$> stateOf session.id
      if had then
        let _ ← setState session.id .cameraDisabled (some idle)
  | _, _ => return

/-- Ends a Run that is not the wanted Session's, unless it is ending already. -/
def endOther (run : Option (Run Id)) (wanted : Option (Session Id × Camera Id)) :
    M Id (Option (Run Id)) :=
  match run with
  | some r =>
      if r.state ≠ .ending ∧ wanted.map (fun w => w.1.id) ≠ some r.session then do
        let _ ← endRun r.session
        return none
      else return run
  | none => return none

/-- What a Session with no Run watching it reads while one is asked for. -/
def shownMeanwhile (session : Id) (current : DetectionState) : M Id Detection :=
  if current = .none then return .starting
  else if current = .watching then return .runLost
  else stateOf session   -- retried, still not watching

/-- Asks for the wanted Session's Run, or reads that it is watching. -/
def askFor (wanted : Session Id) (camera : Camera Id) (run : Option (Run Id)) : M Id Unit := do
  let current := (← stateOf wanted.id).state
  if current ∉ idle ∨ run.map Run.state = some .ending then return
  match run.filter fun r => r.state = .watching with
  | some r =>
      perform (.storeRun wanted.id camera.aliasName r)
      let _ ← setState wanted.id .watching (some idle)
  | none =>
      let shown ← shownMeanwhile wanted.id current
      if ← setState wanted.id shown (some [current]) then
        watch wanted.id camera.aliasName [shown.state]

def reconcile : M Id Unit := do
  let (run, answered) ← statusRead
  let cameras ← perform .listCameras >>= Prog.ofExcept
  let active ← perform .listActive >>= Prog.ofExcept
  let activeIds := active.map Session.id
  let (ended, stuck) ← perform (.lockedRead activeIds)
  letGo activeIds stuck
  readNone ended
  let session := active.head?
  let wanted := wantedOf cameras session
  showDisabled session wanted
  if answered then
    let run ← endOther run wanted
    match wanted with
    | some (session, camera) => askFor session camera run
    | none => return
  else
    match wanted with
    | some (session, _) =>
        let _ ← setState session.id .serviceDown (some idle)
    | none => return

/-- `svc.get_session_or_404` -/
def getSessionOr404 (session : Id) : M Id (Session Id) := do
  match ← perform (.getSession session) >>= Prog.ofExcept with
  | some session => return session
  | none => throw (.http 404)

namespace Service

def updateSession (session : Id) (status : Option Status) : M Id Unit := do
  perform (.saveSession session status) >>= Prog.ofExcept
  perform (.sessionDetail session) >>= Prog.ofExcept

def deleteSession (session : Id) : M Id Unit :=
  perform (.deleteSession session) >>= Prog.ofExcept

end Service

def createSession (camera : Option Id) : M Id Unit := do
  let session ← perform (.addSession camera) >>= Prog.ofExcept
  match session.camera with
  | some camera =>
      let aliasName ← perform (.cameraAlias camera) >>= Prog.ofExcept
      starting session.id
      watch session.id aliasName [.starting]
  | none => return

def updateSession (session : Id) (status : Option Status) : M Id Unit := do
  if status = some .completed then
    let row ← getSessionOr404 session
    ending row (Service.updateSession session status)
  else
    Service.updateSession session status
  if status = some .active then
    reopened session

def deleteSession (session : Id) : M Id Unit := do
  let row ← getSessionOr404 session
  ending row (Service.deleteSession session)

end Kanat.DetectionSync
