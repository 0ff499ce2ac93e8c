import Mathlib.Data.Int.Notation
import Mathlib.Data.List.Sort
import Kanat.Bullets

/-! # Sessions stored by the backend

`services/sessions.py` over `repositories/sessions.py`. A request works on a copy the ORM keeps, which
reaches the database when it commits. Times are instants in microseconds. -/
namespace Kanat.Sessions
open Bullets

structure RecordingInterval where
  startedAt : ℤ
  endedAt : Option ℤ
  deriving DecidableEq

def RecordingInterval.isOpen (i : RecordingInterval) : Bool := i.endedAt.isNone

structure Session where
  id : Uuid
  name : String
  status : SessionStatus
  startedAt : ℤ
  endedAt : Option ℤ
  record : Bool
  cameraId : Option Uuid
  recordingIntervals : List RecordingInterval
  deriving DecidableEq

structure Camera where
  id : Uuid
  enabled : Bool
  deriving DecidableEq

structure Database where
  cameras : List Camera
  sessions : List Session
  deriving DecidableEq

structure SessionCreate where
  name : String
  record : Bool
  cameraId : Option Uuid

structure SessionUpdate where
  name : Option String
  status : Option SessionStatus
  record : Option Bool

def Session.isActive (s : Session) : Bool := s.status = .active

namespace Database

def get (db : Database) (id : Uuid) : Option Session := db.sessions.find? (·.id = id)

/-- The active Sessions, the earliest started first. -/
def listActive (db : Database) : List Session :=
  (db.sessions.filter Session.isActive).insertionSort (·.startedAt ≤ ·.startedAt)

def put (db : Database) (session : Session) : Database :=
  { db with sessions := db.sessions.map fun s => if s.id = session.id then session else s }

/-- The primary key. -/
def distinct (db : Database) : Bool := (db.sessions.map (·.id)).Nodup

/-- `uq_sessions_one_active`. -/
def oneActive (db : Database) : Bool := (db.sessions.filter Session.isActive).length ≤ 1

/-- `uq_recording_intervals_one_open`. -/
def oneOpen (db : Database) : Bool :=
  db.sessions.all fun s => (s.recordingIntervals.filter RecordingInterval.isOpen).length ≤ 1

end Database

/-- `open_interval.ended_at = at`, the first open one. -/
def closeInterval (endedAt : ℤ) : List RecordingInterval → List RecordingInterval
  | [] => []
  | i :: is => if i.isOpen then { i with endedAt := some endedAt } :: is else i :: closeInterval endedAt is

def followRecording (session : Session) (now : ℤ) : Session :=
  let recording := session.record && session.isActive
  match session.recordingIntervals.find? RecordingInterval.isOpen with
  | none =>
    if recording then
      { session with recordingIntervals := session.recordingIntervals ++ [⟨now, none⟩] }
    else session
  | some _ =>
    if recording then session
    else { session with
      recordingIntervals := closeInterval (session.endedAt.getD now) session.recordingIntervals }

def anotherActive (name : String) : HTTPException :=
  ⟨409, s!"Session '{name}' is still active: complete it first"⟩

def refuseIfAnotherIsActive (db : Database) (sessionId : Option Uuid) : Except Failure Unit :=
  match db.listActive.find? fun s => some s.id ≠ sessionId with
  | some other => .error (.http (anotherActive other.name))
  | none => .ok ()

def refusedAsSecondActive (db : Database) (sessionId : Option Uuid) : Failure :=
  match refuseIfAnotherIsActive db sessionId with
  | .error e => e
  | .ok _ => .http ⟨409, "Another Session was active: try again"⟩

/-- The commit of the working copy; refused by an index, it is rolled back. -/
def commit (db working : Database) (sessionId : Option Uuid) : Except Failure Database :=
  if !working.oneActive then .error (refusedAsSecondActive db sessionId)
  else if !(working.distinct && working.oneOpen) then .error .integrityError
  else .ok working

def cameraEnabled (db : Database) : Option Uuid → Except Failure Unit
  | none => .ok ()
  | some id =>
    match db.cameras.find? (·.id = id) with
    | some ⟨_, true⟩ => .ok ()
    | _ => .error (.http ⟨422, "No enabled camera with this id"⟩)

/-- What a request answers, and the database it leaves. -/
abbrev Answer (α : Type) := Except Failure α × Database

def newSession (id : Uuid) (body : SessionCreate) (now : ℤ) : Session where
  id
  name := body.name
  status := .active
  startedAt := now
  endedAt := none
  record := body.record
  cameraId := body.cameraId
  recordingIntervals := []

def createSession (id : Uuid) (body : SessionCreate) (now : ℤ) (db : Database) : Answer Session :=
  match refuseIfAnotherIsActive db none, cameraEnabled db body.cameraId with
  | .error e, _ => (.error e, db)
  | .ok _, .error e => (.error e, db)
  | .ok _, .ok _ =>
    let session := followRecording (newSession id body now) now
    match commit db { db with sessions := db.sessions ++ [session] } none with
    | .error e => (.error e, db)
    | .ok db' => (.ok session, db')

/-- The Session as `status` leaves it, `before` its status till then; refused, it is left half changed. -/
def followStatus (db : Database) (before : SessionStatus) (session : Session) (now : ℤ) :
    Option SessionStatus → Except Failure Session
  | none => .ok session
  | some .completed => .ok { session with
      status := .completed
      endedAt := match session.endedAt with
        | none => some now
        | some endedAt => some endedAt }
  | some .active =>
    match (if before ≠ .active then refuseIfAnotherIsActive db (some session.id) else .ok ()) with
    | .error e => .error e
    | .ok _ => .ok { session with status := .active, endedAt := none }

def getSessionDetail (id : Uuid) (db : Database) : Except Failure Session :=
  match db.get id with
  | none => .error sessionNotFound
  | some session => .ok session

/-- `now₁` is the clock's reading at the Session's end, `now₂` the one after. -/
def updateSession (id : Uuid) (body : SessionUpdate) (now₁ now₂ : ℤ) (db : Database) : Answer Session :=
  match db.get id with
  | none => (.error sessionNotFound, db)
  | some session =>
    let named := { session with
      name := body.name.getD session.name
      record := body.record.getD session.record }
    match followStatus db session.status named now₁ body.status with
    | .error e => (.error e, db)
    | .ok changed =>
      match commit db (db.put (followRecording changed now₂)) (some id) with
      | .error e => (.error e, db)
      | .ok db' => (getSessionDetail id db', db')

/-- The intervals as (start, end), an open one up to now. -/
def recordedWindows (now : ℤ) (intervals : List RecordingInterval) : List (ℤ × ℤ) :=
  intervals.map fun i => (i.startedAt, i.endedAt.getD now)

def deleteSession (id : Uuid) (now : ℤ) (db : Database) : Answer (List (ℤ × ℤ)) :=
  match db.get id with
  | none => (.error sessionNotFound, db)
  | some session => (.ok (recordedWindows now session.recordingIntervals),
      { db with sessions := db.sessions.filter (·.id ≠ id) })

def otherRecordedWindows (sessionId : Uuid) (now : ℤ) (db : Database) : List (ℤ × ℤ) :=
  recordedWindows now ((db.sessions.filter (·.id ≠ sessionId)).flatMap (·.recordingIntervals))

end Kanat.Sessions
