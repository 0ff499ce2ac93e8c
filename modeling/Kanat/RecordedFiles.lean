import Kanat.ConditionalRuns
import Kanat.Recordings
import Kanat.SessionInvariants

/-! # The cameras' files and the deletion of Sessions

`delete_session` of `routers/sessions.py` and what `delete_session_video` of `services/recordings.py` does to the
recordings, step by step, with MediaMTX recording and with requests on other Sessions in between. -/
namespace Kanat.RecordedFiles
open Recordings Sessions
open Bullets (Uuid)

/-- A folder and the moment the file in it is named after. -/
abbrev FileName := String × ℤ

/-- `ended` is when MediaMTX ended the file, `present` whether it has not been removed. -/
structure RecordedFile where
  cameraAlias : String
  began : ℤ
  written : ℤ
  ended : Option ℤ
  present : Bool
  deriving DecidableEq

def RecordedFile.name (f : RecordedFile) : FileName := (f.cameraAlias, f.began)

def RecordedFile.running (cameraAlias : String) (f : RecordedFile) : Bool :=
  f.cameraAlias = cameraAlias && f.ended.isNone

inductive Stage where
  | committed
  | synced
  | read
  | scanning (left : List FileName)
  | removing (file : FileName) (left : List FileName)
  | finished
  | failed
  deriving DecidableEq

/-- A deletion that has committed, and what it has read since. -/
structure Deletion where
  sessionId : Uuid
  windows : List Window
  otherWindows : List Window
  readAt : ℤ
  configPaths : Option ConfigPaths
  stage : Stage

/-- `record` lists the cameras that MediaMTX is set to record. -/
structure World where
  now : ℤ
  db : Database
  record : List String
  files : List RecordedFile
  deletions : List Deletion

inductive Act where
  | tick (now : ℤ)
  | ask (a : Asked)
  | sync (reached : List (String × Bool))
  | start (cameraAlias : String)
  | write (cameraAlias : String)
  | stop (cameraAlias : String)
  | commit (sessionId : Uuid)
  | syncs (k : ℕ) (reached : List (String × Bool))
  | reads (k : ℕ)
  | scans (k : ℕ) (configPaths : Option ConfigPaths) (listed : List FileName)
  | looks (k : ℕ)
  | unlinks (k : ℕ)
  | finishes (k : ℕ)
  | fails (k : ℕ)

/-- Whether an active Session is recording now. -/
def recordingSessionActive (db : Database) : Bool :=
  db.sessions.any fun s => s.isActive && s.recordingIntervals.any RecordingInterval.isOpen

namespace World

/-- MediaMTX ends the file of a camera it is no longer set to record. -/
def setRecord (w : World) (cameraAlias : String) (record : Bool) : World :=
  if record then { w with record := w.record.insert cameraAlias }
  else { w with
    record := w.record.filter (· ≠ cameraAlias)
    files := w.files.map fun f => if f.running cameraAlias then { f with ended := some w.now } else f }

/-- The cameras MediaMTX was reached for, each with whether it is enabled. -/
def sync (w : World) (reached : List (String × Bool)) : World :=
  reached.foldl (fun w' camera => w'.setRecord camera.1 (recordingSessionActive w.db && camera.2)) w

/-- A Session's id is drawn anew, whatever has been deleted. -/
def asks (w : World) (a : Asked) : Bool :=
  w.now ≤ a.now₁ && a.now₁ ≤ a.now₂ && match a.request with
    | .create id _ => w.deletions.all (·.sessionId ≠ id)
    | .update _ _ => true
    | .delete _ => false

def find (w : World) (name : FileName) : Option RecordedFile := w.files.find? fun f => f.name = name && f.present

def listed (w : World) (configPaths : Option ConfigPaths) : List FileName :=
  (w.files.filter fun f => f.present && cameraFolder configPaths f.cameraAlias).map RecordedFile.name

/-- Whether the deletion takes the file of this name. -/
def takes (w : World) (d : Deletion) (file : FileName) : Bool :=
  belongs d.windows d.otherWindows file.2 (fileEnd ((w.find file).map (·.written)) file.2)

def goes (w : World) (k : ℕ) (d : Deletion) (stage : Stage) : World :=
  { w with deletions := w.deletions.set k { d with stage } }

def step (w : World) : Act → Option World
  | .tick now => if w.now ≤ now then some { w with now } else none
  | .ask a => if w.asks a then some { w with now := a.now₂, db := (a.answer w.db).2 } else none
  | .sync reached => some (w.sync reached)
  | .start cameraAlias =>
    if cameraAlias ∈ w.record && w.files.all fun f => !f.running cameraAlias && f.name ≠ (cameraAlias, w.now) then
      some { w with files := w.files ++ [⟨cameraAlias, w.now, w.now, none, true⟩] }
    else none
  | .write cameraAlias =>
    if w.files.all fun f => !f.running cameraAlias || w.now ≤ f.began + Recordings.segment then
      some { w with files := w.files.map fun f => if f.running cameraAlias then { f with written := w.now } else f }
    else none
  | .stop cameraAlias => some { w with
      files := w.files.map fun f => if f.running cameraAlias then { f with ended := some w.now } else f }
  | .commit sessionId =>
    match deleteSession sessionId w.now w.db with
    | (.error _, _) => none
    | (.ok windows, db) => some { w with
        db
        deletions := w.deletions ++ [⟨sessionId, windows, [], w.now, none, .committed⟩] }
  | .syncs k reached =>
    w.deletions[k]?.bind fun d =>
      if d.stage = .committed then some ((w.sync reached).goes k d .synced) else none
  | .reads k =>
    w.deletions[k]?.bind fun d =>
      if d.stage = .synced then
        some (w.goes k { d with
          otherWindows := otherRecordedWindows d.sessionId w.now w.db
          readAt := w.now } .read)
      else none
  | .scans k configPaths listed =>
    w.deletions[k]?.bind fun d =>
      if d.stage = .read && listed.isPerm (w.listed configPaths) then
        some (w.goes k { d with configPaths } (.scanning listed))
      else none
  | .looks k =>
    w.deletions[k]?.bind fun d =>
      match d.stage with
      | .scanning (file :: left) => some (w.goes k d (if w.takes d file then .removing file left else .scanning left))
      | _ => none
  | .unlinks k =>
    w.deletions[k]?.bind fun d =>
      match d.stage with
      | .removing file left => some { w.goes k d (.scanning left) with
          files := w.files.map fun f => if f.name = file then { f with present := false } else f }
      | _ => none
  | .finishes k =>
    w.deletions[k]?.bind fun d => if d.stage = .scanning [] then some (w.goes k d .finished) else none
  | .fails k =>
    w.deletions[k]?.bind fun d =>
      match d.stage with
      | .read | .scanning _ | .removing _ _ => some (w.goes k d .failed)
      | _ => none

def run (w : World) (acts : List Act) : Option World := ConditionalRuns.runTaken step w acts

/-- No Session yet, and no file. -/
def empty (now : ℤ) (cameras : List Camera) (record : List String) : World := ⟨now, ⟨cameras, []⟩, record, [], []⟩

end World
end Kanat.RecordedFiles
