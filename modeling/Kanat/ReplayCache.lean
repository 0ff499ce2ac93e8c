import Mathlib.Data.List.AList
import Kanat.Recordings

/-! # The replay cache

`replay_file` and what `delete_session_video` does to the cache, in `services/recordings.py`: requests for parts
and the deletion of one Session, step by step, each part's download under the part's lock. -/
namespace Kanat.ReplayCache
open Recordings
open Bullets (Uuid)

/-- Who holds or waits for a part's lock. -/
inductive Party where
  | request (i : ℕ)
  | deletion
  deriving DecidableEq

/-- `[Lock, users]`. -/
structure PartLock where
  holder : Option Party
  users : ℕ
  deriving DecidableEq

abbrev Locks := AList fun _ : CacheName => PartLock

namespace Locks

def entry (locks : Locks) (path : CacheName) : PartLock := (locks.lookup path).getD ⟨none, 0⟩

def enter (locks : Locks) (path : CacheName) : Locks :=
  locks.insert path { locks.entry path with users := (locks.entry path).users + 1 }

def acquire (locks : Locks) (path : CacheName) (party : Party) : Option Locks :=
  if (locks.entry path).holder = none then
    some (locks.insert path { locks.entry path with holder := some party })
  else none

def release (locks : Locks) (path : CacheName) : Locks :=
  locks.insert path { locks.entry path with holder := none }

/-- The entry is dropped when its last user leaves. -/
def leave (locks : Locks) (path : CacheName) : Locks :=
  if (locks.entry path).users - 1 = 0 then locks.erase path
  else locks.insert path { locks.entry path with users := (locks.entry path).users - 1 }

end Locks

/-- Where a request is in `replay_file`. -/
inductive Point where
  | outside | waiting | holding | allowed | found | opening | downloading | broken | fetched | leaving
  | released | answered
  deriving DecidableEq

structure Request where
  sessionId : Uuid
  cameraAlias : String
  start : ℤ
  durationS : ℚ
  point : Point
  again : Bool
  deriving DecidableEq

def Request.path (r : Request) : CacheName := cacheName r.cameraAlias r.start r.durationS

/-- A Session to delete, what it recorded, and what the others did. -/
structure Deletion where
  sessionId : Uuid
  windows : List Window
  otherWindows : List Window

/-- Whether the deletion takes the copies of this name. -/
def Deletion.takes (d : Deletion) (copy : CacheName) : Bool :=
  belongs d.windows d.otherWindows copy.start copy.ended

/-- Where the deletion is, and the copies it still has to delete. -/
inductive Stage where
  | asked
  | committed
  | read
  | looking (downloading : List CacheName)
  | globbed (copies : List CacheName)
  | next (left : List CacheName)
  | waiting (copy : CacheName) (left : List CacheName)
  | holding (copy : CacheName) (left : List CacheName)
  | unlinking (copy : CacheName) (left : List CacheName)
  | leaving (copy : CacheName) (left : List CacheName)
  | released (copy : CacheName) (left : List CacheName)
  | returned
  deriving DecidableEq

inductive RequestAct where
  | enter | acquire | check | look | touch | opened | fetched | broke | discard | rename | raised
  | release | leave | again
  deriving DecidableEq

inductive DeletionAct where
  | commit | read | snapshot | glob | globPartials
  | enterCopy (copy : CacheName)
  | acquireCopy | unlinkCopy | unlinkPartial | releaseCopy | leaveCopy | returns
  deriving DecidableEq

/-- A step of a request, of the deletion, of the cache's cleaning, or another Session's deletion. -/
inductive Act where
  | request (i : ℕ) (a : RequestAct)
  | deletion (a : DeletionAct)
  | prune (copies partials : List CacheName)
  | otherDeleted (sessionId : Uuid)
  deriving DecidableEq

/-- The Sessions there are, the finished copies and the partial downloads. -/
structure World where
  sessions : List Uuid
  finished : List CacheName
  partials : List CacheName
  locks : Locks
  requests : List Request
  stage : Stage

namespace Point

/-- From the part's lock taken until it is released. -/
def holds : Point → Bool
  | .holding | .allowed | .found | .opening | .downloading | .broken | .fetched | .leaving => true
  | .outside | .waiting | .released | .answered => false

/-- Counted among the users of the part's lock. -/
def registered : Point → Bool
  | .outside | .answered => false
  | _ => true

/-- Let past `still_allowed`. -/
def busy : Point → Bool
  | .allowed | .found | .opening | .downloading | .broken | .fetched => true
  | .outside | .waiting | .holding | .leaving | .released | .answered => false

end Point

namespace World

def goes (w : World) (i : ℕ) (r : Request) (point : Point) : World :=
  { w with requests := w.requests.set i { r with point } }

def requestStep (w : World) (i : ℕ) (r : Request) : RequestAct → Option World
  | .enter =>
    if r.point = .outside then some { w.goes i r .waiting with locks := w.locks.enter r.path } else none
  | .acquire =>
    if r.point = .waiting then
      (w.locks.acquire r.path (.request i)).map fun locks => { w.goes i r .holding with locks }
    else none
  | .check =>
    if r.point = .holding then some (w.goes i r (if r.sessionId ∈ w.sessions then .allowed else .leaving)) else none
  | .look =>
    if r.point = .allowed then some (w.goes i r (if r.path ∈ w.finished then .found else .opening)) else none
  -- a copy pruned meanwhile is created anew, empty
  | .touch =>
    if r.point = .found then some { w.goes i r .leaving with finished := w.finished.insert r.path } else none
  | .opened =>
    if r.point = .opening then some { w.goes i r .downloading with partials := w.partials.insert r.path } else none
  | .fetched => if r.point = .downloading then some (w.goes i r .fetched) else none
  | .broke => if r.point = .downloading then some (w.goes i r .broken) else none
  | .discard =>
    if r.point = .broken then
      some { w.goes i r .leaving with partials := w.partials.filter (· ≠ r.path) }
    else none
  | .rename =>
    if r.point = .fetched then
      if r.path ∈ w.partials then
        some { w.goes i r .leaving with
          finished := w.finished.insert r.path
          partials := w.partials.filter (· ≠ r.path) }
      else some (w.goes i r .leaving)
    else none
  -- whatever else ends it: no answer, no space, a partial download pruned
  | .raised => if r.point.holds then some (w.goes i r .leaving) else none
  | .release =>
    if r.point = .leaving then some { w.goes i r .released with locks := w.locks.release r.path } else none
  | .leave =>
    if r.point = .released then some { w.goes i r .answered with locks := w.locks.leave r.path } else none
  -- a copy dropped before it was served is fetched once more
  | .again =>
    if r.point = .answered && !r.again then some (w.goes i { r with again := true } .outside) else none

variable (d : Deletion)

/-- Every other Session that is there recorded what is requested of it. -/
def authorised (w : World) : Bool :=
  w.requests.all fun r => r.sessionId = d.sessionId || r.sessionId ∉ w.sessions ||
    d.otherWindows.any (overlaps r.path.start r.path.ended)

def deletionStep (w : World) : DeletionAct → Option World
  | .commit =>
    if w.stage = .asked then
      some { w with sessions := w.sessions.filter (· ≠ d.sessionId), stage := .committed }
    else none
  | .read => if w.stage = .committed && w.authorised d then some { w with stage := .read } else none
  | .snapshot => if w.stage = .read then some { w with stage := .looking w.locks.keys } else none
  | .glob =>
    match w.stage with
    | .looking downloading => some { w with stage := .globbed (w.finished ++ downloading) }
    | _ => none
  | .globPartials =>
    match w.stage with
    | .globbed copies => some { w with stage := .next ((copies ++ w.partials).filter d.takes) }
    | _ => none
  | .enterCopy copy =>
    match w.stage with
    | .next left =>
      if copy ∈ left then
        some { w with locks := w.locks.enter copy, stage := .waiting copy (left.filter (· ≠ copy)) }
      else none
    | _ => none
  | .acquireCopy =>
    match w.stage with
    | .waiting copy left =>
      (w.locks.acquire copy .deletion).map fun locks => { w with locks, stage := .holding copy left }
    | _ => none
  | .unlinkCopy =>
    match w.stage with
    | .holding copy left =>
      some { w with finished := w.finished.filter (· ≠ copy), stage := .unlinking copy left }
    | _ => none
  | .unlinkPartial =>
    match w.stage with
    | .unlinking copy left =>
      some { w with partials := w.partials.filter (· ≠ copy), stage := .leaving copy left }
    | _ => none
  | .releaseCopy =>
    match w.stage with
    | .leaving copy left => some { w with locks := w.locks.release copy, stage := .released copy left }
    | _ => none
  | .leaveCopy =>
    match w.stage with
    | .released copy left => some { w with locks := w.locks.leave copy, stage := .next left }
    | _ => none
  | .returns => if w.stage = .next [] then some { w with stage := .returned } else none

def step (w : World) : Act → Option World
  | .request i a => w.requests[i]?.bind fun r => w.requestStep i r a
  | .deletion a => w.deletionStep d a
  | .prune copies partials => some { w with
      finished := w.finished.filter (· ∉ copies)
      partials := w.partials.filter (· ∉ partials) }
  | .otherDeleted sessionId => some { w with sessions := w.sessions.filter (· ≠ sessionId) }

def run (w : World) : List Act → Option World
  | [] => some w
  | a :: acts => (w.step d a).bind fun w' => w'.run acts

/-- Requests authorised before the deletion, and whatever the cache holds already. -/
def start (sessions : List Uuid) (finished partials : List CacheName) (requests : List Request) : World where
  sessions
  finished
  partials
  locks := ∅
  requests := requests.map fun r => { r with point := .outside, again := false }
  stage := .asked

end World
end Kanat.ReplayCache
