import Mathlib.Algebra.Order.Ring.Rat
import Mathlib.Data.List.Sort
import Mathlib.Data.Prod.Lex
import Mathlib.Data.String.Basic
import Kanat.InsertionOrderDict
import Kanat.InterleavedThreads

/-! # Pruning the replay cache

`_mark_in_use`, `_forget_finished_plays`, `_unlink_unless_in_use`, `_prune_cache`, `replay_file` and what
`delete_session_video` does to the cache, in `services/recordings.py`, one call at a time. Times are in seconds. -/
namespace Kanat.PruneCache
open InsertionOrderDict InterleavedThreads ResumptionPrograms

def cacheMaxAgeS : ℚ := 24 * 3600

def partialMaxAgeS : ℚ := 3600

def inUseS : ℚ := 15 * 60

/-- A file of the cache. -/
structure Path where
  stem : String
  suffix : String
  deriving DecidableEq

structure Stat where
  mtime : ℚ
  size : ℕ
  deriving DecidableEq

/-- A file and what it was found to be. -/
structure Seen where
  file : Path
  stat : Stat
  deriving DecidableEq

def isPart (file : Path) : Bool := file.suffix = ".part"

def isCopy (file : Path) : Bool := file.suffix = ".mp4"

/-- What a file is removed for. The first three are a prune's. -/
inductive Why where
  | abandoned
  | expired
  | overLimit
  | broken
  | withdrawn
  deriving DecidableEq

def Why.pruned : Why → Bool
  | abandoned | expired | overLimit => true
  | broken | withdrawn => false

/-- How the chunks of a recording end: all came, MediaMTX stopped, or they could not be written. -/
inductive Ending where
  | whole
  | broken
  | unwritable
  deriving DecidableEq

inductive Exn where
  | partWithdrawn
  | mediaMTXUnreachable
  | fileNotFound
  | osError
  deriving DecidableEq

/-- `lockGuard` and `unlockGuard` are of `_locks_guard`, `lockPart` and `unlockPart` of `_part_lock`. -/
inductive Op where
  | lockGuard
  | unlockGuard
  | monotonic
  | time
  | utcNow
  | setMark (path : Path) (upTo : ℚ)
  | dropMarks (now : ℚ)
  | isInUse (path : Path)
  | iterdir
  | stat (path : Path)
  | unlink (why : Why) (path : Path)
  | budget
  | lockPart (path : Path)
  | unlockPart (path : Path)
  | stillAllowed
  | pathExists (path : Path)
  | touch (path : Path)
  | openRecording
  | openPart (path : Path)
  | write (path : Path) (length : ℕ)
  | replace (source target : Path)
  deriving DecidableEq

/-- A recording is opened with the lengths of the chunks that come of it, and how they end. -/
def Ans : Op → Type
  | .monotonic | .time | .utcNow | .budget => ℚ
  | .isInUse _ | .unlink .. | .stillAllowed | .pathExists _ | .replace .. => Bool
  | .iterdir => List Path
  | .stat _ => Option Stat
  | .openRecording => Option (List ℕ × Ending)
  | _ => Unit

abbrev M := Prog Ans Exn

def perform (o : Op) : M (Ans o) := Prog.perform o

def markInUse (path : Path) : M Unit := do
  perform .lockGuard
  let now : ℚ ← perform .monotonic
  perform (.setMark path (now + inUseS))
  perform .unlockGuard

def forgetFinishedPlays : M Unit := do
  let now : ℚ ← perform .monotonic
  perform .lockGuard
  perform (.dropMarks now)
  perform .unlockGuard

def unlinkUnlessInUse (why : Why) (file : Path) : M Bool := do
  perform .lockGuard
  match ← perform (.isInUse file) with
  | true => do
    perform .unlockGuard
    return false
  | false => do
    let _ ← perform (.unlink why file)
    perform .unlockGuard
    return true

/-- What a prune found that was last written more than `PARTIAL_MAX_AGE_S` before. -/
def abandoned (now : ℚ) (s : Seen) : Bool := isPart s.file && partialMaxAgeS < now - s.stat.mtime

/-- In the order `_prune_cache` takes them: `(mtime, size, file)`. -/
def Seen.key (s : Seen) : ℚ ×ₗ ℕ ×ₗ String := toLex (s.stat.mtime, toLex (s.stat.size, s.file.stem ++ s.file.suffix))

def totalSize (kept : List Seen) : ℚ := (kept.map fun s => (s.stat.size : ℚ)).sum

section
variable (readStart : String → Option ℚ)

/-- `readStart` is what `_read_cache_name` reads of a name: when its recording started, if it can be read. -/
def tooOld (now expired : ℚ) (s : Seen) : Bool :=
  match readStart s.file.stem with
  | some start => start < expired
  | none => cacheMaxAgeS < now - s.stat.mtime

/-- What `_prune_cache` keeps of the files left. A file that is gone is passed over. -/
def scan (now expired : ℚ) : List Path → List Seen → M (List Seen)
  | [], kept => return kept
  | file :: files, kept => do
    match ← perform (.stat file) with
    | none => scan now expired files kept
    | some stat =>
      if isPart file then
        if partialMaxAgeS < now - stat.mtime then do
          let _ ← perform (.unlink .abandoned file)
          scan now expired files kept
        else scan now expired files kept
      else if isCopy file then
        if tooOld readStart now expired ⟨file, stat⟩ then do
          let _ ← unlinkUnlessInUse .expired file
          scan now expired files kept
        else scan now expired files (kept ++ [⟨file, stat⟩])
      else scan now expired files kept

def removeOver (budget total : ℚ) : List Seen → M Unit
  | [] => return ()
  | s :: rest =>
    if total ≤ budget then return ()
    else do
      match ← unlinkUnlessInUse .overLimit s.file with
      | true => removeOver budget (total - s.stat.size) rest
      | false => removeOver budget total rest

def pruneCache : M Unit := do
  forgetFinishedPlays
  let now ← perform .time
  let utc : ℚ ← perform .utcNow
  let files ← perform .iterdir
  let kept ← scan readStart now (utc - cacheMaxAgeS) files []
  let budget ← perform .budget
  removeOver budget (totalSize kept) (kept.insertionSort fun a b => a.key ≤ b.key)

/-- Where the copy is not there yet. -/
def fetch (path part : Path) : M Unit := do
  pruneCache readStart
  match ← perform .openRecording with
  | none => throw .mediaMTXUnreachable
  | some (chunks, ending) => do
    perform (.openPart part)
    chunks.forM fun length => perform (.write part length)
    match ending with
    | .unwritable => throw .osError
    | .broken => do
      let _ ← perform (.unlink .broken part)
      throw .mediaMTXUnreachable
    | .whole => do
      match ← perform (.replace part path) with
      | false => throw .fileNotFound
      | true => do
        -- its size is read for the log
        match ← perform (.pathExists path) with
        | false => throw .fileNotFound
        | true => pruneCache readStart

/-- Under the part's lock. -/
def replayPart (path part : Path) : M Unit := do
  match ← perform .stillAllowed with
  | false => throw .partWithdrawn
  | true => do
    markInUse path
    match ← perform (.pathExists path) with
    | true => perform (.touch path)
    | false => fetch readStart path part

def replayFile (stem : String) : M Unit := do
  perform (.lockPart ⟨stem, ".mp4"⟩)
  Prog.tryCatch (replayPart readStart ⟨stem, ".mp4"⟩ ⟨stem, ".part"⟩) fun e => do
    perform (.unlockPart ⟨stem, ".mp4"⟩)
    throw e
  perform (.unlockPart ⟨stem, ".mp4"⟩)

end

/-- Of one copy that `delete_session_video` deletes. -/
def deleteCopy (stem : String) : M Unit := do
  perform (.lockPart ⟨stem, ".mp4"⟩)
  let _ ← perform (.unlink .withdrawn ⟨stem, ".mp4"⟩)
  let _ ← perform (.unlink .withdrawn ⟨stem, ".part"⟩)
  perform (.unlockPart ⟨stem, ".mp4"⟩)

/-- A deletion is of the copies it found to be the Session's. -/
inductive Request where
  | clean
  | replay (stem : String)
  | delete (stems : List String)
  deriving DecidableEq

structure World where
  files : Dict Path Stat
  nodup : files.keys.Nodup
  inUse : Path → Option ℚ
  guard : Bool
  parts : List Path
  monotonic : ℚ
  time : ℚ

inductive Choice where
  | plain
  | listing (files : List Path)
  | allowed (allowed : Bool)
  | recording (recording : Option (List ℕ × Ending))
  | clocks (elapsed time : ℚ)

namespace World

def put (w : World) (path : Path) (stat : Stat) : World :=
  { w with files := w.files.put path stat, nodup := Dict.nodup_put w.nodup }

def pop (w : World) (path : Path) : World :=
  { w with files := w.files.pop path, nodup := Dict.nodup_pop w.nodup path }

/-- `_in_use.get(file, 0) > time.monotonic()` -/
def marked (w : World) (path : Path) : Bool := (w.inUse path).any fun upTo => w.monotonic < upTo

/-- What is written to a file that was removed while open is lost with it. -/
def append (w : World) (path : Path) (length : ℕ) : World :=
  match w.files.get path with
  | none => w
  | some stat => w.put path ⟨w.time, stat.size + length⟩

/-- A file that was not there is created empty. -/
def touched (w : World) (path : Path) : World :=
  w.put path ⟨w.time, ((w.files.get path).map Stat.size).getD 0⟩

def answer (budget : ℚ) (w : World) : (o : Op) → Choice → Option (Ans o × World)
  | .lockGuard, _ => if w.guard then none else some ((), { w with guard := true })
  | .unlockGuard, _ => some ((), { w with guard := false })
  | .monotonic, _ => some (w.monotonic, w)
  | .time, _ | .utcNow, _ => some (w.time, w)
  | .setMark path upTo, _ => some ((), { w with inUse := fun p => if p = path then some upTo else w.inUse p })
  | .dropMarks now, _ => some ((), { w with inUse := fun p => (w.inUse p).filter fun upTo => now < upTo })
  | .isInUse path, _ => some (w.marked path, w)
  | .iterdir, .listing files => if files.Perm w.files.keys then some (files, w) else none
  | .stat path, _ => some (w.files.get path, w)
  | .unlink _ path, _ => some ((w.files.get path).isSome, w.pop path)
  | .budget, _ => some (budget, w)
  | .lockPart path, _ => if path ∈ w.parts then none else some ((), { w with parts := path :: w.parts })
  | .unlockPart path, _ => some ((), { w with parts := w.parts.erase path })
  | .stillAllowed, .allowed allowed => some (allowed, w)
  | .pathExists path, _ => some ((w.files.get path).isSome, w)
  | .touch path, _ => some ((), w.touched path)
  | .openRecording, .recording recording => some (recording, w)
  | .openPart path, _ => some ((), w.put path ⟨w.time, 0⟩)
  | .write path length, _ => some ((), w.append path length)
  | .replace source target, _ =>
    match w.files.get source with
    | none => some (false, w)
    | some stat => some (true, (w.pop source).put target stat)
  | _, _ => none

/-- Time passes, and the clock on the wall may be set. -/
def drift (w : World) : Choice → Option World
  | .clocks elapsed time => if 0 ≤ elapsed then some { w with monotonic := w.monotonic + elapsed, time } else none
  | _ => none

end World

def program (readStart : String → Option ℚ) : Request → M (Option Request)
  | .clean => (pruneCache readStart).bind fun _ => .ret none
  | .replay stem => (replayFile readStart stem).bind fun _ => .ret none
  | .delete stems => (stems.forM deleteCopy).bind fun _ => .ret none

def system (readStart : String → Option ℚ) (budget : ℚ) : System Ans Exn World Request Choice where
  program := program readStart
  answer := World.answer budget
  drift := World.drift

end Kanat.PruneCache
