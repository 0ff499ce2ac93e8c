import Mathlib.Data.Rat.Floor
import Kanat.Announcer
import Kanat.Sessions

/-! # Recorded video

`services/recordings.py`. MediaMTX names a file after the moment it started recording, and a replay copy of a
part is named `<alias>_<recording start>_<seconds>.mp4`. Times are instants in microseconds. -/
namespace Kanat.Recordings
open Rounding (pyRound)

/-- A stretch of time as (start, end). -/
abbrev Window := ℤ × ℤ

def segment : ℤ := 600 * 1000000

def overlaps (began ended : ℤ) (window : Window) : Bool := began < window.2 && window.1 < ended

/-- Overlaps what a Session recorded, and nothing a remaining Session recorded. -/
def belongs (windows otherWindows : List Window) (began ended : ℤ) : Bool :=
  windows.any (overlaps began ended) && !otherWindows.any (overlaps began ended)

/-- `written` is the last write of the file, if it is still there. -/
def fileEnd (written : Option ℤ) (began : ℤ) : ℤ := min (max (written.getD began) began) (began + segment)

/-- What `mediamtx.yml` defines: names, regular expressions, and whether everything else. -/
structure ConfigPaths where
  names : List String
  patterns : List (String → Bool)
  catchAll : Bool

def ConfigPaths.defines (c : ConfigPaths) (name : String) : Bool := c.names.contains name || c.patterns.any (· name)

/-- Whether a folder is one of the cameras', present or past. -/
def cameraFolder (configPaths : Option ConfigPaths) (folder : String) : Bool :=
  match configPaths with
  | none => false
  | some c => !c.catchAll && !c.defines folder

/-- A replay copy's name, its length in the thousandths of a second the name holds. -/
structure CacheName where
  cameraAlias : String
  start : ℤ
  millis : ℤ
  deriving DecidableEq

def cacheName (cameraAlias : String) (start : ℤ) (durationS : ℚ) : CacheName := ⟨cameraAlias, start, pyRound (durationS * 1000)⟩

def CacheName.ended (c : CacheName) : ℤ := c.start + c.millis * 1000

end Kanat.Recordings
