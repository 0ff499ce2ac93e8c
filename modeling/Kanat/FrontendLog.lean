import Kanat.RotatedFiles

/-! # The app's log: frontend.log

`electron/logs.ts`: what a page may write, and the files its lines are kept in. Text is in UTF-16 units, as
JavaScript's is. -/
namespace Kanat.FrontendLog
open RotatedFiles (Bounded Fate Faults Files Limits Log)

abbrev Text := List UInt16

def ascii (s : String) : Text := s.toList.map fun c => c.toNat.toUInt16

def maxBytes : ℕ := 10 * 1024 * 1024
def backups : ℕ := 10
def maxMessage : ℕ := 2000
def maxContext : ℕ := 8000

def own : List Text := ["time", "level", "service", "logger", "message", "page"].map ascii
def levels : List Text := ["debug", "info", "warning", "error"].map ascii

/-- What JSON is made of, and its text; `none` where `JSON.stringify` throws. -/
structure Json where
  Value : Type
  text : Text → Value
  stringify : List (Text × Value) → Option Text

variable {J : Json}

/-- A value as `typeof` sees it; of an object its entries, and its text. -/
inductive Unknown (J : Json) where
  | text (s : Text)
  | object (fields : List (Text × J.Value)) (json : Option Text)
  | other

/-- What of an object a page hands over is looked at. -/
structure Handed (J : Json) where
  level : Unknown J
  message : Unknown J
  page : Unknown J
  time : Unknown J
  context : Unknown J

structure LogEntry (J : Json) where
  level : Text
  message : Text
  logger : Option Text := none
  page : Option Text := none
  time : Option Text := none
  context : Option (List (Text × J.Value)) := none

/-- `value.slice(0, n)` of a string, `undefined` of anything else. -/
def Unknown.cut (n : ℕ) : Unknown J → Option Text
  | .text s => some (s.take n)
  | _ => none

/-- What is kept of a context, if any; `none` where its text cannot be had. -/
def contextFields : Unknown J → Option (Option (List (Text × J.Value)))
  | .object fields json =>
    json.map fun json =>
      some (if json.length ≤ maxContext then fields else [(ascii "context_cut", J.text (json.take maxContext))])
  | _ => some none

/-- A page's line, checked; `none` is not an object, no log line, or thrown out of. -/
def fromPage (entry : Option (Handed J)) : Option (LogEntry J) :=
  match entry with
  | none => none
  | some handed =>
    match handed.level, handed.message with
    | .text level, .text message =>
      if level ∈ levels then
        (contextFields handed.context).map fun context => {
          level
          message := message.take maxMessage
          page := handed.page.cut 200
          time := handed.time.cut 40
          context }
      else none
    | _, _ => none

/-- The object of a line, `now` the time. -/
def lineFields (now : Text) (entry : LogEntry J) : List (Text × J.Value) :=
  [(ascii "time", J.text (entry.time.getD now)), (ascii "level", J.text entry.level),
    (ascii "service", J.text (ascii "frontend")), (ascii "logger", J.text (entry.logger.getD (ascii "app"))),
    (ascii "message", J.text entry.message)] ++
  (match entry.page with
    | none => []
    | some page => if page = [] then [] else [(ascii "page", J.text page)]) ++
  (entry.context.getD []).filter fun field => field.1 ∉ own

def isHigh (u : UInt16) : Bool := 0xD800 ≤ u && u < 0xDC00
def isLow (u : UInt16) : Bool := 0xDC00 ≤ u && u < 0xE000

/-- `Buffer.byteLength(text, 'utf8')`; a surrogate alone is written as the three bytes of U+FFFD. -/
def byteLength : Text → ℕ
  | [] => 0
  | [u] => if u < 0x80 then 1 else if u < 0x800 then 2 else 3
  | u :: v :: rest =>
    if isHigh u && isLow v then 4 + byteLength rest
    else (if u < 0x80 then 1 else if u < 0x800 then 2 else 3) + byteLength (v :: rest)

def limits : Limits Text where
  size line := byteLength line + 1
  maxBytes := maxBytes
  backups := backups
  backups_pos := by decide

/-- One line to write: of a page over IPC, or the main process's own. -/
inductive Source (J : Json) where
  | page (entry : Option (Handed J))
  | main (level message : Text) (context : Option (List (Text × J.Value)))

def Source.entry : Source J → Option (LogEntry J)
  | .page entry => fromPage entry
  | .main level message context => some { level, message, logger := some (ascii "electron"), context }

def lineOf (now : Text) (entry : LogEntry J) : Option Text := J.stringify (lineFields now entry)

/-- `writeLog`; with no file the line is on the console. -/
def writeLog (file : Bool) (log : Log Text) (faults : Faults) (line : Text) : Log Text :=
  if file then log.write limits faults line else { log with console := log.console ++ [line] }

/-- A line asked for at a time, and what fails as it is written. -/
structure Asked (J : Json) where
  source : Source J
  now : Text
  faults : Faults := {}

def Asked.line (a : Asked J) : Option Text := a.source.entry.bind (lineOf a.now)

def step (file : Bool) (log : Log Text) (a : Asked J) : Log Text :=
  match a.line with
  | none => log
  | some line => writeLog file log a.faults line

def run (file : Bool) (log : Log Text) (asked : List (Asked J)) : Log Text := asked.foldl (step file) log

/-- What was asked for that is a line, and what fails as it is written. -/
def lines (asked : List (Asked J)) : List (Faults × Text) := asked.filterMap fun a => a.line.map (a.faults, ·)

theorem run_eq (log : Log Text) (asked : List (Asked J)) : run true log asked = log.writeAll limits (lines asked) := by
  induction asked generalizing log with
  | nil => rfl
  | cons a asked ih =>
    rw [run, List.foldl_cons]
    refine (ih (step true log a)).trans ?_
    cases hline : a.line with
    | none =>
      have hlines : lines (a :: asked) = lines asked := by simp [lines, hline]
      rw [step, hline, hlines]
    | some line =>
      have hlines : lines (a :: asked) = (a.faults, line) :: lines asked := by simp [lines, hline]
      rw [step, hline, hlines]
      rfl

/-- What the files hold is of the lines asked for, in the order they came, each whole or as much of it as an append
that failed had written; every line not written whole was left on the console, and none is kept past the tenth file.
While no file that is there is missed, it is the last of what was written, and no file is over its size but for one
line, or part of one, alone. -/
theorem log_keeps_lines (log : Log Text) (asked : List (Asked J)) :
    ∃ fates : List (Fate Text), fates.map Fate.line = asked.filterMap Asked.line ∧ (∀ f ∈ fates, f.Fair limits) ∧
      ((run true log asked).history limits).Sublist (log.history limits ++ fates.filterMap Fate.piece) ∧
      (run true log asked).console = log.console ++ (fates.filter Fate.left).map Fate.line ∧
      (∀ k, backups < k → (run true log asked).files k = log.files k) ∧
      ((∀ a ∈ asked, ∀ k, a.faults.missed k = false) →
        (run true log asked).history limits <:+ log.history limits ++ fates.filterMap Fate.piece ∧
          (Bounded limits log.files → Bounded limits (run true log asked).files)) := by
  have htext : (lines asked).map Prod.snd = asked.filterMap Asked.line := by
    rw [lines, List.map_filterMap]
    refine List.filterMap_congr fun a _ => ?_
    cases a.line <;> rfl
  obtain ⟨fates, hlines, hfair, hsub, hconsole, habove, hseen⟩ := RotatedFiles.writeAll_spec limits (lines asked) log
  rw [run_eq, ← htext]
  refine ⟨fates, hlines, hfair, hsub, hconsole, habove, fun hall => hseen fun x hx => ?_⟩
  obtain ⟨a, ha, hline⟩ := List.mem_filterMap.mp hx
  obtain ⟨line, -, rfl⟩ := Option.map_eq_some_iff.mp hline
  exact hall a ha

end Kanat.FrontendLog
