import Kanat.Rounding
import Mathlib.Data.Rat.Floor

/-! # One log line a request

`core/request_log.py`. What the app does with a request is any messages it sends, each of which may fail, and any end:
it returns, raises, or is cancelled with its client gone. Errors are of any type. -/
namespace Kanat.RequestLog

inductive Level where
  | debug
  | info
  | warning
  | error
  deriving DecidableEq

structure Scope where
  type : String
  method : String
  path : String
  queryString : String := ""
  headers : List (String × String) := []

inductive Message where
  | start (status : ℕ) (headers : List (String × String))
  | body (moreBody : Bool)
  | other
  deriving DecidableEq

/-- A message sent, until `now`. -/
structure Sent where
  message : Message
  ok : Bool
  now : ℚ

inductive Ending (E : Type) where
  | returned
  | raised (e : E)
  | cancelled

/-- What a line says. -/
inductive Said where
  | answered (code : ℕ)
  | wentAway
  | workFailed
  deriving DecidableEq

structure Line (E : Type) where
  level : Level
  said : Said
  method : String
  path : String
  status : Option ℕ
  /-- `duration_ms`; a line for work after the answer has none. -/
  duration : Option ℚ
  query : Option String
  excInfo : Option E

def Line.text {E : Type} (l : Line E) : String :=
  match l.said with
  | .answered code => s!"{l.method} {l.path} {code}"
  | .wentAway => s!"{l.method} {l.path}: the client went away before an answer"
  | .workFailed => s!"{l.method} {l.path}: work after the answer failed"

/-- `/sessions/<id>/recordings/<id>/video`. -/
def isVideo (path : List Char) : Bool :=
  match path.splitOn '/' with
  | [root, sessions, session, recordings, recording, video] =>
    root = [] && sessions = "sessions".toList && session ≠ [] && recordings = "recordings".toList && recording ≠ [] &&
      video = "video".toList
  | _ => false

/-- `_QUIET.match`, whose `$` is also before a newline that ends the path. -/
def quiet (path : String) : Bool :=
  let full (p : List Char) := p = "/status".toList || p = "/health".toList || isVideo p
  let p := path.toList
  full p || (p.getLast? = some '\n' && full p.dropLast)

/-- `_level` -/
def levelOf (scope : Scope) (status : ℕ) : Level :=
  if 500 ≤ status then .error
  else if 400 ≤ status then .warning
  else if scope.method = "OPTIONS" || quiet scope.path then .debug
  else .info

/-- The id its lines carry: the client's own, or `fresh`. -/
def requestId (scope : Scope) (fresh : String) : String :=
  let given := ((scope.headers.filter fun h => h.1 = "x-request-id").getLast?.map Prod.snd).getD ""
  let cut := String.ofList (given.toList.take 64)
  if cut = "" then fresh else cut

variable {E : Type}

/-- `status`, `answered`, and what was logged and sent on. -/
structure State (E : Type) where
  status : Option ℕ := none
  answered : Bool := false
  lines : List (Line E) := []
  forwarded : List Message := []

/-- Milliseconds, to one decimal. -/
def durationMs (started now : ℚ) : ℚ := Rounding.pyRound ((now - started) * 1000 * 10) / 10

section
variable (scope : Scope) (rid : String) (started : ℚ)

def requestLine (status : Option ℕ) (failure : Option E) (now : ℚ) : Line E :=
  let line (level : Level) (said : Said) (status : Option ℕ) : Line E := {
    level
    said
    method := scope.method
    path := scope.path
    status
    duration := some (durationMs started now)
    query := if scope.queryString = "" then none else some (String.ofList (scope.queryString.toList.take 300))
    excInfo := failure }
  match failure, status with
  | none, none => line .warning .wentAway none
  | _, _ =>
    let code := status.getD 500
    line (if failure.isSome then .error else levelOf scope code) (.answered code) (some code)

/-- The line of work after the answer that raises. -/
def workFailed (e : E) : Line E := ⟨.error, .workFailed, scope.method, scope.path, none, none, none, some e⟩

/-- `log_request` -/
def State.logRequest (s : State E) (failure : Option E) (now : ℚ) : State E :=
  { s with answered := true, lines := s.lines ++ [requestLine scope started s.status failure now] }

/-- The answer's start carries the id. -/
def stamp : Message → Message
  | .start status headers => .start status (headers ++ [("x-request-id", rid)])
  | message => message

/-- `send_logged` -/
def State.send (s : State E) (x : Sent) : State E :=
  let s := match x.message with
    | .start status _ => { s with status := some status }
    | _ => s
  let s := { s with forwarded := s.forwarded ++ [stamp rid x.message] }
  if x.ok && x.message = .body false && !s.answered then s.logRequest scope started none x.now else s

/-- `__call__`: what is logged of a request, and what its client is sent; `fresh` is a new uuid's. -/
def call (fresh : String) (trace : List Sent) (ending : Ending E) (ended : ℚ) : State E :=
  if scope.type ≠ "http" then { forwarded := trace.map (·.message) }
  else
    let rid := requestId scope fresh
    let s : State E := trace.foldl (State.send scope rid started) {}
    match ending with
    | .raised e =>
      if s.answered then
        { s with lines := s.lines ++ [workFailed scope e] }
      else s.logRequest scope started (some e) ended
    | _ => if s.answered then s else s.logRequest scope started none ended

end

/-- The message that ends an answer, sent. -/
def Sent.ends (x : Sent) : Bool := x.ok && x.message = .body false

def Sent.status (x : Sent) : Option ℕ :=
  match x.message with
  | .start status _ => some status
  | _ => none

/-- The status the last start had. -/
def lastStatus (trace : List Sent) : Option ℕ := (trace.filterMap Sent.status).getLast?

section
variable (scope : Scope) (rid : String) (started : ℚ)

theorem send_eq (s : State E) (x : Sent) :
    s.send scope rid started x =
      let t : State E := { s with
        status := x.status.or s.status
        forwarded := s.forwarded ++ [stamp rid x.message] }
      if x.ends = true ∧ s.answered = false then t.logRequest scope started none x.now else t := by
  have hends : (x.ok && x.message = .body false && !s.answered) = true ↔ x.ends = true ∧ s.answered = false := by
    rw [Sent.ends, Bool.and_eq_true, Bool.not_eq_true']
  cases hmessage : x.message with
  | start code headers => simp [State.send, Sent.ends, Sent.status, hmessage]
  | other => simp [State.send, Sent.ends, Sent.status, hmessage]
  | body more =>
    have hstatus : x.status = none := by rw [Sent.status, hmessage]
    rw [hmessage] at hends
    rw [State.send, hmessage, hstatus]
    exact if_congr hends rfl rfl

/-- A message ends the answer, or says at most what it will be. -/
theorem send_ends (s : State E) {x : Sent} (hends : x.ends = true) (h : s.answered = false) :
    s.send scope rid started x =
      ⟨s.status, true, s.lines ++ [requestLine scope started s.status none x.now],
        s.forwarded ++ [stamp rid x.message]⟩ := by
  have hstatus : x.status = none := by
    rw [Sent.ends, Bool.and_eq_true, decide_eq_true_eq] at hends
    rw [Sent.status, hends.2]
  rw [send_eq, hstatus]
  exact if_pos ⟨hends, h⟩

theorem send_on (s : State E) {x : Sent} (h : ¬(x.ends = true ∧ s.answered = false)) :
    s.send scope rid started x =
      { s with status := x.status.or s.status, forwarded := s.forwarded ++ [stamp rid x.message] } := by
  rw [send_eq]
  exact if_neg h

theorem lastStatus_cons (x : Sent) (trace : List Sent) (status : Option ℕ) :
    (lastStatus (x :: trace)).or status = (lastStatus trace).or (x.status.or status) := by
  rw [lastStatus, lastStatus, List.filterMap_cons]
  cases x.status with
  | none => rfl
  | some code =>
    dsimp only
    rw [List.getLast?_cons]
    cases (trace.filterMap Sent.status).getLast? <;> rfl

/-- Once answered, nothing more is logged of the messages. -/
theorem foldl_answered (trace : List Sent) {s : State E} (h : s.answered = true) :
    let out := trace.foldl (State.send scope rid started) s
    out.answered = true ∧ out.lines = s.lines ∧
      out.forwarded = s.forwarded ++ trace.map fun x => stamp rid x.message := by
  induction trace generalizing s with
  | nil => exact ⟨h, rfl, (List.append_nil _).symm⟩
  | cons x trace ih =>
    have hsend : s.send scope rid started x = _ := send_on scope rid started s fun hopen => by simp [h] at hopen
    have hstill : (s.send scope rid started x).answered = true := by rw [hsend]; exact h
    obtain ⟨hanswered, hlines, hforwarded⟩ := ih hstill
    refine ⟨hanswered, hlines.trans (by rw [hsend]), hforwarded.trans ?_⟩
    rw [hsend, List.append_assoc]
    rfl

/-- The messages up to the one that ends the answer. -/
def upToEnd (trace : List Sent) : List Sent := trace.takeWhile fun x => !x.ends

/-- The line of a request is logged as its answer ends, with the status sent by then. -/
theorem foldl_open (trace : List Sent) {s : State E} (h : s.answered = false) :
    let out := trace.foldl (State.send scope rid started) s
    out.forwarded = (s.forwarded ++ trace.map fun x => stamp rid x.message) ∧
      match trace.find? Sent.ends with
      | some x => out.answered = true ∧
        out.lines = s.lines ++ [requestLine scope started ((lastStatus (upToEnd trace)).or s.status) none x.now]
      | none => out.answered = false ∧ out.lines = s.lines ∧ out.status = (lastStatus trace).or s.status := by
  induction trace generalizing s with
  | nil => exact ⟨(List.append_nil _).symm, h, rfl, rfl⟩
  | cons x trace ih =>
    by_cases hends : x.ends = true
    · have hsend : s.send scope rid started x = _ := send_ends scope rid started s hends h
      have hanswered : (s.send scope rid started x).answered = true := by rw [hsend]
      obtain ⟨hdone, hlines, hforwarded⟩ := foldl_answered scope rid started trace hanswered
      refine ⟨hforwarded.trans (by rw [hsend, List.append_assoc]; rfl), ?_⟩
      rw [List.find?_cons_of_pos hends, upToEnd, List.takeWhile_cons_of_neg (by simp [hends])]
      refine ⟨hdone, hlines.trans ?_⟩
      rw [hsend]
      rfl
    · have hsend : s.send scope rid started x = _ := send_on scope rid started s fun hboth => hends hboth.1
      have hstill : (s.send scope rid started x).answered = false := by rw [hsend]; exact h
      obtain ⟨hforwarded, hrest⟩ := ih hstill
      refine ⟨hforwarded.trans (by rw [hsend, List.append_assoc]; rfl), ?_⟩
      rw [List.find?_cons_of_neg hends, upToEnd, List.takeWhile_cons_of_pos (by simp [hends]), lastStatus_cons,
        lastStatus_cons]
      rw [hsend] at hrest
      rw [List.foldl_cons, hsend]
      exact hrest

end

def Ending.failure : Ending E → Option E
  | .raised e => some e
  | _ => none

@[simp] theorem requestLine_excInfo (scope : Scope) (started : ℚ) (status : Option ℕ) (failure : Option E) (now : ℚ) :
    (requestLine scope started status failure now).excInfo = failure := by
  cases failure <;> cases status <;> rfl

private theorem filterMap_workFailed (scope : Scope) (failure : Option E) :
    (failure.toList.map (workFailed scope)).filterMap Line.excInfo = failure.toList := by
  cases failure <;> rfl

/-- A request is logged once, whatever messages its app sends and however it ends: as its answer ends, with the status
it had by then, or else as the app does, a failure a 500 unless it had said otherwise. Only a failure after the answer
is one more line, and a failure is told once. -/
theorem request_logged_once (scope : Scope) (fresh : String) (started : ℚ) (trace : List Sent) (ending : Ending E)
    (ended : ℚ) (hhttp : scope.type = "http") :
    let out := call scope started fresh trace ending ended
    out.lines = (match trace.find? Sent.ends with
      | some x =>
        requestLine scope started (lastStatus (upToEnd trace)) none x.now ::
          ending.failure.toList.map (workFailed scope)
      | none => [requestLine scope started (lastStatus trace) ending.failure ended]) ∧
    out.lines.filterMap Line.excInfo = ending.failure.toList ∧
    out.forwarded = trace.map fun x => stamp (requestId scope fresh) x.message := by
  intro out
  have hout : out = call scope started fresh trace ending ended := rfl
  rw [call, if_neg (not_not.mpr hhttp)] at hout
  dsimp only at hout
  have hopen : ({} : State E).answered = false := rfl
  obtain ⟨hforwarded, hlines⟩ := foldl_open scope (requestId scope fresh) started trace hopen
  set s : State E := trace.foldl (State.send scope (requestId scope fresh) started) {}
  have hsent : out.forwarded = s.forwarded := by
    rw [hout]
    cases ending <;> dsimp only <;> split <;> rfl
  have hall : out.lines = (match trace.find? Sent.ends with
      | some x =>
        requestLine scope started (lastStatus (upToEnd trace)) none x.now ::
          ending.failure.toList.map (workFailed scope)
      | none => [requestLine scope started (lastStatus trace) ending.failure ended]) := by
    cases hfind : trace.find? Sent.ends with
    | some x =>
      rw [hfind] at hlines
      obtain ⟨hanswered, hline⟩ := hlines
      rw [Option.or_none] at hline
      cases ending with
      | raised e => simp [hout, hanswered, hline, Ending.failure]
      | returned => simp [hout, hanswered, hline, Ending.failure]
      | cancelled => simp [hout, hanswered, hline, Ending.failure]
    | none =>
      rw [hfind] at hlines
      obtain ⟨hanswered, hline, hstatus⟩ := hlines
      rw [Option.or_none] at hstatus
      cases ending with
      | raised e => simp [hout, hanswered, hline, hstatus, Ending.failure, State.logRequest]
      | returned => simp [hout, hanswered, hline, hstatus, Ending.failure, State.logRequest]
      | cancelled => simp [hout, hanswered, hline, hstatus, Ending.failure, State.logRequest]
  refine ⟨hall, ?_, hsent.trans hforwarded⟩
  rw [hall]
  cases trace.find? Sent.ends with
  | some x =>
    dsimp only
    rw [List.filterMap_cons_none (requestLine_excInfo ..), filterMap_workFailed]
  | none => cases ending.failure <;> simp

/-- A download its client leaves halfway, and work after it that fails. -/
theorem request_logged_once_halfway :
    let scope : Scope := { type := "http", method := "GET", path := "/sessions/1/export" }
    let out := call scope 0 "3f" [⟨.start 200 [], true, 1⟩, ⟨.body true, true, 2⟩, ⟨.body false, false, 3⟩]
      (.raised "reset") 4
    out.lines.map Line.text = ["GET /sessions/1/export 200"] ∧ out.lines.filterMap Line.excInfo = ["reset"] ∧
      out.forwarded = [.start 200 [("x-request-id", "3f")], .body true, .body false] := by
  intro scope out
  obtain ⟨hlines, hfailures, hforwarded⟩ := request_logged_once scope "3f" 0
    [⟨.start 200 [], true, 1⟩, ⟨.body true, true, 2⟩, ⟨.body false, false, 3⟩] (.raised "reset") 4 rfl
  refine ⟨?_, hfailures, hforwarded⟩
  rw [hlines]
  decide

end Kanat.RequestLog
