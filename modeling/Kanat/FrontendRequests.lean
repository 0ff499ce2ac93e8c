import Mathlib.Data.List.Chain
import Mathlib.Logic.Function.Basic

/-! # What the window's requests write to the log

`api/client.ts` and `utils/refusals.ts`: a line when the backend is lost and one when it is back, and what it refuses,
whatever order the requests under way are answered in. -/
namespace Kanat.FrontendRequests

def repeatMs : ℤ := 60000

def quietPaths : List String := ["/status"]

structure Request where
  method : String
  path : String

/-- A value that is not null, as `typeof` sees it. -/
inductive Detail where
  | text (s : String)
  | other (json : String)

structure Body where
  detail : Option Detail
  message : Option Detail

inductive Line where
  | notReachable (request : Request) (error : String)
  | reachableAgain (downS : ℤ)
  | refused (request : Request) (status : ℕ) (text : String) (detail : Detail) (repeatsNotLogged : Option ℕ)

/-- When a refusal was last logged, and how many like it were not since. -/
structure Seen where
  loggedAt : ℤ
  repeats : ℕ

structure Client where
  unreachableSince : Option ℤ := none
  last : String → Option Seen := fun _ => none
  lines : List Line := []

def refusalToLog (last : String → Option Seen) (key : String) (now : ℤ) : Option ℕ × (String → Option Seen) :=
  match last key with
  | none => (some 0, Function.update last key (some ⟨now, 0⟩))
  | some seen =>
    if now - seen.loggedAt < repeatMs then
      (none, Function.update last key (some { seen with repeats := seen.repeats + 1 }))
    else (some seen.repeats, Function.update last key (some ⟨now, 0⟩))

inductive Fetched where
  | failed (error : String) (timedOut : Bool)
  | answered (status : ℕ)

/-- What `apiFetch` goes on with, or ends in. -/
inductive Next where
  | thrown (error : String)
  | refusedBody (status : ℕ)
  | nothing
  | json

structure ApiError where
  message : Detail
  status : ℕ

/-- A poll that only took too long. -/
def tooLong (request : Request) (timedOut : Bool) : Bool := timedOut && quietPaths.contains request.path

/-- `Math.round((now - since) / 1000)`. -/
def seconds (since now : ℤ) : ℤ := (now - since + 500) / 1000

def message (status : ℕ) (body : Option Body) : Detail :=
  (body.bind fun body => body.detail <|> body.message).getD (.text ("HTTP " ++ toString status))

def Detail.shown : Detail → String
  | .text s => s
  | .other _ => "invalid request"

def key (request : Request) (status : ℕ) (text : String) : String :=
  request.method ++ " " ++ request.path ++ " " ++ toString status ++ " " ++ text

namespace Client

@[grind =] def log (c : Client) (line : Line) : Client := { c with lines := c.lines ++ [line] }

def reached (c : Client) (now : ℤ) : Client :=
  match c.unreachableSince with
  | none => c
  | some since => { c.log (.reachableAgain (seconds since now)) with unreachableSince := none }

def lost (c : Client) (request : Request) (error : String) (now : ℤ) : Client :=
  match c.unreachableSince with
  | none => { c.log (.notReachable request error) with unreachableSince := some now }
  | some _ => c

/-- The fetch has settled. -/
def fetched (c : Client) (request : Request) (now : ℤ) : Fetched → Next × Client
  | .failed error timedOut => (.thrown error, if tooLong request timedOut then c else c.lost request error now)
  | .answered status =>
    (if status < 200 ∨ 300 ≤ status then .refusedBody status else if status = 204 then .nothing else .json,
      c.reached now)

/-- The body of an answer with an error status has been read, or cannot be. -/
def refused (c : Client) (request : Request) (status : ℕ) (body : Option Body) (now : ℤ) : ApiError × Client :=
  let detail := message status body
  let text := detail.shown
  (⟨detail, status⟩,
    if quietPaths.contains request.path then c
    else
      match refusalToLog c.last (key request status text) now with
      | (none, last) => { c with last }
      | (some repeats, last) =>
        { c.log (.refused request status text detail (if repeats = 0 then none else some repeats)) with last })

end Client

/-- One request's part between two waits; the requests under way have theirs in any order. -/
inductive Event where
  | fetched (request : Request) (result : Fetched) (now : ℤ)
  | refused (request : Request) (status : ℕ) (body : Option Body) (now : ℤ)

namespace Client

@[grind =] def step (c : Client) : Event → Client
  | .fetched request result now => (c.fetched request now result).2
  | .refused request status body now => (c.refused request status body now).2

def run (c : Client) (events : List Event) : Client := events.foldl step c

end Client

structure Failure where
  request : Request
  error : String
  now : ℤ

/-- What an event says of the backend: whether it answers. -/
def Event.outcome : Event → Option (Failure ⊕ ℤ)
  | .fetched request (.failed error timedOut) now =>
    if tooLong request timedOut then none else some (.inl ⟨request, error, now⟩)
  | .fetched _ (.answered _) now => some (.inr now)
  | .refused .. => none

/-- Answers, the failures after them, and the answer that ends those. -/
structure Outage where
  calm : List ℤ
  first : Failure
  more : List Failure
  answeredAt : ℤ

namespace Outage

def outcomes (o : Outage) : List (Failure ⊕ ℤ) :=
  o.calm.map .inr ++ (o.first :: o.more).map .inl ++ [.inr o.answeredAt]

def lines (o : Outage) : List Line :=
  [.notReachable o.first.request o.first.error, .reachableAgain (seconds o.first.now o.answeredAt)]

end Outage

def Line.ofConnection : Line → Bool
  | .refused .. => false
  | _ => true

/-- What the lines tell of the backend's outcomes so far: whole outages, then answers, then failures not ended yet. -/
structure Tells (outcomes : List (Failure ⊕ ℤ)) (c : Client) (outages : List Outage) (calm : List ℤ)
    (failures : List Failure) : Prop where
  outcomes_eq : outcomes = outages.flatMap Outage.outcomes ++ calm.map .inr ++ failures.map .inl
  lines_eq : c.lines.filter Line.ofConnection =
    outages.flatMap Outage.lines ++ failures.head?.toList.map fun f => .notReachable f.request f.error
  since_eq : c.unreachableSince = failures.head?.map Failure.now

/-- The refusals of one kind from one that is logged to the next. -/
structure Window where
  first : ℤ
  later : List ℤ
  within : ∀ t ∈ later, t < first + repeatMs

def Window.times (w : Window) : List ℤ := w.first :: w.later

def Event.refusal (kind : String) : Event → Option ℤ
  | .fetched .. => none
  | .refused request status body now =>
    if quietPaths.contains request.path ∨
        key request status (message status body).shown ≠ kind then none
    else some now

def Line.repeats (kind : String) : Line → Option ℕ
  | .refused request status text _ repeatsNotLogged =>
    if key request status text = kind then some (repeatsNotLogged.getD 0) else none
  | _ => none

/-- How the refusals of one kind and the lines on them go together. -/
structure Counts (kind : String) (times : List ℤ) (c : Client) (windows : List Window) : Prop where
  times_eq : times = windows.flatMap Window.times
  apart : windows.IsChain fun w w' => w.first + repeatMs ≤ w'.first
  lines_eq : c.lines.filterMap (Line.repeats kind) = (0 :: windows.map (·.later.length)).take windows.length
  last_eq : c.last kind = windows.getLast?.map fun w => ⟨w.first, w.later.length⟩

section

variable {c : Client} {outages : List Outage} {calm : List ℤ} {failures : List Failure}
  {outcomes : List (Failure ⊕ ℤ)} {kind : String} {times : List ℤ} {windows : List Window}

private theorem tells_lost (h : Tells outcomes c outages calm failures) (f : Failure) :
    Tells (outcomes ++ [.inl f]) (c.lost f.request f.error f.now) outages calm (failures ++ [f]) := by
  have houtcomes : outcomes ++ [.inl f] =
      outages.flatMap Outage.outcomes ++ calm.map .inr ++ (failures ++ [f]).map .inl := by
    rw [h.outcomes_eq, List.map_append, ← List.append_assoc]
    rfl
  cases failures with
  | nil =>
    have hsince : c.unreachableSince = none := h.since_eq
    have hlost : c.lost f.request f.error f.now =
        { c.log (.notReachable f.request f.error) with unreachableSince := some f.now } := by rw [Client.lost, hsince]
    refine ⟨houtcomes, ?_, by rw [hlost]; rfl⟩
    rw [hlost]
    simp only [Client.log, List.filter_append, h.lines_eq, List.head?_nil, Option.toList_none, List.map_nil,
      List.append_nil]
    rfl
  | cons first more =>
    have hsince : c.unreachableSince = some first.now := h.since_eq
    have hlost : c.lost f.request f.error f.now = c := by rw [Client.lost, hsince]
    exact ⟨houtcomes, by rw [hlost, h.lines_eq]; rfl, by rw [hlost, h.since_eq]; rfl⟩

private theorem tells_reached (h : Tells outcomes c outages calm failures) (now : ℤ) :
    ∃ outages calm, Tells (outcomes ++ [.inr now]) (c.reached now) outages calm [] := by
  cases failures with
  | nil =>
    have hsince : c.unreachableSince = none := h.since_eq
    have hreached : c.reached now = c := by rw [Client.reached, hsince]
    refine ⟨outages, calm ++ [now], ?_, by rw [hreached, h.lines_eq], by rw [hreached, hsince]; rfl⟩
    rw [h.outcomes_eq, List.map_append, List.map_nil, List.append_nil, List.append_nil, List.append_assoc]
    rfl
  | cons f more =>
    have hsince : c.unreachableSince = some f.now := h.since_eq
    have hreached : c.reached now =
        { c.log (.reachableAgain (seconds f.now now)) with unreachableSince := none } := by
      rw [Client.reached, hsince]
    refine ⟨outages ++ [⟨calm, f, more, now⟩], [], ?_, ?_, by rw [hreached]; rfl⟩
    · simp [h.outcomes_eq, Outage.outcomes]
    · rw [hreached]
      simp only [Client.log, List.filter_append, h.lines_eq]
      simp [Outage.lines, Line.ofConnection]

/-- A refusal says nothing of whether the backend answers. -/
theorem tells_refused (h : Tells outcomes c outages calm failures) (request : Request) (status : ℕ)
    (body : Option Body) (now : ℤ) : Tells outcomes (c.refused request status body now).2 outages calm failures := by
  refine ⟨h.outcomes_eq, ?_, ?_⟩
  · rw [← h.lines_eq, Client.refused]
    split
    · rfl
    · split
      · rfl
      · simp [Client.log, Line.ofConnection]
  · rw [← h.since_eq, Client.refused]
    split
    · rfl
    · split <;> rfl

private theorem tells_step (h : Tells outcomes c outages calm failures) (event : Event) :
    ∃ outages calm failures, Tells (outcomes ++ event.outcome.toList) (c.step event) outages calm failures := by
  cases event with
  | fetched request result now =>
    cases result with
    | failed error timedOut =>
      rw [Client.step, Client.fetched, Event.outcome]
      split_ifs
      · exact ⟨outages, calm, failures, by rwa [Option.toList_none, List.append_nil]⟩
      · exact ⟨outages, calm, _, tells_lost h ⟨request, error, now⟩⟩
    | answered status =>
      obtain ⟨outages, calm, h⟩ := tells_reached h now
      exact ⟨outages, calm, [], h⟩
  | refused request status body now =>
    rw [Event.outcome, Option.toList_none, List.append_nil]
    exact ⟨outages, calm, failures, tells_refused h request status body now⟩

private theorem tells_run (h : Tells outcomes c outages calm failures) (events : List Event) :
    ∃ outages calm failures,
      Tells (outcomes ++ events.filterMap Event.outcome) (c.run events) outages calm failures := by
  induction events generalizing c outcomes outages calm failures with
  | nil => exact ⟨outages, calm, failures, by rwa [List.filterMap_nil, List.append_nil]⟩
  | cons event events ih =>
    obtain ⟨outages, calm, failures, hstep⟩ := tells_step h event
    obtain ⟨outages, calm, failures, hrun⟩ := ih hstep
    refine ⟨outages, calm, failures, ?_⟩
    have hoptions : event.outcome.toList ++ events.filterMap Event.outcome =
        (event :: events).filterMap Event.outcome := by
      rw [List.filterMap_cons]
      cases event.outcome <;> rfl
    rwa [List.append_assoc, hoptions] at hrun

/-- In whatever order the requests are answered: the lines are one of an outage's first failure and one of the answer
that ends it, in turn, whatever fails between them. -/
theorem outages_logged (events : List Event) : ∃ outages calm failures,
    Tells (events.filterMap Event.outcome) (Client.run {} events) outages calm failures := by
  have hstart : Tells [] {} [] [] [] := ⟨rfl, rfl, rfl⟩
  exact tells_run hstart events

/-- What the code does with one refusal of this kind. -/
def counted (c : Client) (kind : String) (now : ℤ) (line : ℕ → Line) : Client :=
  match refusalToLog c.last kind now with
  | (none, last) => { c with last }
  | (some repeats, last) => { c.log (line repeats) with last }

private theorem counts_none (h : Counts kind times c windows) (hnone : c.last kind = none) : windows = [] := by
  rw [h.last_eq, Option.map_eq_none_iff, List.getLast?_eq_none_iff] at hnone
  exact hnone

private theorem counts_some (h : Counts kind times c windows) {seen : Seen} (hsome : c.last kind = some seen) :
    ∃ front w, windows = front ++ [w] ∧ seen = ⟨w.first, w.later.length⟩ := by
  rw [h.last_eq, Option.map_eq_some_iff] at hsome
  obtain ⟨w, hw, hseen⟩ := hsome
  obtain ⟨front, hfront⟩ := List.getLast?_eq_some_iff.mp hw
  exact ⟨front, w, hfront, hseen.symm⟩

theorem lines_before_last (front : List Window) (w : Window) :
    (0 :: (front ++ [w]).map (·.later.length)).take (front ++ [w]).length = 0 :: front.map (·.later.length) := by
  rw [List.length_append, List.length_singleton, List.take_succ_cons, List.map_append]
  exact congrArg (0 :: ·) (List.take_left' (List.length_map _))

private theorem counts_counted (h : Counts kind times c windows) (now : ℤ) {line : ℕ → Line}
    (hline : ∀ repeats, (line repeats).repeats kind = some repeats) :
    ∃ windows, Counts kind (times ++ [now]) (counted c kind now line) windows := by
  cases hlast : c.last kind with
  | none =>
    obtain rfl := counts_none h hlast
    have hcounted : counted c kind now line =
        { c.log (line 0) with last := Function.update c.last kind (some ⟨now, 0⟩) } := by
      rw [counted, refusalToLog, hlast]
    refine ⟨[⟨now, [], nofun⟩], ?_, List.isChain_singleton _, ?_, ?_⟩
    · rw [h.times_eq]
      rfl
    · rw [hcounted]
      simp only [Client.log, List.filterMap_append, h.lines_eq]
      simp [hline]
    · rw [hcounted]
      exact Function.update_self _ _ _
  | some seen =>
    obtain ⟨front, w, rfl, rfl⟩ := counts_some h hlast
    by_cases hnear : now - w.first < repeatMs
    · have hcounted : counted c kind now line =
          { c with last := Function.update c.last kind (some ⟨w.first, w.later.length + 1⟩) } := by
        rw [counted, refusalToLog, hlast]
        simp only [hnear, if_true]
      have hwithin : ∀ t ∈ w.later ++ [now], t < w.first + repeatMs := by
        intro t ht
        rcases List.mem_append.mp ht with ht | ht
        · exact w.within t ht
        · rw [List.mem_singleton.mp ht]
          omega
      refine ⟨front ++ [⟨w.first, w.later ++ [now], hwithin⟩], ?_, ?_, ?_, ?_⟩
      · rw [h.times_eq]
        simp [Window.times]
      · obtain ⟨hfront, -, hlink⟩ := List.isChain_append.mp h.apart
        refine List.isChain_append.mpr ⟨hfront, List.isChain_singleton _, fun x hx y hy => ?_⟩
        obtain rfl := Option.some_inj.mp hy
        exact hlink x hx w rfl
      · rw [hcounted, h.lines_eq, lines_before_last, lines_before_last]
      · rw [hcounted]
        simp
    · have hcounted : counted c kind now line =
          { c.log (line w.later.length) with last := Function.update c.last kind (some ⟨now, 0⟩) } := by
        rw [counted, refusalToLog, hlast]
        simp only [hnear, if_false]
      refine ⟨front ++ [w] ++ [⟨now, [], nofun⟩], ?_, ?_, ?_, ?_⟩
      · rw [h.times_eq]
        simp [Window.times]
      · refine List.isChain_append.mpr ⟨h.apart, List.isChain_singleton _, fun x hx y hy => ?_⟩
        rw [List.getLast?_append_of_ne_nil _ (List.cons_ne_nil _ _)] at hx
        obtain rfl := Option.some_inj.mp hx
        obtain rfl := Option.some_inj.mp hy
        change w.first + repeatMs ≤ now
        omega
      · rw [hcounted, lines_before_last]
        simp only [Client.log, List.filterMap_append, h.lines_eq, lines_before_last]
        simp [hline]
      · rw [hcounted]
        simp

/-- What is not a refusal of this kind. -/
theorem counts_other (h : Counts kind times c windows) {c' : Client} (hlast : c'.last kind = c.last kind)
    (hlines : c'.lines.filterMap (Line.repeats kind) = c.lines.filterMap (Line.repeats kind)) :
    Counts kind times c' windows :=
  ⟨h.times_eq, h.apart, hlines.trans h.lines_eq, hlast.trans h.last_eq⟩

private theorem counts_fetched (h : Counts kind times c windows) (request : Request) (result : Fetched) (now : ℤ) :
    Counts kind times (c.fetched request now result).2 windows := by
  cases result with
  | failed error timedOut =>
    rw [Client.fetched]
    split_ifs
    · exact h
    · refine counts_other h ?_ ?_ <;> rw [Client.lost] <;> split
      · rfl
      · rfl
      · simp [Client.log, Line.repeats]
      · rfl
  | answered status =>
    refine counts_other h ?_ ?_ <;> rw [Client.fetched, Client.reached] <;> dsimp only <;> split
    · rfl
    · rfl
    · rfl
    · simp [Client.log, Line.repeats]

private theorem refusalToLog_other (last : String → Option Seen) {kind' : String} (hne : kind' ≠ kind) (now : ℤ) :
    (refusalToLog last kind' now).2 kind = last kind := by
  rw [refusalToLog]
  split
  · exact Function.update_of_ne hne.symm _ _
  · split <;> exact Function.update_of_ne hne.symm _ _

private theorem counts_step (h : Counts kind times c windows) (event : Event) :
    ∃ windows, Counts kind (times ++ (event.refusal kind).toList) (c.step event) windows := by
  cases event with
  | fetched request result now =>
    refine ⟨windows, ?_⟩
    rw [Event.refusal, Option.toList_none, List.append_nil]
    exact counts_fetched h request result now
  | refused request status body now =>
    rw [Client.step, Client.refused, Event.refusal]
    by_cases hquiet : quietPaths.contains request.path
    · refine ⟨windows, ?_⟩
      simp only [hquiet, true_or, if_true, Option.toList_none, List.append_nil]
      exact h
    · by_cases hkind : key request status (message status body).shown = kind
      · simp only [hquiet, hkind, ne_eq, not_true_eq_false, or_self, Bool.false_eq_true, if_false, Option.toList_some]
        refine counts_counted h now fun repeats => ?_
        rw [Line.repeats, if_pos hkind]
        split_ifs with hzero
        · rw [hzero]
          rfl
        · rfl
      · refine ⟨windows, ?_⟩
        simp only [hquiet, hkind, ne_eq, not_false_eq_true, or_true, Bool.false_eq_true, if_false, if_true,
          Option.toList_none, List.append_nil]
        have hother := refusalToLog_other c.last hkind now
        split
        · next last heq =>
          rw [heq] at hother
          exact counts_other h hother rfl
        · next repeats last heq =>
          rw [heq] at hother
          exact counts_other h hother (by simp [Client.log, Line.repeats, hkind])

private theorem counts_run (h : Counts kind times c windows) (events : List Event) :
    ∃ windows, Counts kind (times ++ events.filterMap (Event.refusal kind)) (c.run events) windows := by
  induction events generalizing c times windows with
  | nil => exact ⟨windows, by rwa [List.filterMap_nil, List.append_nil]⟩
  | cons event events ih =>
    obtain ⟨windows, hstep⟩ := counts_step h event
    obtain ⟨windows, hrun⟩ := ih hstep
    refine ⟨windows, ?_⟩
    have hoptions : (event.refusal kind).toList ++ events.filterMap (Event.refusal kind) =
        (event :: events).filterMap (Event.refusal kind) := by
      rw [List.filterMap_cons]
      cases event.refusal kind <;> rfl
    rwa [List.append_assoc, hoptions] at hrun

/-- In whatever order the requests are answered and however the clock goes: the refusals of one kind fall into
stretches of under a minute, each begun by the one that is logged, and each line counts those of the stretch before. -/
theorem refusals_counted (events : List Event) (kind : String) : ∃ windows,
    Counts kind (events.filterMap (Event.refusal kind)) (Client.run {} events) windows := by
  have hstart : Counts kind [] {} [] := ⟨rfl, List.isChain_nil, rfl, rfl⟩
  exact counts_run hstart events

end

end Kanat.FrontendRequests
