import Kanat.DetectionBackend

/-! # What each thread of the backend may set, and when

Each thread's calls so far are summed up in a `Local`; from that, which calls it may make next, and what each call
adds. The ticks and requests are shown to keep to it elsewhere, and the invariants rest on it alone. -/
namespace Kanat.DetectionSync
open ResumptionPrograms InterleavedThreads

variable {Id : Type} [DecidableEq Id]

/-- What a thread last learned of whether the Session it ends is active. -/
inductive Word where
  | none | active | inactive | unread
deriving DecidableEq

/-- What one thread's calls so far tell of it. -/
structure Local (Id : Type) where
  request : Request Id
  asked : Bool := false
  /-- The Session whose `ending` block it is in, from its read to the block's last `_set`. -/
  entered : Option Id := none
  confirmed : Bool := false
  word : Word := .none
  /-- It committed its Session active, and is to call `reopened`. -/
  reopening : Bool := false
  activeIds : Option (List Id) := none
  /-- The Session its last change, made only from some states, went through for. -/
  changed : Option Id := none
  /-- A state it put back that it had read before that state went away. -/
  showed : Option (Id × DetectionState) := none
  /-- The Sessions that had changed since it read them idle. -/
  gaveUp : List Id := []
  lastRead : Option (Id × DetectionState) := none
  /-- The Sessions a start of its answered for, not looked after yet. -/
  started : List Id := []
  reported : Option (Run Id) := none
  ends : List Id := []

namespace Local

/-- What is left to look after once the Session was. -/
def lookedAfter (l : Local Id) (session : Id) : List Id :=
  l.started.filter fun s => s ≠ session

def afterSet (l : Local Id) (session : Id) (detection : Detection)
    (onlyFrom : Option (List DetectionState)) (changed : Bool) : Local Id :=
  { l with
    entered := if onlyFrom = none ∧ (detection = .none ∨ detection = .endUnconfirmed) then none
      else l.entered
    reopening := l.reopening && ¬(l.request = .update session (some .active) ∧
      detection = .none ∧ onlyFrom = some [.endUnconfirmed])
    changed := if changed ∧ onlyFrom ≠ none then some session else none
    showed := if changed ∧ onlyFrom = some [.notWatching] ∧
        (detection.state = .ending ∨ detection.state = .endUnconfirmed) then
        some (session, detection.state)
      else l.showed
    gaveUp := if changed = false ∧ ∃ current ∈ idle, onlyFrom = some [current] then
        session :: l.gaveUp
      else l.gaveUp
    started := if changed ∧ detection = .watching then l.lookedAfter session else l.started }

def next (l : Local Id) : (o : Op Id) → Ans Id o → Local Id
  | .status, .ok run => { l with reported := run, activeIds := none, ends := [] }
  | .startRun session _, .ok _ => { l with started := session :: l.started }
  | .endRun session, answer =>
      { l with
        confirmed := match answer with
          | .ok (some _) => true
          | _ => false
        started := l.lookedAfter session
        ends := session :: l.ends }
  | .set session detection onlyFrom, changed => l.afterSet session detection onlyFrom changed
  | .stateOf session, detection =>
      { l with
        lastRead := some (session, detection.state)
        started := if detection.state ∈ [DetectionState.ending, .none] then l.started
          else l.lookedAfter session }
  | .inStates _, false => { l with entered := none }
  | .listActive, .ok rows => { l with activeIds := some (rows.map Session.id) }
  | .getSession _, .ok (some row) =>
      if row.status = .active then
        { l with asked := true, entered := some row.id, word := .none }
      else { l with asked := true }
  | .getSession _, _ => { l with asked := true }
  | .readSession _, .ok (some row) =>
      { l with word := if row.status = .active then .active else .inactive }
  | .readSession _, .ok none => { l with word := .inactive }
  | .readSession _, .error _ => { l with word := .unread }
  | .saveSession _ (some .completed), answer =>
      { l with word := if answer.isOk then .inactive else .none }
  | .saveSession _ (some .active), .ok _ => { l with reopening := true }
  | .deleteSession _, answer => { l with word := if answer.isOk then .inactive else .none }
  | .sessionDetail _, .error _ => { l with reopening := false }
  | _, _ => l

/-- A change made from any state is a creation's start, or of the thread's own `ending` block. -/
def MaySet (l : Local Id) (session : Id) (detection : Detection) : Prop :=
  (∃ camera, l.request = .create camera) ∧ detection = .starting ∨
  l.entered = some session ∧
    (detection = .ending ∨
     detection = .none ∧ (l.confirmed = true ∨ l.word = .active) ∨
     detection = .endUnconfirmed ∧ l.confirmed = false ∧ (l.word = .inactive ∨ l.word = .unread))

/-- A change made only from `states`. -/
structure MayMove (l : Local Id) (session : Id) (detection : Detection)
    (states : List DetectionState) : Prop where
  fromWarning : .endUnconfirmed ∈ states →
    detection = .none ∧ l.reopening = true ∨ l.showed = some (session, .endUnconfirmed)
  fromEnding : .ending ∈ states → l.showed = some (session, .ending)
  toWarning : detection.state = .endUnconfirmed ∨ detection.state = .ending →
    detection = .endUnconfirmed ∧ states = [.starting] ∧ (∃ ids ∈ l.activeIds, session ∉ ids) ∨
    states = [.notWatching] ∧ l.lastRead = some (session, detection.state)

def Allows (l : Local Id) : Op Id → Prop
  | .set session detection none => l.MaySet session detection
  | .set session detection (some states) => l.MayMove session detection states
  | .startRun session _ =>
      l.request = .tick → l.changed = some session ∧ (∃ ids ∈ l.activeIds, session ∈ ids) ∧
        session ∉ l.gaveUp
  | .getSession session => l.asked = false ∧
      (l.request = .update session (some .completed) ∨ l.request = .delete session)
  | .addSession camera => l.request = .create camera
  | .readSession session => l.entered = some session
  | .saveSession session (some .completed) | .deleteSession session =>
      l.entered = some session ∨ l.entered = none
  | .saveSession session (some .active) => l.request = .update session (some .active)
  | _ => True

/-- Nothing it began is left half done. -/
structure Over (l : Local Id) : Prop where
  reopening : l.reopening = false
  started : l.started = []

/-- And a Run that should not be there was ended. -/
structure Done (l : Local Id) : Prop extends Over l where
  ended : ∀ run ∈ l.reported, run.state ≠ .ending →
    ∃ ids ∈ l.activeIds, run.session ∈ ids ∨ run.session ∈ l.ends

section
variable {l : Local Id} {o : Op Id} {r : Ans Id o}

theorem lookedAfter_nil {session : Id} (h : l.started = []) : l.lookedAfter session = [] := by
  simp [lookedAfter, h]

theorem lookedAfter_singleton {session : Id} (h : l.started = [session]) :
    l.lookedAfter session = [] := by
  simp [lookedAfter, h]

end

end Local

/-- What the world may answer. -/
def Possible : (o : Op Id) → Ans Id o → Prop
  | .getSession session, answer => ∀ row, answer = .ok (some row) → row.id = session
  | .lockedRead _, answer => ∀ entry ∈ answer.2, entry.2 = .starting
  | _, _ => True

def contract : Contract (Ans Id) (Request Id) (Local Id) where
  allowed := Local.Allows
  possible := Possible
  next := Local.next
  start request := { request := request }
  Ready l request := l = { request := request }
  Returned := Local.Done
  Raised := Local.Over

/-- What a call leaves as it was. -/
structure Local.Frame (o : Op Id) (l l' : Local Id) : Prop where
  request : l'.request = l.request
  entered (hget : ∀ s, o ≠ .getSession s) (hin : ∀ s, o ≠ .inStates s) (hset : ∀ s d f, o ≠ .set s d f) :
    l'.entered = l.entered
  word (hget : ∀ s, o ≠ .getSession s) (hread : ∀ s, o ≠ .readSession s) (hsave : ∀ s st, o ≠ .saveSession s st)
    (hdelete : ∀ s, o ≠ .deleteSession s) : l'.word = l.word
  confirmed (hend : ∀ s, o ≠ .endRun s) : l'.confirmed = l.confirmed
  showed (hset : ∀ s d f, o ≠ .set s d f) : l'.showed = l.showed
  asked (hget : ∀ s, o ≠ .getSession s) : l'.asked = l.asked
  lastRead (hread : ∀ s, o ≠ .stateOf s) : l'.lastRead = l.lastRead
  gaveUp (hset : ∀ s d f, o ≠ .set s d f) : l'.gaveUp = l.gaveUp
  reported (hstatus : o ≠ .status) : l'.reported = l.reported
  ends (hstatus : o ≠ .status) (hend : ∀ s, o ≠ .endRun s) : l'.ends = l.ends
  started (hstart : ∀ s a, o ≠ .startRun s a) (hend : ∀ s, o ≠ .endRun s) (hset : ∀ s d f, o ≠ .set s d f)
    (hread : ∀ s, o ≠ .stateOf s) : l'.started = l.started
  reopening (hsave : ∀ s st, o ≠ .saveSession s st) (hdetail : ∀ s, o ≠ .sessionDetail s)
    (hset : ∀ s d f, o ≠ .set s d f) : l'.reopening = l.reopening
  activeIds (hstatus : o ≠ .status) (hlist : o ≠ .listActive) : l'.activeIds = l.activeIds

theorem next_frame {l : Local Id} {o : Op Id} {r : Ans Id o} : Local.Frame o l (contract.next l o r) := by
  unfold contract Local.next
  dsimp only
  split
  -- a field that an arm sets is one of the calls the field's premises leave out
  all_goals constructor
  all_goals intros
  all_goals first
    | rfl
    | (split_ifs <;> rfl)
    | simp_all

theorem standing_request {i : ℕ} {request : Request Id}
    {trace : List (Call (Ans Id) (World Id) (Request Id))} :
    (standing contract i request trace).request = request := by
  induction trace with
  | nil => rfl
  | cons c trace ih =>
    rcases c with ⟨j, request', o, r, w, w'⟩
    by_cases hij : j = i
    · subst hij
      rw [standing_cons_self, next_frame.request]
      exact ih
    · rw [standing_cons_of_ne hij]
      exact ih

end Kanat.DetectionSync
