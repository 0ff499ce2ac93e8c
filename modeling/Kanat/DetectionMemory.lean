import Kanat.InsertionOrderDict
import Mathlib.Data.Finset.Basic
import Mathlib.Data.Rat.Defs

/-! # What the backend remembers of each Session's detection

The states, warnings and watched Sessions are one structure, `_set` an operation on it; its lemmas say what is read of
a Session after each. -/
namespace Kanat.DetectionSync
open InsertionOrderDict

inductive DetectionState where
  | none | starting | watching | notWatching | ending | endUnconfirmed
deriving DecidableEq, Repr

inductive Reason where
  | serviceDown | streamFailed | otherSession | cameraDisabled
deriving DecidableEq, Repr

structure Detection where
  state : DetectionState
  reason : Option Reason := Option.none
  detail : Option String := Option.none
deriving DecidableEq, Repr

namespace Detection

def none : Detection := { state := .none }
def starting : Detection := { state := .starting }
def watching : Detection := { state := .watching }
def serviceDown : Detection := { state := .notWatching, reason := some .serviceDown }
def cameraDisabled : Detection := { state := .notWatching, reason := some .cameraDisabled }
def runLost : Detection := { state := .notWatching }
def ending : Detection := { state := .ending }
def endUnconfirmed : Detection := { state := .endUnconfirmed }

end Detection

/-- The states with no start or end under way. -/
def idle : List DetectionState := [.none, .watching, .notWatching]

def stuckS : ℚ := 60

variable {Id : Type} [DecidableEq Id]

structure Memory (Id : Type) where
  states : Dict Id Detection
  since : Dict Id ℚ
  watched : Finset Id
  published : List (Id × Detection)

/-- Does a change made only from these states go through? -/
def admits (onlyFrom : Option (List DetectionState)) (state : DetectionState) : Bool :=
  match onlyFrom with
  | Option.none => true
  | some states => state ∈ states

namespace Memory

def empty : Memory Id where
  states := []
  since := []
  watched := ∅
  published := []

def stateOf (m : Memory Id) (session : Id) : Detection :=
  (m.states.get session).getD Detection.none

/-- `end_unconfirmed` is read as `none` for a Session no Run has watched. -/
def readAs (m : Memory Id) (session : Id) (detection : Detection) : Detection :=
  if detection = .endUnconfirmed ∧ session ∉ m.watched then .none else detection

def watchedWith (m : Memory Id) (session : Id) (detection : Detection) : Finset Id :=
  if detection = .watching then insert session m.watched
  else if detection.state = .none ∨ detection.state = .endUnconfirmed then m.watched.erase session
  else m.watched

/-- `_set`, once `only_from` lets it through. -/
def change (m : Memory Id) (now : ℚ) (session : Id) (detection : Detection) : Memory Id :=
  let watched := m.watchedWith session detection
  if detection = m.stateOf session then { m with watched := watched }
  else if detection.state = .none then
    { states := m.states.pop session
      since := m.since.pop session
      watched := watched
      published := m.published ++ [(session, detection)] }
  else
    { states := m.states.put session detection
      since := m.since.put session now
      watched := watched
      published := m.published ++ [(session, detection)] }

def set (m : Memory Id) (now : ℚ) (session : Id) (detection : Detection)
    (onlyFrom : Option (List DetectionState)) : Bool × Memory Id :=
  if admits onlyFrom (m.stateOf session).state then
    (true, m.change now session (m.readAs session detection))
  else (false, m)

/-- The Sessions in memory that are not active any more. -/
def ended (m : Memory Id) (activeIds : List Id) : List Id :=
  m.states.keys.filter fun session => session ∉ activeIds

/-- The Sessions whose start is under way for too long. -/
def stuck (m : Memory Id) (now : ℚ) : List (Id × DetectionState) :=
  m.states.filterMap fun entry =>
    if entry.2.state = .starting ∧ stuckS < now - (m.since.get entry.1).getD now then
      some (entry.1, entry.2.state)
    else Option.none

variable {m : Memory Id} {now : ℚ} {session other : Id} {detection : Detection}
  {onlyFrom : Option (List DetectionState)}

@[simp] theorem change_watched :
    (m.change now session detection).watched = m.watchedWith session detection := by
  unfold change
  dsimp only
  split_ifs <;> rfl

theorem state_change_self : ((m.change now session detection).stateOf session).state =
    detection.state := by
  unfold change
  dsimp only
  split_ifs with heq hnone
  · exact congrArg Detection.state heq.symm
  · simp [stateOf, hnone, Detection.none]
  · simp [stateOf]

private theorem stateOf_change_of_ne (h : session ≠ other) :
    (m.change now session detection).stateOf other = m.stateOf other := by
  unfold change
  dsimp only
  split_ifs
  · rfl
  · simp only [stateOf, Dict.get_pop_of_ne h]
  · simp only [stateOf, Dict.get_put_of_ne h]

theorem mem_watchedWith_self : session ∈ m.watchedWith session detection ↔
    detection = .watching ∨
      session ∈ m.watched ∧ detection.state ≠ .none ∧ detection.state ≠ .endUnconfirmed := by
  unfold watchedWith
  split_ifs with hw hn
  · simp [hw]
  · rcases hn with hn | hn <;> simp [hw, hn]
  · obtain ⟨h₁, h₂⟩ := not_or.mp hn
    simp [hw, h₁, h₂]

theorem readAs_endUnconfirmed (h : session ∈ m.watched) :
    m.readAs session .endUnconfirmed = .endUnconfirmed :=
  if_neg fun hn => hn.2 h

theorem readAs_of_ne (h : detection ≠ .endUnconfirmed) : m.readAs session detection = detection :=
  if_neg fun hn => h hn.1

theorem state_readAs : (m.readAs session detection).state = detection.state ∨
    (m.readAs session detection).state = .none ∧ detection = .endUnconfirmed ∧
      session ∉ m.watched := by
  unfold readAs
  split_ifs with h
  · exact Or.inr ⟨rfl, h⟩
  · exact Or.inl rfl

theorem set_of_admits (h : admits onlyFrom (m.stateOf session).state = true) :
    m.set now session detection onlyFrom =
      (true, m.change now session (m.readAs session detection)) := if_pos h

theorem set_of_not_admits (h : admits onlyFrom (m.stateOf session).state = false) :
    m.set now session detection onlyFrom = (false, m) := if_neg (Bool.eq_false_iff.mp h)

theorem set_fst : (m.set now session detection onlyFrom).1 =
    admits onlyFrom (m.stateOf session).state := by
  cases h : admits onlyFrom (m.stateOf session).state with
  | true => rw [set_of_admits h]
  | false => rw [set_of_not_admits h]

theorem stateOf_set_of_ne (h : session ≠ other) :
    (m.set now session detection onlyFrom).2.stateOf other = m.stateOf other := by
  cases ha : admits onlyFrom (m.stateOf session).state with
  | true => rw [set_of_admits ha, stateOf_change_of_ne h]
  | false => rw [set_of_not_admits ha]

/-- What a change of a Session's state leaves of it. -/
theorem set_self : (m.set now session detection onlyFrom).2 = m ∧
      admits onlyFrom (m.stateOf session).state = false ∨
    admits onlyFrom (m.stateOf session).state = true ∧
      (((m.set now session detection onlyFrom).2.stateOf session).state =
        (m.readAs session detection).state ∧
      (session ∈ (m.set now session detection onlyFrom).2.watched ↔
        session ∈ m.watchedWith session (m.readAs session detection))) := by
  cases ha : admits onlyFrom (m.stateOf session).state with
  | true => exact Or.inr ⟨rfl, by rw [set_of_admits ha]; exact ⟨state_change_self, by simp⟩⟩
  | false => exact Or.inl ⟨by rw [set_of_not_admits ha], rfl⟩

end Memory

end Kanat.DetectionSync
