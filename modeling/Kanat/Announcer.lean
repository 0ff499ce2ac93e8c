import Kanat.Persistence
import Kanat.Rounding
import Kanat.WebAppPublisher

/-! # A live Run's Bullet Holes announced and published

`_Announcer`, called after every Look, and what it hands to `publish`. Each Bullet Hole keeps beside it its
Candidate's reference and the Detections the Candidate had gathered when it persisted. -/
namespace Kanat.Announcer
open Persistence Bullets
open Rounding (pyRound)

variable {box : ℕ}

def matchTplPx : ℚ := 20

/-- Board space and its Targets. Board space is a scaled and moved template, the same in every view of a
Run. -/
structure View where
  scale : ℚ
  origin : Fin 2 → ℚ
  assign : (Fin 2 → ℚ) → Option ℕ
  toMillimetres : (Fin 2 → ℚ) → ℕ → Option (ℚ × ℚ)
  scale_pos : 0 < scale

def View.boardToTemplate (view : View) (pos : Fin 2 → ℚ) : Fin 2 → ℚ :=
  fun i => (pos i - view.origin i) / view.scale

structure BulletHoleConfirmed where
  firstFrame : ℕ
  firstSeenAt : ℤ
  templateXy : Fin 2 → ℚ
  target : Option ℕ
  mm : Option (ℚ × ℚ)

/-- `_confirmed` of a hole measured; `wallClock` is a frame's time in microseconds, UTC. -/
def confirmed (view : View) (wallClock : ℕ → ℤ) (hole : Hole box) : BulletHoleConfirmed where
  firstFrame := hole.firstFrame
  firstSeenAt := wallClock hole.firstFrame
  templateXy := view.boardToTemplate hole.pos
  target := view.assign hole.pos
  mm := (view.assign hole.pos).bind (view.toMillimetres hole.pos)

/-- What the key is derived from. -/
def keyName (sessionId : String) (value : BulletHoleConfirmed) : String :=
  s!"{sessionId}:{value.firstFrame}:{pyRound (value.templateXy 0)}:{pyRound (value.templateXy 1)}"

/-- The template pixel a position rounds to. -/
def templatePx (view : View) (pos : Detection box) : ℤ × ℤ :=
  (pyRound (view.boardToTemplate (centre pos) 0), pyRound (view.boardToTemplate (centre pos) 1))

/-- A Bullet Hole that persisted, its Candidate, and what that had gathered. -/
structure Sighted (box : ℕ) where
  hole : Hole box
  candidate : ℕ
  detections : List (Detection box)

/-- What one Detection adds to the Detections each Candidate has gathered. -/
def gatherOne (matchPx : ℚ) (opening : Bool) (closed : Finset ℕ) (candidates : List (Candidate box))
    (gathered : List (List (Detection box))) (p : Detection box) : List (List (Detection box)) :=
  match findMatch candidates p matchPx closed with
  | none => if opening then gathered ++ [[p]] else gathered
  | some k => gathered.modify k (· ++ [p])

def gather (idx : ℕ) (matchPx : ℚ) (opening : Bool) (closed : Finset ℕ) :
    List (Candidate box) → List (List (Detection box)) → List (Detection box) →
      List (List (Detection box))
  | _, gathered, [] => gathered
  | candidates, gathered, p :: pts =>
    gather idx matchPx opening closed (foldOne idx matchPx opening closed candidates p)
      (gatherOne matchPx opening closed candidates gathered p) pts

/-- The Candidates that persisted since, each with its Detections so far. -/
def newlyPersisted (s s' : State box) (gathered : List (List (Detection box))) : List (Sighted box) :=
  (s'.persisted.drop s.persisted.length).map fun x => ⟨x.1, x.2, gathered.getD x.2 []⟩

/-- One Look of a live Run, its Detections stripped of the baseline's and those of them Change Evidence saw. -/
structure Look (box : ℕ) where
  index : ℕ
  pts : Option (List (Detection box))
  opening : Bool
  corroborating : List (Detection box)

inductive Event (box : ℕ) where
  | look (l : Look box)
  | miss (indices : List ℕ)

structure Live (box : ℕ) where
  persistence : State box := {}
  gathered : List (List (Detection box)) := []
  corroboration : List (Detection box) := []
  waiting : List (Sighted box) := []
  announced : List (Sighted box) := []
  published : List BulletHoleConfirmed := []

section
variable (P : Settings) (require : Bool) (view : View) (wallClock : ℕ → ℤ) (live : Live box)

/-- Did Change Evidence see any of `points` on this Bullet Hole? -/
def corroborates (points : List (Detection box)) (at' : Detection box) (matchPx : ℚ) : Bool :=
  points.any fun c => sameBulletHole c at' matchPx

/-- `_Announcer.__call__`: the ones announced, and the ones that wait. -/
def Live.announce (persisted : List (Sighted box)) (corroborating : List (Detection box)) : Live box :=
  let waiting := live.waiting.map fun h =>
    (h, corroborates corroborating (live.persistence.candidate h.candidate).pos P.matchPx)
  let persisted := persisted.map fun h => (h, corroborates live.corroboration h.hole.box P.matchPx)
  let kept := (waiting ++ persisted).filter fun h => require && !h.2
  let told := ((waiting ++ persisted).filter fun h => !(require && !h.2)).map Prod.fst
  { live with
    waiting := kept.map Prod.fst
    announced := live.announced ++ told
    published := live.published ++ told.map fun h => confirmed view wallClock h.hole }

/-- What has been gathered once a Look is folded in; `judged` are the Candidates due before. -/
def Live.gatheredAfter (judged : State box) (l : Look box) : List (List (Detection box)) :=
  match l.pts with
  | none => live.gathered
  | some pts => gather l.index P.matchPx l.opening judged.closed judged.candidates live.gathered pts

/-- `Persistence.add` with what the Candidates gather, then the announcer. -/
def Live.look (l : Look box) : Live box :=
  let judged := (live.persistence.judgeDue P l.index (some l.index)).1
  let folded := judged.register P l.index l.pts l.opening
  let gathered := live.gatheredAfter P judged l
  let rejudged := (folded.judgeDue P (l.index + 1) none).1
  let persisted :=
    newlyPersisted live.persistence judged live.gathered ++ newlyPersisted folded rejudged gathered
  { live with
    persistence := rejudged
    gathered
    corroboration := live.corroboration ++ l.corroborating }.announce P require view wallClock persisted
      l.corroborating

def Live.step : Event box → Live box
  | .look l => live.look P require view wallClock l
  | .miss indices => { live with
      persistence := { live.persistence with unseen := live.persistence.unseen ++ indices } }

def run (events : List (Event box)) : Live box :=
  events.foldl (Live.step P require view wallClock) {}

end
end Kanat.Announcer
