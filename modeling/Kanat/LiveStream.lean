import Kanat.Announcer

/-! # A Stream's reading thread

`Stream._read` and what it calls. A grab's timestamp is in milliseconds and the wall clock in seconds; what only
the report reads is left out, and so are the pictures. -/
namespace Kanat.LiveStream
open Rounding (pyRound)
open Persistence (lookedAt)

def liveFps : ℚ := 25

/-- A frame that others are placed from: its timestamp, index and wall clock. -/
structure Anchor where
  pos : ℚ
  index : ℕ
  time : ℚ
  deriving DecidableEq

/-- A frame handed to the loop, and when it was taken by the Stream's timestamps. -/
structure Frame where
  index : ℕ
  time : ℚ
  deriving DecidableEq

structure Reader where
  index : ℕ
  offered : ℕ
  down : Bool
  latest : ℚ
  origin : Option Anchor
  pos : ℚ
  trusted : Option Anchor
  unseen : List ℕ
  deriving DecidableEq

/-- The Stream as `open` leaves it, frame 0 read and offered. -/
def opened (pos arrived : ℚ) : Reader where
  index := 0
  offered := 1
  down := false
  latest := arrived
  origin := some ⟨pos, 0, arrived⟩
  pos
  trusted := none
  unseen := []

/-- The index and time of a frame grabbed, its step from the one before, and the stream time it spans. -/
structure Placement where
  placed : ℕ
  time : ℚ
  step : Option ℚ
  span : Option ℚ
  deriving DecidableEq

/-- A grab that failed or stalled, or a frame and whether it would decode. -/
inductive Grab where
  | failed
  | grabbed (pos now : ℚ) (decodes : Bool)
  deriving DecidableEq

inductive Outcome where
  | dropped
  | passed (index : ℕ)
  | offered (frame : Frame)
  deriving DecidableEq

namespace Reader

def reconnect (s : Reader) : Reader := { s with origin := none, trusted := none, down := true }

def missed (s : Reader) (now : ℚ) : ℕ :=
  if s.down then (pyRound ((now - s.latest) * liveFps) - 1).toNat else 0

/-- A frame no step times: an RTSP session's first, or the first to advance after an untimed one. -/
def resume (s : Reader) (pos now : ℚ) : Placement × Reader :=
  let placed := s.index + 1 + s.missed now
  let afresh : Placement × Reader :=
    (⟨placed, now, none, none⟩, { s with pos, origin := some ⟨pos, placed, now⟩ })
  match if s.down then none else s.trusted with
  | none => afresh
  | some trusted =>
    let span := pos - trusted.pos
    if 0 < span then
      let placed := max placed (trusted.index + pyRound (span * liveFps / 1000)).toNat
      let anchor : Anchor := ⟨pos, placed, trusted.time + span / 1000⟩
      (⟨placed, anchor.time, none, some span⟩, { s with pos, origin := some anchor, trusted := some anchor })
    else afresh

/-- A frame whose timestamp does not advance, placed one past the one before. -/
def untimed (s : Reader) (pos now : ℚ) : Placement × Reader :=
  (⟨s.index + 1, now, some (pos - s.pos), none⟩, { s with pos, origin := none })

def place (s : Reader) (pos now : ℚ) : Placement × Reader :=
  match s.origin with
  | none => if s.down || s.pos < pos then s.resume pos now else s.untimed pos now
  | some origin =>
    if pos - s.pos ≤ 0 then s.untimed pos now
    else
      let since := pos - origin.pos
      -- never onto the frame before's index
      let placed := max (s.index + 1) (origin.index + pyRound (since * liveFps / 1000)).toNat
      let anchor : Anchor := ⟨pos, placed, origin.time + since / 1000⟩
      (⟨placed, anchor.time, some (pos - s.pos), some (pos - s.pos)⟩, { s with pos, trusted := some anchor })

section
variable (stride baselineFrames : ℕ)

/-- The frames between that a look was due on. -/
def dueBetween (index placed : ℕ) : List ℕ :=
  (List.range' (index + 1) (placed - (index + 1))).filter fun i => lookedAt i stride baselineFrames

def lostUpstream (s : Reader) (placed : ℕ) (now : ℚ) : Reader :=
  { s with
    unseen := s.unseen ++ dueBetween stride baselineFrames s.index placed
    index := placed - 1
    latest := now - 1 / liveFps }

def backFromDrop (s : Reader) (placed : ℕ) : Reader :=
  { s with down := false, unseen := s.unseen ++ dueBetween stride baselineFrames s.index placed }

/-- A frame in hand: the drop it ends is closed. -/
def receive (s : Reader) (placed : ℕ) (now : ℚ) : Reader :=
  let s := if s.down then s.backFromDrop stride baselineFrames placed else s
  { s with index := placed, latest := now }

def grab (s : Reader) : Grab → Reader × Outcome
  | .failed => (s.reconnect, .dropped)
  | .grabbed pos now decodes =>
    let (p, s) := s.place pos now
    -- listed before the decode, which may fail
    let s := if !s.down && s.index + 1 < p.placed then s.lostUpstream stride baselineFrames p.placed now else s
    -- the baseline is counted in frames offered, consecutive across a drop
    if lookedAt (if s.offered < baselineFrames then s.offered else p.placed) stride baselineFrames then
      if decodes then
        let s := s.receive stride baselineFrames p.placed now
        ({ s with offered := s.offered + 1 }, .offered ⟨p.placed, p.time⟩)
      else (s.reconnect, .dropped)
    else (s.receive stride baselineFrames p.placed now, .passed p.placed)

end
end Reader
end Kanat.LiveStream
