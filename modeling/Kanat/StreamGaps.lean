import Kanat.LiveStream
import Kanat.GridLedger

/-! # Every due frame of a Stream is offered or a gap

Grabbing, placing and listing are taken one by one, with the indices each passes over. `History` adds the frames
received and offered to the reader, and what every read keeps of it gives the gaps. -/
namespace Kanat.LiveStream
open GridLedger (Accounted between accounted_start between_empty)
open Persistence (lookedAt)

/-- The index of a frame received. -/
def Outcome.received : Outcome → List ℕ
  | .dropped => []
  | .passed index => [index]
  | .offered frame => [frame.index]

def Outcome.handed : Outcome → List Frame
  | .offered frame => [frame]
  | _ => []

/-- The reader, the indices received and those offered to the loop, in order: frame 0 is the one `open` read. -/
structure History where
  reader : Reader
  received : List ℕ
  offered : List ℕ

def History.opened (pos arrived : ℚ) : History := ⟨LiveStream.opened pos arrived, [0], [0]⟩

section
variable (stride baselineFrames : ℕ)

def History.grab (h : History) (g : Grab) : History :=
  let (reader, outcome) := h.reader.grab stride baselineFrames g
  ⟨reader, h.received ++ outcome.received, h.offered ++ outcome.handed.map (·.index)⟩

def History.run (h : History) (grabs : List Grab) : History := grabs.foldl (History.grab stride baselineFrames) h

/-- Is a look due on this frame? -/
def due (i : ℕ) : Bool := lookedAt i stride baselineFrames
end

variable {stride baselineFrames : ℕ}

theorem dueBetween_eq (index placed : ℕ) :
    Reader.dueBetween stride baselineFrames index placed = between (due stride baselineFrames) index placed := rfl

theorem dueBetween_next {index placed : ℕ} (h : placed ≤ index + 1) :
    Reader.dueBetween stride baselineFrames index placed = [] := between_empty h

namespace Reader
variable (s : Reader) (pos now : ℚ)

/-- A grab is placed past the frame before, and placing it counts nothing. -/
structure Placed (p : Placement × Reader) : Prop where
  past : s.index < p.1.placed
  index : p.2.index = s.index
  offered : p.2.offered = s.offered
  down : p.2.down = s.down
  unseen : p.2.unseen = s.unseen

theorem untimed_placed : s.Placed (s.untimed pos now) := ⟨Nat.lt_succ_self _, rfl, rfl, rfl, rfl⟩

private theorem resume_placed : s.Placed (s.resume pos now) := by
  have hm : s.index < s.index + 1 + s.missed now := by omega
  simp only [resume]
  split
  · exact ⟨hm, rfl, rfl, rfl, rfl⟩
  · split
    · exact ⟨lt_of_lt_of_le hm (le_max_left _ _), rfl, rfl, rfl, rfl⟩
    · exact ⟨hm, rfl, rfl, rfl, rfl⟩

theorem place_placed : s.Placed (s.place pos now) := by
  simp only [place]
  split
  · split
    · exact resume_placed s pos now
    · exact untimed_placed s pos now
  · split
    · exact untimed_placed s pos now
    · exact ⟨lt_of_lt_of_le (Nat.lt_succ_self _) (le_max_left _ _), rfl, rfl, rfl, rfl⟩

/-- What a grab does to the indices: the frames up to the one it got, or the last it found lost, are passed over. -/
inductive Grabbed (stride baselineFrames : ℕ) (s : Reader) : Reader × Outcome → Prop where
  | dropped {s' : Reader} (hi : s.index ≤ s'.index)
      (hu : s'.unseen = s.unseen ++ dueBetween stride baselineFrames s.index (s'.index + 1)) :
      Grabbed stride baselineFrames s (s', .dropped)
  | passed {s' : Reader} {placed : ℕ} (he : s'.index = placed) (hi : s.index < placed)
      (hd : ¬ due stride baselineFrames placed)
      (hu : s'.unseen = s.unseen ++ dueBetween stride baselineFrames s.index placed) :
      Grabbed stride baselineFrames s (s', .passed placed)
  | offered {s' : Reader} {placed : ℕ} {time : ℚ} (he : s'.index = placed) (hi : s.index < placed)
      (hu : s'.unseen = s.unseen ++ dueBetween stride baselineFrames s.index placed) :
      Grabbed stride baselineFrames s (s', .offered ⟨placed, time⟩)

/-- The reader once the frames lost upstream before the one placed are listed. -/
structure Listed (stride baselineFrames : ℕ) (s s' : Reader) (placed : ℕ) : Prop where
  from_index : s.index ≤ s'.index
  below : s'.index < placed
  unseen : s'.unseen = s.unseen ++ dueBetween stride baselineFrames s.index (s'.index + 1)
  up : s'.down = false → s'.index = placed - 1
  same : s'.down → s'.index = s.index

private theorem lost_listed {s₁ : Reader} {p : Placement} (now : ℚ) (h : s.Placed (p, s₁)) :
    Listed stride baselineFrames s
      (if !s₁.down && s₁.index + 1 < p.placed then s₁.lostUpstream stride baselineFrames p.placed now else s₁)
      p.placed := by
  have hp : s.index < p.placed := h.past
  have hi : s₁.index = s.index := h.index
  have hu : s₁.unseen = s.unseen := h.unseen
  split
  next hg =>
    obtain ⟨hd, -⟩ := Bool.and_eq_true_iff.mp hg
    have hd : s₁.down = false := by simpa using hd
    refine ⟨?_, ?_, ?_, fun _ => rfl, fun hd' => ?_⟩
    · show s.index ≤ p.placed - 1
      omega
    · show p.placed - 1 < p.placed
      omega
    · show s₁.unseen ++ dueBetween stride baselineFrames s₁.index p.placed = _
      rw [hu, hi]
      show _ = s.unseen ++ dueBetween stride baselineFrames s.index (p.placed - 1 + 1)
      rw [Nat.sub_add_cancel (by omega)]
    · exact absurd (show s₁.down = true from hd') (by simp [hd])
  next hg =>
    refine ⟨hi.ge, by omega, ?_, fun hd => ?_, fun _ => hi⟩
    · rw [hu, dueBetween_next (by omega), List.append_nil]
    · simp only [hd, Bool.not_false, Bool.true_and, decide_eq_true_eq, Nat.not_lt] at hg
      omega

/-- A frame received brings the gaps up to it, whichever of the two lists them. -/
theorem receive_unseen {s' : Reader} {placed : ℕ} (now : ℚ) (h : Listed stride baselineFrames s s' placed) :
    (s'.receive stride baselineFrames placed now).unseen =
      s.unseen ++ dueBetween stride baselineFrames s.index placed := by
  have hb := h.below
  simp only [receive]
  split
  next hd =>
    show s'.unseen ++ dueBetween stride baselineFrames s'.index placed = _
    rw [h.unseen, h.same hd, dueBetween_next (le_refl _), List.append_nil]
  next hd =>
    show s'.unseen = _
    have hu := h.up (by simpa using hd)
    rw [h.unseen, show s'.index + 1 = placed by omega]

/-- A frame its index makes due is decoded, the baseline's and those past it. -/
theorem lookedAt_of_due {offered placed : ℕ} (h : due stride baselineFrames placed) :
    lookedAt (if offered < baselineFrames then offered else placed) stride baselineFrames := by
  split
  next ho => simp [lookedAt, ho]
  next => exact h

theorem grab_grabbed (g : Grab) : Grabbed stride baselineFrames s (s.grab stride baselineFrames g) := by
  cases g with
  | failed =>
    refine .dropped (le_refl _) ?_
    show s.unseen = s.unseen ++ dueBetween stride baselineFrames s.index (s.index + 1)
    rw [dueBetween_next (le_refl _), List.append_nil]
  | grabbed pos now decodes =>
    have hp := s.place_placed pos now
    simp only [grab]
    generalize s.place pos now = placement at hp
    obtain ⟨p, s₁⟩ := placement
    have hl : Listed stride baselineFrames s _ p.placed := lost_listed s now hp
    simp only
    generalize (if !s₁.down && s₁.index + 1 < p.placed then s₁.lostUpstream stride baselineFrames p.placed now
      else s₁) = s₂ at hl
    have hu := receive_unseen s now hl
    by_cases hd : lookedAt (if s₂.offered < baselineFrames then s₂.offered else p.placed) stride baselineFrames
    · simp only [hd, if_true]
      cases decodes with
      | true => exact .offered rfl hp.past hu
      | false => exact .dropped hl.from_index hl.unseen
    · simp only [hd]
      exact .passed rfl hp.past (fun h => hd (lookedAt_of_due h)) hu

end Reader

theorem History.grab_accounted {h : History} (g : Grab)
    (ha : Accounted (due stride baselineFrames) h.reader.index h.received h.offered h.reader.unseen) :
    Accounted (due stride baselineFrames) (h.grab stride baselineFrames g).reader.index
      (h.grab stride baselineFrames g).received (h.grab stride baselineFrames g).offered
      (h.grab stride baselineFrames g).reader.unseen := by
  have hg : h.reader.Grabbed stride baselineFrames _ := h.reader.grab_grabbed g
  simp only [History.grab]
  generalize h.reader.grab stride baselineFrames g = r at hg
  cases hg with
  | dropped hi hu =>
    simp only [Outcome.received, Outcome.handed, List.map_nil, List.append_nil, hu, dueBetween_eq]
    exact ha.skip (Nat.lt_succ_of_le hi)
  | passed he hi hd hu =>
    simp only [Outcome.received, Outcome.handed, List.map_nil, he, hu, dueBetween_eq]
    exact (ha.skip hi).take (Nat.zero_lt_of_lt hi) (by simp) fun h => absurd h hd
  | offered he hi hu =>
    simp only [Outcome.received, Outcome.handed, List.map_cons, List.map_nil, he, hu, dueBetween_eq]
    exact (ha.skip hi).take (Nat.zero_lt_of_lt hi) (by simp) fun _ => List.mem_singleton.mpr rfl

theorem History.run_accounted (grabs : List Grab) {h : History}
    (ha : Accounted (due stride baselineFrames) h.reader.index h.received h.offered h.reader.unseen) :
    Accounted (due stride baselineFrames) (h.run stride baselineFrames grabs).reader.index
      (h.run stride baselineFrames grabs).received (h.run stride baselineFrames grabs).offered
      (h.run stride baselineFrames grabs).reader.unseen := by
  induction grabs generalizing h with
  | nil => exact ha
  | cons g grabs ih => exact ih (h.grab_accounted g ha)

/-- Received in increasing order, and each due frame up to the latest received offered or `unseen`, never both. -/
theorem stream_gaps (stride baselineFrames : ℕ) (pos arrived : ℚ) (grabs : List Grab) :
    let h := (History.opened pos arrived).run stride baselineFrames grabs
    h.received.Pairwise (· < ·) ∧ h.reader.unseen.Pairwise (· < ·) ∧
      (∀ i ∈ h.reader.unseen, lookedAt i stride baselineFrames ∧ i ∉ h.received) ∧
      ∀ latest ∈ h.received, ∀ i, 1 ≤ i → i ≤ latest → lookedAt i stride baselineFrames →
        (i ∈ h.offered ∧ i ∉ h.reader.unseen) ∨ (i ∈ h.reader.unseen ∧ i ∉ h.offered) := by
  intro h
  have ha : Accounted (due stride baselineFrames) h.reader.index h.received h.offered h.reader.unseen :=
    History.run_accounted grabs accounted_start
  refine ⟨ha.rises, ha.missed_rises, fun i hi => ⟨ha.missed_due i hi, ha.apart i hi⟩, ?_⟩
  intro latest hl i h1 hi hd
  exact ha.one_entry hl h1 hi hd

end Kanat.LiveStream
