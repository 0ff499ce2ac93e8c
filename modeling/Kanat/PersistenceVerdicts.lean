import Kanat.PersistenceFolding
import Mathlib.Algebra.Order.Field.Rat
import Mathlib.Tactic.FieldSimp
import Mathlib.Tactic.GCongr

/-! # An early verdict is the one the window's end gives

A Candidate persists early only when no split of the due frames still to come
between registered, Lost and unseen could undo it. The frames tried and still to
come together never grow over a run, which carries that verdict to the end. -/
namespace Kanat.Persistence
open SortedIndices

variable {box : ℕ}

/-- The two bars of a verdict: enough of the frames tried registered, enough of
those registered saw the mark. -/
def Persists (persist : ℚ) (span tried hits : ℕ) (remaining : ℤ) : Prop :=
  0 < span ∧ persist * ((tried + remaining : ℤ) : ℚ) ≤ span ∧
    persist ≤ (hits : ℚ) / ((span + remaining : ℤ) : ℚ)

instance (persist : ℚ) (span tried hits : ℕ) (remaining : ℤ) :
    Decidable (Persists persist span tried hits remaining) :=
  inferInstanceAs (Decidable (_ ∧ _ ∧ _))

/-- More registered and seen, with fewer frames tried and to come, persists still. -/
theorem Persists.mono {persist : ℚ} (hp : 0 < persist) {span tried hits span' tried' hits' : ℕ}
    {rem rem' : ℤ} (h : Persists persist span tried hits rem) (hspan : span ≤ span')
    (hhits : hits ≤ hits') (htried : (tried' : ℤ) + rem' ≤ tried + rem)
    (hroom : (span' : ℤ) + rem' ≤ span + rem) (hrem : 0 ≤ rem') :
    Persists persist span' tried' hits' rem' := by
  obtain ⟨h0, hfloor, hratio⟩ := h
  have hpos : (0 : ℤ) < span' + rem' := by omega
  have hpos' : (0 : ℤ) < span + rem := by omega
  refine ⟨by omega, ?_, hratio.trans ?_⟩
  · calc persist * ((tried' + rem' : ℤ) : ℚ) ≤ persist * ((tried + rem : ℤ) : ℚ) :=
          mul_le_mul_of_nonneg_left (by exact_mod_cast htried) hp.le
      _ ≤ span := hfloor
      _ ≤ span' := by exact_mod_cast hspan
  · have hq : (0 : ℚ) < ((span' + rem' : ℤ) : ℚ) := by exact_mod_cast hpos
    have hle : ((span' + rem' : ℤ) : ℚ) ≤ ((span + rem : ℤ) : ℚ) := by exact_mod_cast hroom
    have hh : (hits : ℚ) ≤ hits' := by exact_mod_cast hhits
    calc (hits : ℚ) / ((span + rem : ℤ) : ℚ) ≤ hits / ((span' + rem' : ℤ) : ℚ) :=
          div_le_div_of_nonneg_left (by positivity) hq hle
      _ ≤ hits' / ((span' + rem' : ℤ) : ℚ) := by gcongr

/-- What `judge` reports of a Candidate whose window holds `span` registered Looks. -/
def report (window span : ℕ) (c : Candidate box) : Hole box where
  pos := centre c.pos
  box := c.pos
  firstFrame := c.firstIdx
  seen := c.seen
  persistence := (hits window c : ℚ) / span

theorem judge_eq {looked lost unseen : List ℕ} (hlooked : looked.Pairwise (· < ·))
    (hlost : lost.Pairwise (· < ·)) (hunseen : unseen.Pairwise (· < ·)) (c : Candidate box)
    (persist : ℚ) (window : ℕ) (rem : ℤ) :
    judge c looked lost persist window unseen rem =
      let e := c.firstIdx + window
      let span := countBetween looked c.firstIdx e
      if Persists persist span
          (span + countBetween lost c.firstIdx e + countBetween unseen c.firstIdx e)
          (hits window c) rem
      then some (report window span c) else none := by
  have le_of (xs : List ℕ) (h : xs.Pairwise (· < ·)) : xs.Pairwise (· ≤ ·) :=
    h.imp fun h => Nat.le_of_lt h
  simp only [judge, countIn, bisectLeft_sub (le_of _ hlooked), bisectLeft_sub (le_of _ hlost),
    bisectLeft_sub (le_of _ hunseen), length_seen_filter]
  generalize countBetween looked c.firstIdx (c.firstIdx + window) = span
  generalize countBetween lost c.firstIdx (c.firstIdx + window) = losts
  generalize countBetween unseen c.firstIdx (c.firstIdx + window) = gaps
  by_cases h₁ : span ≤ 0 ∨ (span : ℚ) < persist * ((((span + losts + gaps : ℕ) : ℤ) + rem : ℤ) : ℚ)
  · rw [if_pos h₁, if_neg]
    rintro ⟨h0, hfloor, _⟩
    rcases h₁ with h₁ | h₁
    · omega
    · exact absurd hfloor (not_le.mpr h₁)
  · rw [if_neg h₁]
    rw [not_or] at h₁
    by_cases h₂ : (hits window c : ℚ) / ((span + rem : ℤ) : ℚ) < persist
    · rw [if_pos h₂, if_neg]
      exact fun h => absurd h.2.2 (not_le.mpr h₂)
    · rw [if_neg h₂, if_pos ⟨by omega, not_lt.mp h₁.2, not_lt.mp h₂⟩]
      rfl

/-- Registered, Lost and unseen frames in `[lo, hi)`. -/
def State.tried (s : State box) (lo hi : ℕ) : ℕ :=
  countBetween s.lookedAt lo hi + countBetween s.lost lo hi + countBetween s.unseen lo hi

/-- Due frames in `[processed, windowEnd)` not known unseen. -/
def stillDue (P : Settings) (unseen : List ℕ) (processed windowEnd : ℕ) : ℤ :=
  ((List.range' processed (windowEnd - processed)).countP P.due : ℤ) -
    countBetween unseen processed windowEnd

/-- The history of a run of `p` frames. -/
structure History (P : Settings) (s : State box) (p : ℕ) : Prop where
  lookedAt_sorted : s.lookedAt.Pairwise (· < ·)
  lost_sorted : s.lost.Pairwise (· < ·)
  unseen_sorted : s.unseen.Pairwise (· < ·)
  lookedAt_lt : ∀ i ∈ s.lookedAt, i < p
  lost_lt : ∀ i ∈ s.lost, i < p
  unseen_due : ∀ i ∈ s.unseen, P.due i = true

section StillDue
variable {P : Settings} {unseen : List ℕ}

theorem stillDue_nonneg (hs : unseen.Pairwise (· < ·)) (hd : ∀ i ∈ unseen, P.due i = true)
    (p e : ℕ) : 0 ≤ stillDue P unseen p e := by
  have := countBetween_le_range' hs P.due p e fun i hi _ _ => hd i hi
  unfold stillDue
  omega

theorem stillDue_of_le {p e : ℕ} (h : e ≤ p) : stillDue P unseen p e = 0 := by
  have hz : countBetween unseen p e = 0 := countBetween_eq_zero fun i _ hi => h.trans hi
  simp [stillDue, hz, Nat.sub_eq_zero_of_le h]

theorem stillDue_split {p q e : ℕ} (h₁ : p ≤ q) (h₂ : q ≤ e) :
    stillDue P unseen p e = stillDue P unseen p q + stillDue P unseen q e := by
  have hr : List.range' p (e - p) = List.range' p (q - p) ++ List.range' q (e - q) := by
    rw [show e - p = (q - p) + (e - q) by omega, ← List.range'_append_1,
      show p + (q - p) = q by omega]
  simp only [stillDue, hr, List.countP_append, countBetween_split unseen h₁ h₂]
  push_cast
  ring

theorem stillDue_anti (hs : unseen.Pairwise (· < ·)) (hd : ∀ i ∈ unseen, P.due i = true)
    {p q : ℕ} (h : p ≤ q) (e : ℕ) : stillDue P unseen q e ≤ stillDue P unseen p e := by
  rcases Nat.lt_or_ge e q with he | he
  · rw [stillDue_of_le (by omega)]
    exact stillDue_nonneg hs hd p e
  · rw [stillDue_split h he]
    have := stillDue_nonneg hs hd p q
    omega

/-- A due frame not unseen is still to come until it is reached. -/
theorem stillDue_succ {i e : ℕ} (hdue : P.due i = true) (hnot : i ∉ unseen) (he : i < e) :
    stillDue P unseen i e = 1 + stillDue P unseen (i + 1) e := by
  have hz : countBetween unseen i (i + 1) = 0 := by
    refine countBetween_eq_zero fun j hj hij => ?_
    have : j ≠ i := fun h => hnot (h ▸ hj)
    omega
  rw [stillDue_split (Nat.le_succ i) he]
  simp [stillDue, hz, hdue]

end StillDue

theorem unseenSlice_sorted {s : State box} (h : s.unseen.Pairwise (· < ·)) :
    s.unseenSlice.Pairwise (· < ·) := by
  unfold State.unseenSlice
  cases s.openIds with
  | nil => exact h
  | cons id ids => exact h.drop

/-- The slice counts as the whole list does, from the first open window on. -/
theorem countBetween_unseenSlice {s : State box} (h : s.unseen.Pairwise (· < ·)) {lo hi : ℕ}
    (hlo : ∀ id, s.openIds.head? = some id → (s.candidate id).firstIdx ≤ lo) :
    countBetween s.unseenSlice lo hi = countBetween s.unseen lo hi := by
  unfold State.unseenSlice
  cases ho : s.openIds with
  | nil => rfl
  | cons id ids =>
    exact countBetween_drop_bisectLeft (h.imp fun h => Nat.le_of_lt h) (hlo id (by simp [ho]))

/-- The Candidate `id` persists whatever the due frames left in its window bring. -/
def Secure (P : Settings) (s : State box) (p id : ℕ) : Prop :=
  let f := (s.candidate id).firstIdx
  let e := f + P.window
  Persists P.persist (countBetween s.lookedAt f e) (s.tried f e) (hits P.window (s.candidate id))
    (stillDue P s.unseen p e)

instance (P : Settings) (s : State box) (p id : ℕ) : Decidable (Secure P s p id) :=
  inferInstanceAs (Decidable (Persists ..))

/-- A verdict of `judgeDue` is the secure one: its slice of `unseen` counts as
`unseen` does. -/
theorem verdict_eq {P : Settings} {s : State box} {p : ℕ} (h : History P s p) {q id : ℕ}
    (hhead : ∀ j, s.openIds.head? = some j →
      (s.candidate j).firstIdx ≤ (s.candidate id).firstIdx)
    (hq : (s.candidate id).firstIdx ≤ q) :
    s.verdict P q id = if Secure P s q id then
      some (report P.window (countBetween s.lookedAt (s.candidate id).firstIdx
        ((s.candidate id).firstIdx + P.window)) (s.candidate id)) else none := by
  have hle : s.unseenSlice.Pairwise (· ≤ ·) :=
    (unseenSlice_sorted h.unseen_sorted).imp fun h => Nat.le_of_lt h
  have hrem : remaining P s.unseenSlice q ((s.candidate id).firstIdx + P.window) =
      stillDue P s.unseen q ((s.candidate id).firstIdx + P.window) := by
    rw [remaining, stillDue, countIn, bisectLeft_sub hle,
      countBetween_unseenSlice h.unseen_sorted fun j hj => (hhead j hj).trans hq]
  rw [State.verdict, judge_eq h.lookedAt_sorted h.lost_sorted (unseenSlice_sorted h.unseen_sorted)]
  dsimp only
  rw [hrem, countBetween_unseenSlice h.unseen_sorted hhead]
  rfl

theorem verdict_firstFrame {P : Settings} {s : State box} {q id : ℕ} {hole : Hole box} (h : s.verdict P q id = some hole) :
    hole.firstFrame = (s.candidate id).firstIdx := by
  simp only [State.verdict, judge] at h
  split_ifs at h
  cases h
  rfl

end Kanat.Persistence
