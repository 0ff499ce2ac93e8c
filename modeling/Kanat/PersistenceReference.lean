import Kanat.PersistenceRuns

/-! # The reference a Persistence refines on a recording

The reference folds the same Detections and judges each Candidate once, when its
whole window has passed, over the Looks in that window. A Candidate kept early by
the code is one the reference has not judged yet, and both keep gathering. -/
namespace Kanat.Persistence
open SortedIndices

variable {box : ℕ}

inductive Verdict where
  | undecided
  | rejected
  | persisted (persistence : ℚ)
  deriving DecidableEq

/-- The verdict over the Looks of a window that has passed. -/
def windowVerdict (P : Settings) (lookedAt lost : List ℕ) (c : Candidate box) : Verdict :=
  let e := c.firstIdx + P.window
  let span := countBetween lookedAt c.firstIdx e
  let tried := span + countBetween lost c.firstIdx e
  if 0 < span ∧ P.persist * tried ≤ span ∧ P.persist * span ≤ hits P.window c then
    .persisted (hits P.window c / span)
  else .rejected

structure Reference (box : ℕ) where
  lookedAt : List ℕ := []
  lost : List ℕ := []
  candidates : List (Candidate box) := []
  verdict : ℕ → Verdict := fun _ => .undecided

namespace Reference

/-- Judges the Candidates not judged yet whose window has passed. -/
def judge (P : Settings) (r : Reference box) (processed : ℕ) : Reference box :=
  { r with verdict := fun id =>
      let c := candidateAt r.candidates id
      if id < r.candidates.length ∧ r.verdict id = .undecided ∧
          c.firstIdx + P.window ≤ processed then
        windowVerdict P r.lookedAt r.lost c
      else r.verdict id }

def closed (r : Reference box) : Finset ℕ :=
  (Finset.range r.candidates.length).filter fun id => r.verdict id = .rejected

def register (P : Settings) (r : Reference box) (index : ℕ)
    (pts : Option (List (Detection box))) (opening : Bool) : Reference box :=
  match pts with
  | none => { r with lost := r.lost ++ [index] }
  | some pts =>
    { r with
      lookedAt := r.lookedAt ++ [index]
      candidates := fold r.candidates index pts P.matchPx opening r.closed }

def add (P : Settings) (r : Reference box) (index : ℕ)
    (pts : Option (List (Detection box))) (opening : Bool) : Reference box :=
  ((r.judge P index).register P index pts opening).judge P (index + 1)

/-- The Candidate `id` as reported: where it is now, with the persistence it was
judged to. -/
def reported (r : Reference box) (id : ℕ) : Option (Hole box) :=
  let c := candidateAt r.candidates id
  match r.verdict id with
  | .persisted persistence => some {
      pos := centre c.pos
      box := c.pos
      firstFrame := c.firstIdx
      seen := c.seen
      persistence := persistence }
  | _ => none

def «end» (P : Settings) (r : Reference box) (processed : ℕ) : List (Hole box) :=
  (List.range r.candidates.length).filterMap (r.judge P processed).reported

end Reference

/-- One Look of a recording. -/
structure Look (box : ℕ) where
  index : ℕ
  pts : Option (List (Detection box))
  opening : Bool

def Look.event (l : Look box) : Event box := .look l.index l.pts l.opening

def Reference.run (P : Settings) (looks : List (Look box)) : Reference box :=
  looks.foldl (fun r l => r.add P l.index l.pts l.opening) {}

/-- The verdict at a window's end is the bar with nothing left to come. -/
theorem windowVerdict_eq (P : Settings) (lookedAt lost : List ℕ) (c : Candidate box) :
    windowVerdict P lookedAt lost c =
      let e := c.firstIdx + P.window
      let span := countBetween lookedAt c.firstIdx e
      if Persists P.persist span (span + countBetween lost c.firstIdx e) (hits P.window c) 0 then
        .persisted (hits P.window c / span)
      else .rejected := by
  simp only [windowVerdict]
  generalize countBetween lookedAt c.firstIdx (c.firstIdx + P.window) = span
  generalize countBetween lost c.firstIdx (c.firstIdx + P.window) = losts
  refine if_congr ?_ rfl rfl
  unfold Persists
  push_cast
  simp only [add_zero]
  refine and_congr_right fun h => and_congr_right fun _ => ?_
  rw [le_div_iff₀ (by exact_mod_cast h)]

/-- Two histories with the same Looks in a Candidate's window give it one verdict. -/
theorem windowVerdict_congr {P : Settings} {lookedAt lost lookedAt' lost' : List ℕ}
    {c c' : Candidate box} (hf : c'.firstIdx = c.firstIdx)
    (hl : countBetween lookedAt' c.firstIdx (c.firstIdx + P.window) =
      countBetween lookedAt c.firstIdx (c.firstIdx + P.window))
    (ht : countBetween lost' c.firstIdx (c.firstIdx + P.window) =
      countBetween lost c.firstIdx (c.firstIdx + P.window))
    (hh : hits P.window c' = hits P.window c) :
    windowVerdict P lookedAt' lost' c' = windowVerdict P lookedAt lost c := by
  simp only [windowVerdict, hf, hl, ht, hh]

/-- The Candidate persists over the Looks so far, with nothing left to come. -/
def Settled (P : Settings) (s : State box) (id : ℕ) : Prop :=
  let f := (s.candidate id).firstIdx
  let e := f + P.window
  Persists P.persist (countBetween s.lookedAt f e) (s.tried f e) (hits P.window (s.candidate id)) 0

theorem Secure.settled {P : Settings} {s : State box} {p id : ℕ} (h : History P s p)
    (hs : Secure P s p id) : Settled P s id := by
  have hroom := stillDue_nonneg (P := P) h.unseen_sorted h.unseen_due p
    ((s.candidate id).firstIdx + P.window)
  exact Persists.mono P.persist_pos hs (Nat.le_refl _) (Nat.le_refl _) (by omega) (by omega)
    (Int.le_refl 0)

/-- A verdict given at any count of processed frames is settled. -/
theorem settled_of_verdict {P : Settings} {s : State box} {p : ℕ} (h : Inv P s p) {q id : ℕ}
    (hid : id ∈ s.openIds) (hv : (s.verdict P q id).isSome = true) : Settled P s id := by
  have hslice := unseenSlice_sorted h.unseen_sorted
  have hle : s.unseenSlice.Pairwise (· ≤ ·) := hslice.imp fun h => Nat.le_of_lt h
  have hdue : ∀ i ∈ s.unseenSlice, P.due i = true := by
    intro i hi
    apply h.unseen_due
    unfold State.unseenSlice at hi
    cases ho : s.openIds with
    | nil => simpa [ho] using hi
    | cons j js => exact List.mem_of_mem_drop (by simpa [ho] using hi)
  have hrem : 0 ≤ remaining P s.unseenSlice q ((s.candidate id).firstIdx + P.window) := by
    rw [remaining, countIn, bisectLeft_sub hle]
    exact stillDue_nonneg hslice hdue q _
  rw [State.verdict, judge_eq h.lookedAt_sorted h.lost_sorted hslice] at hv
  dsimp only at hv
  rw [countBetween_unseenSlice h.unseen_sorted (h.head_le hid)] at hv
  split_ifs at hv with hp
  · exact Persists.mono P.persist_pos hp (Nat.le_refl _) (Nat.le_refl _)
      (by simp only [State.tried]; omega) (by omega) (Int.le_refl 0)
  · simp at hv

section Ending
variable (P : Settings) (s : State box) (processed : ℕ) (live : Bool)

/-- What `end` makes of a settled Candidate. -/
def finished (x : Hole box × ℕ) : Option (Hole box) :=
  let c := s.candidate x.2
  let hole := { x.1 with pos := centre c.pos, box := c.pos, seen := c.seen }
  let span := countBetween s.lookedAt c.firstIdx (c.firstIdx + P.window)
  if c.firstIdx + P.window ≤ processed then
    some { hole with persistence := (hits P.window c : ℚ) / span }
  else if live then some hole else none

theorem finish_eq {p : ℕ} (h : History P s p) (x : Hole box × ℕ) (hs : Settled P s x.2) :
    s.finish P processed live x.1 x.2 = .ok (finished P s processed live x) := by
  simp only [State.finish, finished]
  by_cases hw : (s.candidate x.2).firstIdx + P.window ≤ processed
  · have hj := judge_eq h.lookedAt_sorted h.lost_sorted h.unseen_sorted (s.candidate x.2)
      P.persist P.window 0
    unfold Settled State.tried at hs
    dsimp only at hj hs
    rw [if_pos hs] at hj
    simp only [if_pos hw, hj, report]
  · rw [if_neg hw, if_neg hw]
    cases live <;> rfl

private theorem finishAll_eq {p : ℕ} (h : History P s p) (xs : List (Hole box × ℕ))
    (hs : ∀ x ∈ xs, Settled P s x.2) :
    s.finishAll P processed live xs = .ok (xs.filterMap (finished P s processed live)) := by
  induction xs with
  | nil => rfl
  | cons x xs ih =>
    obtain ⟨hole, id⟩ := x
    have hx := finish_eq P s processed live h (hole, id) (hs _ List.mem_cons_self)
    have hxs := ih fun y hy => hs y (List.mem_cons_of_mem _ hy)
    simp only [State.finishAll, hx, hxs]
    cases hf : finished P s processed live (hole, id) <;> simp [hf, bind, Except.bind, pure, Except.pure]

end Ending

/-- What has persisted once `processed` frames have passed is settled. -/
theorem settled_judgeDue {P : Settings} {s : State box} {p : ℕ} (h : Inv P s p) {processed id : ℕ}
    {look : Option ℕ} (hid : id ∈ (s.judgeDue P processed look).1.persistedIds) :
    Settled P (s.judgeDue P processed look).1 id := by
  rcases (mem_judgeDue_persistedIds P s processed look).mp hid with hid | ⟨ho, hv⟩
  · exact Secure.settled (s := s) h.toHistory (h.secure id hid)
  · exact settled_of_verdict h ho hv

theorem history_judgeDue {P : Settings} {s : State box} {p : ℕ} (h : History P s p) (processed : ℕ)
    (look : Option ℕ) : History P (s.judgeDue P processed look).1 p :=
  ⟨h.lookedAt_sorted, h.lost_sorted, h.unseen_sorted, h.lookedAt_lt, h.lost_lt, h.unseen_due⟩

/-- `end` reports what it finishes, whatever `processed` and in both modes. -/
theorem end_eq {P : Settings} {s : State box} {p : ℕ} (h : Inv P s p) (processed : ℕ)
    (live : Bool) :
    s.end P processed live = .ok (((s.judgeDue P processed none).1.persisted.filterMap
      (finished P s processed live)).mergeSort fun a b => a.firstFrame ≤ b.firstFrame) := by
  have hs : ∀ x ∈ (s.judgeDue P processed none).1.persisted,
      Settled P (s.judgeDue P processed none).1 x.2 :=
    fun x hx => settled_judgeDue h (List.mem_map_of_mem hx)
  have hist := history_judgeDue h.toHistory processed none
  have hall := finishAll_eq P (s.judgeDue P processed none).1 processed live hist _ hs
  simp only [State.end, hall]
  rfl

end Kanat.Persistence
