import Kanat.Announcements
import Kanat.PersistenceClips
import Mathlib.Data.List.DropRight

/-! # What the end of a live Run judges

`Persistence.end` once the loop has left its last Look, the reading thread having found more frames unseen since. -/
namespace Kanat.Announcer
open Persistence SortedIndices

variable {box : ℕ}

def Event.isMiss : Event box → Bool
  | .look _ => false
  | .miss _ => true

def Event.found : Event box → List ℕ
  | .look _ => []
  | .miss indices => indices

/-- A Run up to its last Look. -/
def upToLook (events : List (Event box)) : List (Event box) := events.rdropWhile Event.isMiss

/-- The frames found unseen since. -/
def foundSince (events : List (Event box)) : List ℕ := (events.rtakeWhile Event.isMiss).flatMap Event.found

/-- `loop.processed`: one past the last Look, `baseline` frames where none came after the baseline's. -/
def processed (baseline : ℕ) (events : List (Event box)) : ℕ := passed baseline (events.map Event.fed)

section
variable (P : Settings) (live : Live box)

/-- `end` returns the Candidates announced or waiting, as they are then, and no others. -/
def Live.EndsAsAnnounced (processed : ℕ) : Prop :=
  ∃ done, live.persistence.end P processed true = .ok done ∧
    done.Perm ((live.waiting ++ live.announced).filterMap fun h =>
      finished P live.persistence processed true (h.hole, h.candidate))

/-- Does an open Candidate meet both bars once `found` no longer are frames to come? -/
def Tipped (s : State box) (processed : ℕ) (found : List ℕ) (id : ℕ) : Prop :=
  let f := (s.candidate id).firstIdx
  let e := f + P.window
  Persists P.persist (countBetween s.lookedAt f e) (s.tried f e + countBetween found f e)
    (hits P.window (s.candidate id)) (stillDue P s.unseen processed e - countBetween found processed e)

instance (s : State box) (processed : ℕ) (found : List ℕ) (id : ℕ) : Decidable (Tipped P s processed found id) :=
  inferInstanceAs (Decidable (Persists ..))

end

section
variable {P : Settings} {require : Bool} {view : View} {wallClock : ℕ → ℤ} {live : Live box}

theorem newlyPersisted_pairs {s : State box} {q : ℕ} {look : Option ℕ} {gathered : List (List (Detection box))} :
    s.persisted ++ (newlyPersisted s (s.judgeDue P q look).1 gathered).map (fun h => (h.hole, h.candidate)) =
      (s.judgeDue P q look).1.persisted := by
  simp only [newlyPersisted, State.judgeDue, List.drop_left, List.map_map]
  exact congrArg (s.persisted ++ ·) (List.map_id _)

/-- Each Candidate that persisted waits or was announced, as it was reported. -/
def Held (live : Live box) : Prop :=
  ((live.waiting ++ live.announced).map fun h => (h.hole, h.candidate)).Perm live.persistence.persisted

private theorem held_look (h : Held live) (l : Look box) : Held (live.look P require view wallClock l) := by
  let judged := (live.persistence.judgeDue P l.index (some l.index)).1
  let folded := judged.register P l.index l.pts l.opening
  let gathered := live.gatheredAfter P judged l
  let first := newlyPersisted live.persistence judged live.gathered
  let second := newlyPersisted folded (folded.judgeDue P (l.index + 1) none).1 gathered
  have hfirst : live.persistence.persisted ++ first.map (fun h => (h.hole, h.candidate)) = judged.persisted :=
    newlyPersisted_pairs
  have hsecond : judged.persisted ++ second.map (fun h => (h.hole, h.candidate)) =
      (folded.judgeDue P (l.index + 1) none).1.persisted := by
    rw [← register_persisted P judged l.index l.pts l.opening]
    exact newlyPersisted_pairs
  have hsplit : ((live.look P require view wallClock l).waiting ++ (live.look P require view wallClock l).announced).Perm
      ((first ++ second) ++ (live.waiting ++ live.announced)) := announce_split ..
  have hnew : live.persistence.persisted ++ (first ++ second).map (fun h => (h.hole, h.candidate)) =
      (folded.judgeDue P (l.index + 1) none).1.persisted := by
    rw [List.map_append, ← List.append_assoc, hfirst, hsecond]
  show (List.map _ _).Perm (folded.judgeDue P (l.index + 1) none).1.persisted
  refine (hsplit.map _).trans ?_
  rw [List.map_append, ← hnew]
  exact List.perm_append_comm.trans (h.append_right _)

private theorem held_run (events : List (Event box)) : Held (run P require view wallClock events) := by
  induction events using List.reverseRecOn with
  | nil => exact .refl _
  | append_singleton events e ih =>
    rw [run, List.foldl_concat]
    cases e with
    | look l => exact held_look ih l
    | miss indices => exact ih

/-- Frames found unseen since a Look are all a Run's end does not share with it. -/
theorem foldl_misses (events : List (Event box)) (h : ∀ e ∈ events, Event.isMiss e) :
    events.foldl (Live.step P require view wallClock) live = { live with
      persistence := { live.persistence with unseen := live.persistence.unseen ++ events.flatMap Event.found } } := by
  induction events generalizing live with
  | nil => rw [List.flatMap_nil, List.append_nil]; rfl
  | cons e events ih =>
    cases e with
    | look l => exact absurd (h _ List.mem_cons_self) Bool.false_ne_true
    | miss indices =>
      rw [List.foldl_cons, ih fun e he => h e (List.mem_cons_of_mem _ he), List.flatMap_cons, ← List.append_assoc]
      rfl

private theorem run_found (events : List (Event box)) : run P require view wallClock events =
    { run P require view wallClock (upToLook events) with
      persistence := { (run P require view wallClock (upToLook events)).persistence with
        unseen := (run P require view wallClock (upToLook events)).persistence.unseen ++ foundSince events } } := by
  have hsplit : upToLook events ++ events.rtakeWhile Event.isMiss = events := List.rdropWhile_append_rtakeWhile ..
  conv_lhs => rw [← hsplit, run, List.foldl_append]
  exact foldl_misses _ fun e he => List.mem_rtakeWhile_imp he

theorem secure_found (s : State box) (q : ℕ) (found : List ℕ) (id : ℕ) :
    Secure P { s with unseen := s.unseen ++ found } q id ↔ Tipped P s q found id := by
  have htried : ∀ f e, State.tried { s with unseen := s.unseen ++ found } f e =
      s.tried f e + countBetween found f e := by
    intro f e
    simp only [State.tried, countBetween_append]
    omega
  have hdue : ∀ e, stillDue P (s.unseen ++ found) q e = stillDue P s.unseen q e - countBetween found q e := by
    intro e
    simp only [stillDue, countBetween_append]
    omega
  show Persists _ _ _ _ _ ↔ Persists _ _ _ _ _
  rw [htried, hdue]
  exact Iff.rfl

theorem finished_isSome (s : State box) (q : ℕ) (x : Hole box × ℕ) : (finished P s q true x).isSome := by
  simp only [finished]
  split <;> rfl

private theorem ends_iff {p q : ℕ} (hinv : Persistence.Inv P live.persistence p) (hq : p ≤ q) (hheld : Held live) :
    live.EndsAsAnnounced P q ↔ ∀ id ∈ live.persistence.openIds, ¬ Secure P live.persistence q id := by
  have hperm : ((live.waiting ++ live.announced).filterMap fun h =>
      finished P live.persistence q true (h.hole, h.candidate)).Perm
        (live.persistence.persisted.filterMap (finished P live.persistence q true)) := by
    have h := hheld.filterMap (finished P live.persistence q true)
    rwa [List.filterMap_map] at h
  rw [Live.EndsAsAnnounced, end_eq hinv q true]
  constructor
  · rintro ⟨done, hdone, hd⟩ id hid hsecure
    -- no more are returned than had persisted, so the last judgement adds none
    have hlen := (hd.trans hperm).length_eq
    rw [← Except.ok.inj hdone, (List.mergeSort_perm _ _).length_eq,
      List.filterMap_length_eq_length.mpr fun x _ => finished_isSome live.persistence q x,
      List.filterMap_length_eq_length.mpr fun x _ => finished_isSome live.persistence q x] at hlen
    have hids := congrArg List.length (judgeDue_persistedIds P live.persistence q none)
    rw [State.persistedIds, State.persistedIds, List.length_append, List.length_map, List.length_map, hlen] at hids
    have hmem : id ∈ live.persistence.openIds.filter fun id => (live.persistence.verdict P q id).isSome :=
      List.mem_filter.mpr ⟨hid, (hinv.verdict_isSome hq hid).mpr hsecure⟩
    have := List.length_pos_of_mem hmem
    omega
  · intro hnone
    refine ⟨_, rfl, (List.mergeSort_perm _ _).trans ?_⟩
    have hsame : (live.persistence.judgeDue P q none).1.persisted = live.persistence.persisted := by
      simp only [State.judgeDue]
      refine (congrArg _ (List.filterMap_eq_nil_iff.mpr fun id hid => ?_)).trans (List.append_nil _)
      have hv : ¬ (live.persistence.verdict P q id).isSome = true :=
        fun hv => hnone id hid ((hinv.verdict_isSome hq hid).mp hv)
      rw [Option.map_eq_none_iff]
      simpa using hv
    rw [hsame]
    exact hperm.symm

/-- The end of a live Run judges nothing new, unless the frames found unseen since its last Look tip a Candidate
still open then. -/
theorem ends_as_announced_iff (P : Settings) (require : Bool) (view : View) (wallClock : ℕ → ℤ) (baseline : ℕ)
    {events : List (Event box)} (hs : Scheduled P 0 [] (events.map Event.fed)) :
    (run P require view wallClock events).EndsAsAnnounced P (processed baseline events) ↔
      let s := (run P require view wallClock (upToLook events)).persistence
      ∀ id ∈ s.openIds, ¬ Tipped P s (processed baseline events) (foundSince events) id := by
  have hinv := Persistence.inv_run hs
  have hfed : (run P require view wallClock events).persistence = Persistence.run P (events.map Event.fed) :=
    foldl_persistence events
  rw [← hfed] at hinv
  have hq : passed 0 (events.map Event.fed) ≤ processed baseline events := passed_mono (Nat.zero_le baseline) _
  rw [ends_iff hinv hq (held_run events), run_found events]
  exact forall₂_congr fun id _ => not_congr (secure_found _ _ _ id)

theorem passed_misses (p : ℕ) (looks : List (Event box)) {misses : List (Event box)} (h : ∀ e ∈ misses, Event.isMiss e) :
    passed p ((looks ++ misses).map Event.fed) = passed p (looks.map Event.fed) := by
  induction looks generalizing p with
  | nil =>
    induction misses with
    | nil => rfl
    | cons e misses ih =>
      cases e with
      | look l => exact absurd (h _ List.mem_cons_self) Bool.false_ne_true
      | miss indices => exact ih fun e he => h e (List.mem_cons_of_mem _ he)
  | cons e looks ih =>
    cases e with
    | look l => exact ih (l.index + 1)
    | miss indices => exact ih p

private theorem passed_look (p : ℕ) (looks : List (Event box)) (l : Look box) :
    passed p ((looks ++ [Event.look l]).map Event.fed) = l.index + 1 := by
  induction looks generalizing p with
  | nil => rfl
  | cons e looks ih =>
    cases e with
    | look l => exact ih (l.index + 1)
    | miss indices => exact ih p

/-- With no frame found unseen since the last Look, none is tipped: that Look judged by the same frames. -/
theorem not_tipped_of_none_found (P : Settings) (require : Bool) (view : View) (wallClock : ℕ → ℤ) (baseline : ℕ)
    {events : List (Event box)} (hs : Scheduled P 0 [] (events.map Event.fed)) (hn : foundSince events = []) :
    let s := (run P require view wallClock (upToLook events)).persistence
    ∀ id ∈ s.openIds, ¬ Tipped P s (processed baseline events) (foundSince events) id := by
  intro s id hid
  rw [hn, ← secure_found, List.append_nil]
  have hsplit : upToLook events ++ events.rtakeWhile Event.isMiss = events := List.rdropWhile_append_rtakeWhile ..
  have hpassed : processed baseline events = passed baseline ((upToLook events).map Event.fed) := by
    conv_lhs => rw [processed, ← hsplit]
    exact passed_misses baseline _ fun e he => List.mem_rtakeWhile_imp he
  have hfed : s = ((upToLook events).map Event.fed).foldl (State.step P) {} := foldl_persistence (upToLook events)
  rw [← hsplit, List.map_append] at hs
  have hs := hs.of_append
  have hlast := List.rdropWhile_last_not Event.isMiss events
  change ∀ h : upToLook events ≠ [], ¬ Event.isMiss ((upToLook events).getLast h) at hlast
  rw [hpassed]
  generalize upToLook events = looks at hs hfed hlast
  rcases List.eq_nil_or_concat' looks with rfl | ⟨looks, e, rfl⟩
  · rw [hfed] at hid
    cases hid
  · cases e with
    | miss indices => exact absurd (by rw [List.getLast_concat]; rfl) (hlast (by simp))
    | look l =>
      rw [List.map_append] at hs hfed
      rw [passed_look]
      have hopen := open_undecided (looks.map Event.fed) (inv_initial P) hs
      rw [hfed] at hid ⊢
      exact hopen id hid

/-- The windows of a Run as it is set up, every 17th frame looked at. -/
def seventeen : Settings :=
  { strideTwo with
    matchPx := 10
    window := 50
    stride := 17
    baselineFrames := 5 }

/-- A mark seen at one of two Looks, its window's third due frame lost upstream once the second is taken. -/
def lostThird : List (Event 0) :=
  [.look ⟨17, some [![100, 100]], true, []⟩, .look ⟨34, some [], true, []⟩, .miss [51]]

def anyView : View where
  scale := 2
  origin := ![0, 0]
  assign _ := none
  toMillimetres _ _ := none
  scale_pos := by decide

theorem ends_as_announced_iff_lostThird :
    (run seventeen true anyView (fun _ => 0) lostThird).EndsAsAnnounced seventeen (processed 5 lostThird) ↔
      let s := (run seventeen true anyView (fun _ => 0) (upToLook lostThird)).persistence
      ∀ id ∈ s.openIds, ¬ Tipped seventeen s (processed 5 lostThird) (foundSince lostThird) id :=
  ends_as_announced_iff seventeen true anyView (fun _ => 0) 5 (by decide)

/-- The Run ends on a Candidate it never announced nor had waiting. -/
theorem ends_lostThird : ¬ ∀ events : List (Event 0), Scheduled seventeen 0 [] (events.map Event.fed) →
    (run seventeen true anyView (fun _ => 0) events).EndsAsAnnounced seventeen (processed 5 events) := by
  intro h
  obtain ⟨done, hdone, hperm⟩ := h lostThird (by decide)
  have hnone : (run seventeen true anyView (fun _ => 0) lostThird).waiting ++
      (run seventeen true anyView (fun _ => 0) lostThird).announced = [] :=
    List.eq_nil_of_length_eq_zero (by decide +kernel)
  have hone : ((run seventeen true anyView (fun _ => 0) lostThird).persistence.end seventeen 35 true).toOption.map
      List.length = some 1 := by decide +kernel
  rw [hnone] at hperm
  rw [show processed 5 lostThird = 35 from rfl] at hdone
  rw [hdone, hperm.eq_nil] at hone
  cases hone

end
end Kanat.Announcer
