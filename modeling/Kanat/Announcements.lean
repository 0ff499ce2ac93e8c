import Kanat.IdempotencyKeys
import Kanat.PersistenceReference

/-! # What a live Run announced is final, and all it reports

The announcer is called with the Candidates each Look newly finds persisted. What every Look keeps of what waits and
of what was announced is carried over the Looks, to the holes and the Candidates `process` returns at the end. -/
namespace Kanat.Announcer
open Persistence

variable {box : ℕ}

/-- What `process` returns of a live Run: its Bullet Holes, and every Candidate that persisted. -/
structure FinishedRun (box : ℕ) where
  holes : List (Sighted box)
  persisted : List (Hole box)

/-- An announced Bullet Hole at the position `end` refreshes it to. -/
def refresh (P : Settings) (s : State box) (processed : ℕ) (h : Sighted box) : Except String (Sighted box) := do
  let hole ← s.finish P processed true h.hole h.candidate
  return { h with hole := hole.getD h.hole }

/-- The end of `process`; a stream's Run merges nothing. -/
def Live.finishRun (P : Settings) (live : Live box) (processed : ℕ) : Except String (FinishedRun box) := do
  let persisted ← live.persistence.end P processed true
  let announced ← live.announced.mapM (refresh P (live.persistence.judgeDue P processed none).1 processed)
  return ⟨announced.mergeSort fun a b => a.hole.firstFrame ≤ b.hole.firstFrame, persisted⟩

/-- A Candidate is open, persisted or neither. -/
structure Apart (s : State box) : Prop where
  openIds_nodup : s.openIds.Nodup
  persistedIds_nodup : s.persistedIds.Nodup
  not_both : ∀ id ∈ s.openIds, id ∉ s.persistedIds
  below : ∀ id, id ∈ s.openIds ∨ id ∈ s.persistedIds → id < s.candidates.length

private theorem apart_initial : Apart ({} : State box) where
  openIds_nodup := List.nodup_nil
  persistedIds_nodup := List.nodup_nil
  not_both := nofun
  below := by simp [State.persistedIds]

section
variable {P : Settings} {s : State box}

/-- The open Candidates one judgement finds persisted. -/
def persistsNow (P : Settings) (s : State box) (q : ℕ) : List ℕ :=
  s.openIds.filter fun id => (s.verdict P q id).isSome

theorem apart_judgeDue (h : Apart s) (q : ℕ) (look : Option ℕ) : Apart (s.judgeDue P q look).1 where
  openIds_nodup := h.openIds_nodup.filter _
  persistedIds_nodup := by
    rw [judgeDue_persistedIds]
    refine List.nodup_append.mpr ⟨h.persistedIds_nodup, h.openIds_nodup.filter _, ?_⟩
    rintro a ha b hb rfl
    exact h.not_both a (List.mem_filter.mp hb).1 ha
  not_both := by
    intro id hid hp
    obtain ⟨ho, hv, -⟩ := (mem_judgeDue_openIds P s q look).mp hid
    rcases (mem_judgeDue_persistedIds P s q look).mp hp with hp | ⟨-, hp⟩
    · exact h.not_both id ho hp
    · simp [hv] at hp
  below := by
    intro id hid
    rw [judgeDue_candidates]
    rw [mem_judgeDue_openIds, mem_judgeDue_persistedIds] at hid
    rcases hid with ⟨ho, -⟩ | hp | ⟨ho, -⟩
    · exact h.below id (Or.inl ho)
    · exact h.below id (Or.inr hp)
    · exact h.below id (Or.inl ho)

private theorem apart_register (h : Apart s) (index : ℕ) (pts : Option (List (Detection box))) (opening : Bool) :
    Apart (s.register P index pts opening) := by
  have hlen := (grown_register P s index pts opening).length_le
  have hmade : ∀ id ∈ List.range' s.candidates.length
      ((s.register P index pts opening).candidates.length - s.candidates.length),
      s.candidates.length ≤ id ∧ id < (s.register P index pts opening).candidates.length := by
    intro id hid
    have := List.mem_range'_1.mp hid
    omega
  constructor
  · rw [register_openIds]
    refine List.nodup_append.mpr ⟨h.openIds_nodup, List.nodup_range', ?_⟩
    rintro a ha b hb rfl
    have := h.below a (Or.inl ha)
    have := (hmade a hb).1
    omega
  · rw [register_persistedIds]
    exact h.persistedIds_nodup
  · intro id hid hp
    rw [register_persistedIds] at hp
    rw [register_openIds] at hid
    rcases List.mem_append.mp hid with hid | hid
    · exact h.not_both id hid hp
    · have := h.below id (Or.inr hp)
      have := (hmade id hid).1
      omega
  · intro id hid
    rw [register_openIds, register_persistedIds, List.mem_append] at hid
    rcases hid with (ho | hm) | hp
    · exact (h.below id (Or.inl ho)).trans_le hlen
    · exact (hmade id hm).2
    · exact (h.below id (Or.inr hp)).trans_le hlen

variable {gathered : List (List (Detection box))} {x : Sighted box}

theorem newlyPersisted_candidates (q : ℕ) (look : Option ℕ) :
    (newlyPersisted s (s.judgeDue P q look).1 gathered).map (·.candidate) = persistsNow P s q := by
  have h := judgeDue_persistedIds P s q look
  simp only [State.persistedIds, State.judgeDue, List.map_append, List.append_cancel_left_eq] at h
  simp only [newlyPersisted, State.judgeDue, List.drop_left, List.map_map, persistsNow]
  exact h

private theorem verdict_box {q id : ℕ} {hole : Hole box} (h : s.verdict P q id = some hole) :
    hole.box = (s.candidate id).pos := by
  simp only [State.verdict, judge] at h
  split_ifs at h
  cases h
  rfl

/-- A Candidate newly persisted was open, and is reported by its verdict. -/
theorem newlyPersisted_verdict {q : ℕ} {look : Option ℕ} (hx : x ∈ newlyPersisted s (s.judgeDue P q look).1 gathered) :
    x.candidate ∈ s.openIds ∧ ∃ hole, s.verdict P q x.candidate = some hole ∧ x.hole.box = hole.box ∧
      x.hole.firstFrame = hole.firstFrame := by
  simp only [newlyPersisted, State.judgeDue, List.drop_left] at hx
  obtain ⟨⟨hole, id⟩, hmem, rfl⟩ := List.mem_map.mp hx
  obtain ⟨id', hid, hv⟩ := List.mem_filterMap.mp hmem
  obtain ⟨hole', hverdict, heq⟩ := Option.map_eq_some_iff.mp hv
  cases heq
  exact ⟨hid, hole', hverdict, rfl, rfl⟩

theorem newlyPersisted_box {t : State box} {q : ℕ} {look : Option ℕ} (ht : t = (s.judgeDue P q look).1)
    (hx : x ∈ newlyPersisted s t gathered) : x.hole.box = (s.candidate x.candidate).pos := by
  subst ht
  obtain ⟨-, hole, hverdict, hb, -⟩ := newlyPersisted_verdict hx
  exact hb.trans (verdict_box hverdict)

end

section
variable (P : Settings) (require : Bool) (view : View) (wallClock : ℕ → ℤ)

/-- Where a Candidate announced at a Look was then, and the Detection that Change Evidence saw there: one that
persisted at the Look is where it was judged, before the Look's Detections folded or after. -/
def SeenThen (before after : Live box) (l : Look box) (h : Sighted box) : Prop :=
  if h.candidate ∈ before.persistence.persistedIds then
    ∃ c ∈ l.corroborating, sameBulletHole c (after.persistence.candidate h.candidate).pos P.matchPx
  else
    (h.hole.box = (before.persistence.candidate h.candidate).pos ∨
      h.hole.box = (after.persistence.candidate h.candidate).pos) ∧
    ∃ c ∈ after.corroboration, sameBulletHole c h.hole.box P.matchPx

section
variable (live : Live box) (persisted : List (Sighted box)) (corroborating : List (Detection box))

theorem announce_split : ((live.announce P require view wallClock persisted corroborating).waiting ++
    (live.announce P require view wallClock persisted corroborating).announced).Perm
      (persisted ++ (live.waiting ++ live.announced)) := by
  let pairs := (live.waiting.map fun h =>
      (h, corroborates corroborating (live.persistence.candidate h.candidate).pos P.matchPx)) ++
    persisted.map fun h => (h, corroborates live.corroboration h.hole.box P.matchPx)
  let kept := (pairs.filter fun h => require && !h.2).map Prod.fst
  let told := (pairs.filter fun h => !(require && !h.2)).map Prod.fst
  have hpairs : (kept ++ told).Perm (live.waiting ++ persisted) := by
    have h := (List.filter_append_perm (fun h : Sighted box × Bool => require && !h.2) pairs).map Prod.fst
    rw [List.map_append] at h
    refine h.trans (.of_eq ?_)
    simp [pairs, Function.comp_def]
  show (kept ++ (live.announced ++ told)).Perm _
  calc (kept ++ (live.announced ++ told)).Perm (kept ++ (told ++ live.announced)) :=
        List.perm_append_comm.append_left _
    _ = kept ++ told ++ live.announced := (List.append_assoc ..).symm
    (kept ++ told ++ live.announced).Perm (live.waiting ++ persisted ++ live.announced) := hpairs.append_right _
    (live.waiting ++ persisted ++ live.announced).Perm (persisted ++ live.waiting ++ live.announced) :=
        List.perm_append_comm.append_right _
    _ = persisted ++ (live.waiting ++ live.announced) := List.append_assoc ..

/-- Told are those seen by Change Evidence, or all of them when it is not required. -/
theorem announce_told : ∃ told,
    (live.announce P require view wallClock persisted corroborating).announced = live.announced ++ told ∧
    ∀ h ∈ told,
      (h ∈ live.waiting ∧ (require → ∃ c ∈ corroborating,
        sameBulletHole c (live.persistence.candidate h.candidate).pos P.matchPx)) ∨
      (h ∈ persisted ∧ (require → ∃ c ∈ live.corroboration, sameBulletHole c h.hole.box P.matchPx)) := by
  refine ⟨_, rfl, fun h hh => ?_⟩
  obtain ⟨⟨h, seen⟩, hmem, rfl⟩ := List.mem_map.mp hh
  obtain ⟨hmem, hseen⟩ := List.mem_filter.mp hmem
  have hseen : require → seen = true := by
    intro hr
    simpa [hr] using hseen
  rcases List.mem_append.mp hmem with hmem | hmem
  · obtain ⟨x, hx, heq⟩ := List.mem_map.mp hmem
    cases heq
    exact Or.inl ⟨hx, fun hr => List.any_eq_true.mp (hseen hr)⟩
  · obtain ⟨x, hx, heq⟩ := List.mem_map.mp hmem
    cases heq
    exact Or.inr ⟨hx, fun hr => List.any_eq_true.mp (hseen hr)⟩

end

variable {P require view wallClock} {live : Live box}

/-- Each Candidate that persisted waits or was announced, once. -/
structure Kept (live : Live box) : Prop where
  apart : Apart live.persistence
  split : ((live.waiting ++ live.announced).map (·.candidate)).Perm live.persistence.persistedIds

/-- One Look: the Candidates it finds persisted, in the two judgements, are what the announcer is called with. -/
theorem look_announces (P : Settings) (require : Bool) (view : View) (wallClock : ℕ → ℤ) (ha : Apart live.persistence)
    (l : Look box) : ∃ (called : Live box) (persisted : List (Sighted box)),
    live.look P require view wallClock l = called.announce P require view wallClock persisted l.corroborating ∧
    called.waiting = live.waiting ∧ called.announced = live.announced ∧
    called.corroboration = live.corroboration ++ l.corroborating ∧ Apart called.persistence ∧
    called.persistence.persistedIds = live.persistence.persistedIds ++ persisted.map (·.candidate) ∧
    ∀ x ∈ persisted, x.hole.box = (live.persistence.candidate x.candidate).pos ∨
      x.hole.box = (called.persistence.candidate x.candidate).pos := by
  let judged := (live.persistence.judgeDue P l.index (some l.index)).1
  let folded := judged.register P l.index l.pts l.opening
  let gathered := live.gatheredAfter P judged l
  refine ⟨_, newlyPersisted live.persistence judged live.gathered ++
    newlyPersisted folded (folded.judgeDue P (l.index + 1) none).1 gathered, rfl, rfl, rfl, rfl, ?_, ?_, ?_⟩
  · have hjudged : Apart judged := apart_judgeDue ha l.index (some l.index)
    have hfolded : Apart folded := apart_register hjudged l.index l.pts l.opening
    exact apart_judgeDue hfolded (l.index + 1) none
  · show ((judged.register P l.index l.pts l.opening).judgeDue P (l.index + 1) none).1.persistedIds = _
    rw [List.map_append, newlyPersisted_candidates, newlyPersisted_candidates, judgeDue_persistedIds,
      register_persistedIds, judgeDue_persistedIds, List.append_assoc]
    rfl
  · intro x hx
    rcases List.mem_append.mp hx with hx | hx
    · exact Or.inl (newlyPersisted_box rfl hx)
    · have hb : x.hole.box = (folded.candidate x.candidate).pos :=
        newlyPersisted_box rfl hx
      exact Or.inr hb

theorem kept_look (h : Kept live) (l : Look box) : Kept (live.look P require view wallClock l) := by
  obtain ⟨called, persisted, he, hw, han, -, hap, hp, -⟩ := look_announces P require view wallClock h.apart l
  rw [he]
  refine ⟨hap, ?_⟩
  show (List.map _ _).Perm called.persistence.persistedIds
  refine ((announce_split P require view wallClock called persisted l.corroborating).map _).trans ?_
  rw [List.map_append, hp, hw, han]
  exact List.perm_append_comm.trans (h.split.append_right _)

theorem kept_step (h : Kept live) (e : Event box) : Kept (live.step P require view wallClock e) := by
  cases e with
  | look l => exact kept_look h l
  | miss indices =>
    exact ⟨⟨h.apart.openIds_nodup, h.apart.persistedIds_nodup, h.apart.not_both, h.apart.below⟩, h.split⟩

private theorem kept_foldl (events : List (Event box)) (h : Kept live) :
    Kept (events.foldl (Live.step P require view wallClock) live) := by
  induction events generalizing live with
  | nil => exact h
  | cons e events ih => exact ih (kept_step h e)

theorem kept_run (events : List (Event box)) : Kept (run P require view wallClock events) :=
  kept_foldl events ⟨apart_initial, .refl _⟩

/-- A Look announces Candidates that have persisted, each seen by Change Evidence where it is then. -/
theorem look_tells (h : Kept live) (l : Look box) : ∃ told,
    (live.look P require view wallClock l).announced = live.announced ++ told ∧
    ∀ x ∈ told, x.candidate ∈ (live.look P require view wallClock l).persistence.persistedIds ∧
      (require → SeenThen P live (live.look P require view wallClock l) l x) := by
  obtain ⟨called, persisted, he, hw, han, hc, hap, hp, hbox⟩ := look_announces P require view wallClock h.apart l
  obtain ⟨told, htold, hseen⟩ := announce_told P require view wallClock called persisted l.corroborating
  rw [he]
  refine ⟨told, htold.trans (by rw [han]), fun x hx => ?_⟩
  show x.candidate ∈ called.persistence.persistedIds ∧ (require → SeenThen P live _ l x)
  rcases hseen x hx with ⟨hwait, hs⟩ | ⟨hpers, hs⟩
  · have hmem : x.candidate ∈ live.persistence.persistedIds :=
      h.split.mem_iff.mp (List.mem_map_of_mem (List.mem_append_left _ (hw ▸ hwait)))
    refine ⟨hp ▸ List.mem_append_left _ hmem, fun hr => ?_⟩
    rw [SeenThen, if_pos hmem]
    exact hs hr
  · have hnew : x.candidate ∈ persisted.map (·.candidate) := List.mem_map_of_mem hpers
    have hnot : x.candidate ∉ live.persistence.persistedIds := by
      have hnd := hap.persistedIds_nodup
      rw [hp] at hnd
      intro hmem
      exact (List.nodup_append.mp hnd).2.2 _ hmem _ hnew rfl
    refine ⟨hp ▸ List.mem_append_right _ hnew, fun hr => ?_⟩
    rw [SeenThen, if_neg hnot]
    exact ⟨hbox x hpers, hs hr⟩

private theorem refresh_candidate {s : State box} {processed : ℕ} {h h' : Sighted box}
    (hr : refresh P s processed h = .ok h') : h'.candidate = h.candidate := by
  simp only [refresh] at hr
  cases hf : s.finish P processed true h.hole h.candidate with
  | error e => simp [hf, bind, Except.bind] at hr
  | ok hole =>
    simp only [hf, bind, Except.bind, pure, Except.pure, Except.ok.injEq] at hr
    rw [← hr]

private theorem mapM_candidates {s : State box} {processed : ℕ} {hs hs' : List (Sighted box)}
    (hr : hs.mapM (refresh P s processed) = .ok hs') : hs'.map (·.candidate) = hs.map (·.candidate) := by
  induction hs generalizing hs' with
  | nil =>
    cases hr
    rfl
  | cons h hs ih =>
    rw [List.mapM_cons] at hr
    cases hf : refresh P s processed h with
    | error e => simp [hf, bind, Except.bind] at hr
    | ok h' =>
      cases hm : hs.mapM (refresh P s processed) with
      | error e => simp [hf, hm, bind, Except.bind] at hr
      | ok rest =>
        simp only [hf, hm, bind, Except.bind, pure, Except.pure, Except.ok.injEq] at hr
        rw [← hr, List.map_cons, List.map_cons, refresh_candidate hf, ih hm]

/-- The holes of the finished Run are the announced ones. -/
theorem finishRun_holes {processed : ℕ} {r : FinishedRun box} (hr : live.finishRun P processed = .ok r) :
    (r.holes.map (·.candidate)).Perm (live.announced.map (·.candidate)) := by
  simp only [Live.finishRun] at hr
  cases he : live.persistence.end P processed true with
  | error e => simp [he, bind, Except.bind] at hr
  | ok persisted =>
    cases hm : live.announced.mapM (refresh P (live.persistence.judgeDue P processed none).1 processed) with
    | error e => simp [he, hm, bind, Except.bind] at hr
    | ok announced =>
      simp only [he, hm, bind, Except.bind, pure, Except.pure, Except.ok.injEq] at hr
      rw [← hr, ← mapM_candidates hm]
      exact (List.mergeSort_perm announced _).map _

/-- What the Persistence of a live Run is fed. -/
def Event.fed : Event box → Persistence.Event box
  | .look l => .look l.index l.pts l.opening
  | .miss indices => .miss indices

theorem foldl_persistence (events : List (Event box)) :
    (events.foldl (Live.step P require view wallClock) live).persistence =
      (events.map Event.fed).foldl (State.step P) live.persistence := by
  induction events generalizing live with
  | nil => rfl
  | cons e events ih =>
    refine ih.trans ?_
    cases e <;> rfl

private theorem mapM_ok {s : State box} {p : ℕ} (hist : History P s p) (processed : ℕ) {hs : List (Sighted box)}
    (hall : ∀ h ∈ hs, Settled P s h.candidate) : ∃ hs', hs.mapM (refresh P s processed) = .ok hs' := by
  induction hs with
  | nil => exact ⟨[], rfl⟩
  | cons h hs ih =>
    obtain ⟨rest, hrest⟩ := ih fun x hx => hall x (List.mem_cons_of_mem _ hx)
    have hf := finish_eq P s processed true hist (h.hole, h.candidate) (hall h List.mem_cons_self)
    simp [List.mapM_cons, refresh, hf, hrest, bind, Except.bind, pure, Except.pure]

/-- A live Run whose Looks are due frames in order, none of them unseen, comes to its end. -/
theorem finishRun_ok {events : List (Event box)} (hs : Scheduled P 0 [] (events.map Event.fed)) (processed : ℕ) :
    ∃ r, (run P require view wallClock events).finishRun P processed = .ok r := by
  have hinv := Persistence.inv_run hs
  have hkept : Kept (run P require view wallClock events) := kept_run events
  have hp : (run P require view wallClock events).persistence = Persistence.run P (events.map Event.fed) :=
    foldl_persistence events
  rw [← hp] at hinv
  have hset : ∀ h ∈ (run P require view wallClock events).announced,
      Settled P ((run P require view wallClock events).persistence.judgeDue P processed none).1 h.candidate := by
    intro h hh
    refine settled_judgeDue hinv ((mem_judgeDue_persistedIds ..).mpr (Or.inl ?_))
    exact hkept.split.mem_iff.mp (List.mem_map_of_mem (List.mem_append_right _ hh))
  obtain ⟨announced, han⟩ := mapM_ok (history_judgeDue hinv.toHistory processed none) processed hset
  simp [Live.finishRun, end_eq hinv, han, bind, Except.bind, pure, Except.pure]

end

/-- After every Look of a live Run each Candidate that persisted waits or was announced, once; the next announces
only such, seen by Change Evidence where it was then; and the Run's holes are those announced. -/
theorem announcements_final (P : Settings) (require : Bool) (view : View) (wallClock : ℕ → ℤ)
    (events : List (Event box)) :
    let live := run P require view wallClock events
    ((live.waiting ++ live.announced).map (·.candidate)).Nodup ∧
      (∀ id, id ∈ live.persistence.persistedIds ↔ id ∈ (live.waiting ++ live.announced).map (·.candidate)) ∧
      live.published = live.announced.map (fun h => confirmed view wallClock h.hole) ∧
      (∀ indices, (run P require view wallClock (events ++ [.miss indices])).announced = live.announced) ∧
      (∀ l, let next := run P require view wallClock (events ++ [.look l])
        ∃ told, next.announced = live.announced ++ told ∧ ∀ h ∈ told,
          h.candidate ∈ next.persistence.persistedIds ∧ (require → SeenThen P live next l h)) ∧
      (∀ processed r, live.finishRun P processed = .ok r →
        (r.holes.map (·.candidate)).Perm (live.announced.map (·.candidate))) ∧
      (Scheduled P 0 [] (events.map Event.fed) → ∀ processed, ∃ r, live.finishRun P processed = .ok r) := by
  intro live
  have hkept : Kept live := kept_run events
  refine ⟨(hkept.split.nodup_iff).mpr hkept.apart.persistedIds_nodup, fun id => hkept.split.mem_iff.symm,
    (inv_run events).published, ?_, ?_, fun _ _ => finishRun_holes, finishRun_ok⟩
  · intro indices
    simp only [run, List.foldl_append, List.foldl_cons, List.foldl_nil]
    rfl
  · intro l next
    have hnext : next = live.look P require view wallClock l := by
      simp only [next, run, List.foldl_append, List.foldl_cons, List.foldl_nil]
      rfl
    rw [hnext]
    exact look_tells hkept l

end Kanat.Announcer
