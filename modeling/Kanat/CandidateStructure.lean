import Kanat.IdempotencyKeys
import Kanat.PersistenceClips

/-! # The Candidates of a run stay a partition

Whatever the verdicts are: each Detection taken is in one Candidate, each Candidate is open, persisted or closed, and
a closed one is never touched again. A run is any calls of `add` whose frames increase. -/
namespace Kanat.Persistence
open Announcer (Gathers gather gatherOne mean)

variable {box : ℕ}

/-- What one Detection is taken as: nothing, where it matches none and may open none. -/
def takenOne (matchPx : ℚ) (opening : Bool) (closed : Finset ℕ) (candidates : List (Candidate box))
    (p : Detection box) : List (Detection box) :=
  if (findMatch candidates p matchPx closed).isSome || opening then [p] else []

def taken (idx : ℕ) (matchPx : ℚ) (opening : Bool) (closed : Finset ℕ) :
    List (Candidate box) → List (Detection box) → List (Detection box)
  | _, [] => []
  | candidates, p :: pts => takenOne matchPx opening closed candidates p ++
      taken idx matchPx opening closed (foldOne idx matchPx opening closed candidates p) pts

/-- A run, the Detections each Candidate gathered in it, and all that were taken. -/
structure Ledger (box : ℕ) where
  state : State box := {}
  gathered : List (List (Detection box)) := []
  takenAll : List (Detection box) := []

def Ledger.step (P : Settings) (l : Ledger box) (e : Event box) : Ledger box :=
  match e with
  | .look index (some pts) opening =>
    let judged := (l.state.judgeDue P index (some index)).1
    { state := l.state.step P e
      gathered := gather index P.matchPx opening judged.closed judged.candidates l.gathered pts
      takenAll := l.takenAll ++ taken index P.matchPx opening judged.closed judged.candidates pts }
  | _ => { l with state := l.state.step P e }

def record (P : Settings) (events : List (Event box)) : Ledger box := events.foldl (Ledger.step P) {}

/-- Looks at increasing frames, from `next` on. -/
def InOrder : ℕ → List (Event box) → Prop
  | _, [] => True
  | next, .look index _ _ :: events => next ≤ index ∧ InOrder (index + 1) events
  | next, .miss _ :: events => InOrder next events

theorem Scheduled.inOrder {P : Settings} {events : List (Event box)} {next : ℕ} {unseen : List ℕ}
    (h : Scheduled P next unseen events) : InOrder next events := by
  induction events generalizing next unseen with
  | nil => trivial
  | cons e events ih =>
    cases e with
    | look index pts opening => exact ⟨h.1, ih h.2.2.2⟩
    | miss indices => exact ih h.2.2

/-- The Detections of a run's Looks. -/
def detections : List (Event box) → List (Detection box)
  | [] => []
  | .look _ pts _ :: events => pts.getD [] ++ detections events
  | .miss _ :: events => detections events

/-- Every Look of the run opens Candidates. -/
def AllOpening (events : List (Event box)) : Prop := ∀ index pts opening, .look index pts opening ∈ events → opening = true

variable {P : Settings} {s : State box} {idx k : ℕ} {matchPx : ℚ} {opening : Bool} {closed : Finset ℕ}
  {candidates : List (Candidate box)} {p : Detection box}

private theorem record_state (P : Settings) (events : List (Event box)) : (record P events).state = run P events := by
  have hstep (l : Ledger box) (e : Event box) : (l.step P e).state = l.state.step P e := by
    cases e with
    | miss indices => rfl
    | look index pts opening => cases pts <;> rfl
  have hfold (l : Ledger box) : (events.foldl (Ledger.step P) l).state = events.foldl (State.step P) l.state := by
    induction events generalizing l with
    | nil => rfl
    | cons e events ih => rw [List.foldl_cons, List.foldl_cons, ih, hstep]
  exact hfold {}

theorem findMatch_spec (h : findMatch candidates p matchPx closed = some k) :
    k < candidates.length ∧ k ∉ closed ∧ sameBulletHole (candidateAt candidates k).pos p matchPx = true := by
  obtain ⟨⟨c, j⟩, hfind, rfl⟩ := Option.map_eq_some_iff.mp h
  have hmem := List.mem_of_find?_eq_some hfind
  have htest := List.find?_some hfind
  obtain ⟨-, hlt, hc⟩ := List.mem_zipIdx hmem
  simp only [Bool.and_eq_true, decide_eq_true_eq] at htest
  have hlt : j < candidates.length := by simpa using hlt
  refine ⟨hlt, htest.1, ?_⟩
  simpa [candidateAt, List.getD_eq_getElem?_getD, hlt, hc] using htest.2

theorem findMatch_eq_none (h : findMatch candidates p matchPx closed = none) (hk : k < candidates.length) (hc : k ∉ closed) :
    sameBulletHole (candidateAt candidates k).pos p matchPx = false := by
  have hnone := List.find?_eq_none.mp (Option.map_eq_none_iff.mp h) (candidates[k], k)
    (List.mk_mem_zipIdx_iff_getElem?.mpr (List.getElem?_eq_getElem hk))
  simpa [hc, candidateAt, List.getD_eq_getElem?_getD, hk] using hnone

/-- A Detection folds into one Candidate that is not closed, opens one, or is dropped. -/
theorem foldOne_cases (idx : ℕ) (matchPx : ℚ) (opening : Bool) (closed : Finset ℕ) (candidates : List (Candidate box))
    (p : Detection box) :
    (∃ k < candidates.length, k ∉ closed ∧ sameBulletHole (candidateAt candidates k).pos p matchPx = true ∧
      foldOne idx matchPx opening closed candidates p = candidates.modify k (·.gather idx p)) ∨
    (∀ k < candidates.length, k ∉ closed → sameBulletHole (candidateAt candidates k).pos p matchPx = false) ∧
      foldOne idx matchPx opening closed candidates p = if opening then candidates ++ [⟨p, [idx], idx⟩] else candidates := by
  unfold foldOne
  cases h : findMatch candidates p matchPx closed with
  | some k =>
    obtain ⟨hk, hc, hsame⟩ := findMatch_spec h
    exact .inl ⟨k, hk, hc, hsame, rfl⟩
  | none => exact .inr ⟨fun k hk hc => findMatch_eq_none h hk hc, rfl⟩

/-- What is closed gathers nothing. -/
theorem candidateAt_foldOne (hk : k < candidates.length) (hc : k ∈ closed) :
    candidateAt (foldOne idx matchPx opening closed candidates p) k = candidateAt candidates k := by
  rcases foldOne_cases idx matchPx opening closed candidates p with ⟨j, -, hj, -, heq⟩ | ⟨-, heq⟩
  · rw [heq, candidateAt_modify _ _ _ hk, if_neg]
    rintro rfl
    exact hj hc
  · rw [heq]
    split
    · exact candidateAt_append_left hk
    · rfl

theorem candidateAt_fold (pts : List (Detection box)) (hk : k < candidates.length) (hc : k ∈ closed) :
    candidateAt (fold candidates idx pts matchPx opening closed) k = candidateAt candidates k := by
  induction pts generalizing candidates with
  | nil => rfl
  | cons p pts ih =>
    have hlen := (grown_foldOne idx matchPx opening closed candidates p).length_le
    exact (ih (hk.trans_le hlen)).trans (candidateAt_foldOne hk hc)

theorem perm_modify_concat {α : Type} {gathered : List (List α)} (hk : k < gathered.length) (p : α) :
    (gathered.modify k (· ++ [p])).flatten.Perm (gathered.flatten ++ [p]) := by
  induction gathered generalizing k with
  | nil => cases hk
  | cons g gathered ih =>
    cases k with
    | zero =>
      have hswap : ([p] ++ gathered.flatten).Perm (gathered.flatten ++ [p]) := List.perm_append_comm
      simpa using hswap.append_left g
    | succ k => simpa using (ih (Nat.lt_of_succ_lt_succ hk)).append_left g

/-- The Detections taken are those gathered, each by one Candidate, and every Candidate gathered the one it opened with. -/
structure Booked (candidates : List (Candidate box)) (gathered : List (List (Detection box)))
    (takenAll : List (Detection box)) : Prop extends Gathers candidates gathered where
  once : gathered.flatten.Perm takenAll
  opened : [] ∉ gathered

theorem booked_start : Booked ([] : List (Candidate box)) [] [] where
  toGathers := Announcer.gathers_nil
  once := .nil
  opened := List.not_mem_nil

variable {gathered : List (List (Detection box))} {takenAll : List (Detection box)}

theorem Booked.foldOne (h : Booked candidates gathered takenAll) (idx : ℕ) (matchPx : ℚ) (opening : Bool)
    (closed : Finset ℕ) (p : Detection box) : Booked (foldOne idx matchPx opening closed candidates p)
      (gatherOne matchPx opening closed candidates gathered p)
      (takenAll ++ takenOne matchPx opening closed candidates p) where
  toGathers := h.toGathers.foldOne idx matchPx opening closed p
  once := by
    unfold gatherOne takenOne
    cases hfind : findMatch candidates p matchPx closed with
    | some k =>
      have hk : k < gathered.length := h.length.symm ▸ (findMatch_spec hfind).1
      simpa using (perm_modify_concat hk p).trans (h.once.append_right [p])
    | none =>
      cases opening with
      | true => simpa using h.once.append_right [p]
      | false => simpa using h.once
  opened := by
    unfold gatherOne
    cases findMatch candidates p matchPx closed with
    | some k =>
      intro hm
      obtain ⟨j, hj, heq⟩ := List.mem_iff_getElem.mp hm
      rw [List.getElem_modify] at heq
      split at heq
      · simp at heq
      · exact h.opened (heq ▸ List.getElem_mem _)
    | none =>
      cases opening with
      | true => simpa using h.opened
      | false => simpa using h.opened

theorem Booked.fold (h : Booked candidates gathered takenAll) (idx : ℕ) (matchPx : ℚ) (opening : Bool)
    (closed : Finset ℕ) (pts : List (Detection box)) : Booked (fold candidates idx pts matchPx opening closed)
      (gather idx matchPx opening closed candidates gathered pts)
      (takenAll ++ taken idx matchPx opening closed candidates pts) := by
  induction pts generalizing candidates gathered takenAll with
  | nil => simpa [taken, Persistence.fold, gather] using h
  | cons p pts ih =>
    have hrest := ih (h.foldOne idx matchPx opening closed p)
    rwa [List.append_assoc] at hrest

theorem taken_sublist (idx : ℕ) (matchPx : ℚ) (opening : Bool) (closed : Finset ℕ) (candidates : List (Candidate box))
    (pts : List (Detection box)) : (taken idx matchPx opening closed candidates pts).Sublist pts := by
  induction pts generalizing candidates with
  | nil => exact .refl _
  | cons p pts ih =>
    rw [taken, takenOne]
    split
    · exact (ih _).cons_cons p
    · exact (ih _).cons p

private theorem taken_opening (idx : ℕ) (matchPx : ℚ) (closed : Finset ℕ) (candidates : List (Candidate box))
    (pts : List (Detection box)) : taken idx matchPx true closed candidates pts = pts := by
  induction pts generalizing candidates with
  | nil => rfl
  | cons p pts ih => simp [taken, takenOne, ih]

/-- The frames that saw a Candidate: from its first, before frame `p`. -/
structure Sighted (p : ℕ) (c : Candidate box) : Prop where
  first : c.firstIdx ∈ c.seenFrameIdxs
  le : ∀ i ∈ c.seenFrameIdxs, c.firstIdx ≤ i
  lt : ∀ i ∈ c.seenFrameIdxs, i < p

/-- After `p` frames each Candidate is open, persisted or closed, one of the three, and only a persisted one was seen
past its window. -/
structure Placed (P : Settings) (s : State box) (p : ℕ) : Prop where
  sighted : ∀ k < s.candidates.length, Sighted p (s.candidate k)
  firstIdx_mono : ∀ j k, j ≤ k → k < s.candidates.length → (s.candidate j).firstIdx ≤ (s.candidate k).firstIdx
  covered : ∀ id, id < s.candidates.length ↔ id ∈ s.openIds ∨ id ∈ s.persistedIds ∨ id ∈ s.closed
  openIds_sorted : s.openIds.Pairwise (· < ·)
  persistedIds_nodup : s.persistedIds.Nodup
  open_not_persisted : ∀ id ∈ s.openIds, id ∉ s.persistedIds
  not_closed : ∀ id, id ∈ s.openIds ∨ id ∈ s.persistedIds → id ∉ s.closed
  within : ∀ id, id ∈ s.openIds ∨ id ∈ s.closed → ∀ i ∈ (s.candidate id).seenFrameIdxs, i < s.windowEnd P id

theorem placed_start (P : Settings) : Placed P ({} : State box) 0 where
  sighted _ h := absurd h (Nat.not_lt_zero _)
  firstIdx_mono _ _ _ h := absurd h (Nat.not_lt_zero _)
  covered _ := by simp [State.persistedIds]
  openIds_sorted := .nil
  persistedIds_nodup := .nil
  open_not_persisted _ h := absurd h List.not_mem_nil
  not_closed _ _ := by simp
  within _ h := by simp at h

namespace Placed
variable {q : ℕ}

theorem closed_lt (h : Placed P s q) {id : ℕ} (hid : id ∈ s.closed) : id < s.candidates.length :=
  (h.covered id).mpr (.inr (.inr hid))

/-- Unjudged Candidates in first-frame order, which slicing the unseen frames at the first one's relies on. -/
theorem inFirstFrameOrder (h : Placed P s q) :
    s.openIds.Pairwise fun i j => (s.candidate i).firstIdx ≤ (s.candidate j).firstIdx :=
  h.openIds_sorted.imp_of_mem fun _ hj hij => h.firstIdx_mono _ _ hij.le ((h.covered _).mpr (.inl hj))

theorem filed (h : Placed P s q) : Filed s q where
  firstIdx_mono := h.firstIdx_mono
  firstIdx_lt k hk := (h.sighted k hk).lt _ (h.sighted k hk).first
  covered := h.covered
  openIds_sorted := h.openIds_sorted
  persistedIds_nodup := h.persistedIds_nodup
  open_not_persisted := h.open_not_persisted
  not_closed := h.not_closed

theorem judgeDue (h : Placed P s q) {processed : ℕ} (look : Option ℕ) (hq : q ≤ processed) :
    Placed P (s.judgeDue P processed look).1 processed := by
  have hfiled := h.filed.judgeDue (P := P) look hq
  exact {
    sighted := fun k hk =>
      ⟨(h.sighted k hk).first, (h.sighted k hk).le, fun i hi => ((h.sighted k hk).lt i hi).trans_le hq⟩
    firstIdx_mono := hfiled.firstIdx_mono
    covered := hfiled.covered
    openIds_sorted := hfiled.openIds_sorted
    persistedIds_nodup := hfiled.persistedIds_nodup
    open_not_persisted := hfiled.open_not_persisted
    not_closed := hfiled.not_closed
    within := by
      intro id hid
      rw [mem_judgeDue_openIds, mem_judgeDue_closed] at hid
      refine h.within id ?_
      rcases hid with ⟨ho, -, -⟩ | hc | ⟨ho, -, -⟩
      · exact .inl ho
      · exact .inr hc
      · exact .inl ho }

end Placed

/-- A Candidate opened by the Look's Detections was seen at its frame alone. -/
theorem seen_opened (idx : ℕ) (matchPx : ℚ) (opening : Bool) (closed : Finset ℕ) (candidates : List (Candidate box))
    (pts : List (Detection box)) (hk : candidates.length ≤ k)
    (hk' : k < (fold candidates idx pts matchPx opening closed).length) :
    ∃ m, (candidateAt (fold candidates idx pts matchPx opening closed) k).seenFrameIdxs = List.replicate (m + 1) idx := by
  induction pts generalizing candidates with
  | nil => exact absurd hk' (Nat.not_lt.mpr hk)
  | cons p pts ih =>
    rcases Nat.lt_or_ge k (foldOne idx matchPx opening closed candidates p).length with hone | hone
    · -- it is the one this Detection opened, and the others only add sightings
      obtain ⟨m, hm⟩ := (grown_fold (foldOne idx matchPx opening closed candidates p) idx pts matchPx opening
        closed).sightings_old k hone
      refine ⟨m, hm.trans ?_⟩
      rcases foldOne_cases idx matchPx opening closed candidates p with ⟨j, -, -, -, heq⟩ | ⟨-, heq⟩
      · rw [heq, List.length_modify] at hone
        exact absurd hone (Nat.not_lt.mpr hk)
      · cases opening with
        | false =>
          rw [heq, if_neg (by simp)] at hone
          exact absurd hone (Nat.not_lt.mpr hk)
        | true =>
          rw [heq, if_pos rfl] at hone ⊢
          obtain rfl : k = candidates.length := by simp at hone; omega
          simp [candidateAt, List.replicate_succ]
    · exact ih _ hone hk'

theorem Sighted.register {index q : ℕ} {c d : Candidate box} {m : ℕ} (h : Sighted q c) (hq : q ≤ index)
    (hfirst : d.firstIdx = c.firstIdx) (hseen : d.seenFrameIdxs = c.seenFrameIdxs ++ List.replicate m index) :
    Sighted (index + 1) d where
  first := by
    rw [hfirst, hseen]
    exact List.mem_append_left _ h.first
  le i hi := by
    rw [hseen, List.mem_append] at hi
    rw [hfirst]
    rcases hi with hi | hi
    · exact h.le i hi
    · rw [List.eq_of_mem_replicate hi]
      exact (h.lt _ h.first).le.trans hq
  lt i hi := by
    rw [hseen, List.mem_append] at hi
    rcases hi with hi | hi
    · exact (h.lt i hi).trans_le (hq.trans (Nat.le_succ _))
    · rw [List.eq_of_mem_replicate hi]
      exact Nat.lt_succ_self _

theorem Placed.register {q index : ℕ} (h : Placed P s q) (hq : q ≤ index) (hw : 0 < P.window)
    (hopen : ∀ id ∈ s.openIds, index < s.windowEnd P id) (pts : Option (List (Detection box))) (opening : Bool) :
    Placed P (s.register P index pts opening) (index + 1) := by
  have hgrown := grown_register P s index pts opening
  have hold (k : ℕ) (hk : k < s.candidates.length) : ((s.register P index pts opening).candidate k).firstIdx =
      (s.candidate k).firstIdx := hgrown.firstIdx_old k hk
  have hnew (k : ℕ) (hk : s.candidates.length ≤ k) (hk' : k < (s.register P index pts opening).candidates.length) :
      ((s.register P index pts opening).candidate k).firstIdx = index := hgrown.firstIdx_new k hk hk'
  have hseen (k : ℕ) (hk : s.candidates.length ≤ k) (hk' : k < (s.register P index pts opening).candidates.length) :
      ∃ m, ((s.register P index pts opening).candidate k).seenFrameIdxs = List.replicate (m + 1) index := by
    cases pts with
    | none => exact absurd hk' (Nat.not_lt.mpr hk)
    | some pts => exact seen_opened index P.matchPx opening s.closed s.candidates pts hk hk'
  have hids := mem_register_openIds P s index pts opening
  have hfiled := h.filed.register (P := P) pts opening hq
  exact {
    sighted := by
      intro k hk
      rcases Nat.lt_or_ge k s.candidates.length with hk' | hk'
      · obtain ⟨m, hm⟩ := hgrown.sightings_old k hk'
        exact (h.sighted k hk').register hq (hold k hk') hm
      · obtain ⟨m, hm⟩ := hseen k hk' hk
        have hall : ∀ i ∈ ((s.register P index pts opening).candidate k).seenFrameIdxs, i = index := by
          rw [hm]
          exact fun i => List.eq_of_mem_replicate
        refine ⟨?_, fun i hi => ?_, fun i hi => ?_⟩
        · rw [hnew k hk' hk, hm]
          exact List.mem_cons_self
        · rw [hnew k hk' hk, hall i hi]
        · rw [hall i hi]
          exact Nat.lt_succ_self _
    firstIdx_mono := hfiled.firstIdx_mono
    covered := hfiled.covered
    openIds_sorted := hfiled.openIds_sorted
    persistedIds_nodup := hfiled.persistedIds_nodup
    open_not_persisted := hfiled.open_not_persisted
    not_closed := hfiled.not_closed
    within := by
      intro id hid i hi
      rw [hids, register_closed] at hid
      rw [State.windowEnd]
      rcases hid with (ho | ⟨hk, hk'⟩) | hc
      · have hlt : id < s.candidates.length := (h.covered id).mpr (.inl ho)
        obtain ⟨m, hm⟩ := hgrown.sightings_old id hlt
        rw [hold id hlt]
        rw [show ((s.register P index pts opening).candidate id).seenFrameIdxs = _ from hm, List.mem_append] at hi
        rcases hi with hi | hi
        · exact h.within id (.inl ho) i hi
        · rw [List.eq_of_mem_replicate hi]
          exact hopen id ho
      · obtain ⟨m, hm⟩ := hseen id hk hk'
        rw [hm] at hi
        rw [hnew id hk hk', List.eq_of_mem_replicate hi]
        omega
      · have hsame : (s.register P index pts opening).candidate id = s.candidate id := by
          cases pts with
          | none => rfl
          | some pts => exact candidateAt_fold pts (h.closed_lt hc) hc
        rw [hsame] at hi ⊢
        exact h.within id (.inr hc) i hi }

/-- What no later call takes back: verdicts stay, and what is closed stays as it was. -/
structure Lasting (s s' : State box) : Prop where
  persisted : s.persisted <+: s'.persisted
  closed : s.closed ⊆ s'.closed
  untouched : ∀ id ∈ s.closed, s'.candidate id = s.candidate id

theorem Lasting.refl (s : State box) : Lasting s s := ⟨List.prefix_refl _, Finset.Subset.refl _, fun _ _ => rfl⟩

theorem Lasting.trans {s' s'' : State box} (h : Lasting s s') (h' : Lasting s' s'') : Lasting s s'' where
  persisted := h.persisted.trans h'.persisted
  closed := h.closed.trans h'.closed
  untouched id hid := (h'.untouched id (h.closed hid)).trans (h.untouched id hid)

theorem lasting_judgeDue (P : Settings) (s : State box) (processed : ℕ) (look : Option ℕ) :
    Lasting s (s.judgeDue P processed look).1 where
  persisted := List.prefix_append _ _
  closed := Finset.subset_union_left
  untouched _ _ := rfl

theorem Placed.lasting_register {q : ℕ} (h : Placed P s q) (index : ℕ) (pts : Option (List (Detection box))) (opening : Bool) :
    Lasting s (s.register P index pts opening) where
  persisted := (register_persisted P s index pts opening).symm ▸ List.prefix_refl _
  closed := (register_closed P s index pts opening).symm ▸ Finset.Subset.refl _
  untouched id hid := by
    cases pts with
    | none => rfl
    | some pts => exact candidateAt_fold pts (h.closed_lt hid) hid

/-- The state between the two judgements of `add`, its Look's Detections just folded. -/
def State.folded (P : Settings) (s : State box) (index : ℕ) (pts : Option (List (Detection box))) (opening : Bool) : State box :=
  (s.judgeDue P index (some index)).1.register P index pts opening

theorem Placed.folded {q index : ℕ} (h : Placed P s q) (hq : q ≤ index) (hw : 0 < P.window)
    (pts : Option (List (Detection box))) (opening : Bool) : Placed P (s.folded P index pts opening) (index + 1) :=
  (h.judgeDue (some index) hq).register (Nat.le_refl _) hw
    (fun _ hid => ((mem_judgeDue_openIds P s index (some index)).mp hid).2.2) pts opening

theorem Placed.add {q index : ℕ} (h : Placed P s q) (hq : q ≤ index) (hw : 0 < P.window)
    (pts : Option (List (Detection box))) (opening : Bool) :
    Placed P (s.add P index pts opening).1 (index + 1) ∧ Lasting s (s.add P index pts opening).1 := by
  refine ⟨(h.folded hq hw pts opening).judgeDue none (Nat.le_refl _), ?_⟩
  have hjudged := lasting_judgeDue P s index (some index)
  exact (hjudged.trans ((h.judgeDue (some index) hq).lasting_register index pts opening)).trans (lasting_judgeDue P _ _ none)

theorem Placed.run (hw : 0 < P.window) (events : List (Event box)) {q : ℕ} (h : Placed P s q) (horder : InOrder q events) :
    Placed P (events.foldl (State.step P) s) (passed q events) ∧ Lasting s (events.foldl (State.step P) s) := by
  induction events generalizing s q with
  | nil => exact ⟨h, .refl s⟩
  | cons e events ih =>
    cases e with
    | miss indices =>
      have hsame : Placed P (s.step P (.miss indices)) q :=
        ⟨h.sighted, h.firstIdx_mono, h.covered, h.openIds_sorted, h.persistedIds_nodup, h.open_not_persisted, h.not_closed, h.within⟩
      obtain ⟨hplaced, hlasting⟩ := ih hsame horder
      exact ⟨hplaced, hlasting.persisted, hlasting.closed, hlasting.untouched⟩
    | look index pts opening =>
      obtain ⟨hadded, hlasting⟩ := h.add horder.1 hw pts opening
      obtain ⟨hplaced, hrest⟩ := ih hadded horder.2
      exact ⟨hplaced, hlasting.trans hrest⟩

theorem Booked.step {l : Ledger box} (h : Booked l.state.candidates l.gathered l.takenAll) (e : Event box) :
    Booked (l.step P e).state.candidates (l.step P e).gathered (l.step P e).takenAll := by
  cases e with
  | miss indices => exact h
  | look index pts opening =>
    cases pts with
    | none => exact h
    | some pts => exact h.fold index P.matchPx opening (l.state.judgeDue P index (some index)).1.closed pts

theorem Booked.run (events : List (Event box)) {l : Ledger box} (h : Booked l.state.candidates l.gathered l.takenAll) :
    Booked (events.foldl (Ledger.step P) l).state.candidates (events.foldl (Ledger.step P) l).gathered
      (events.foldl (Ledger.step P) l).takenAll := by
  induction events generalizing l with
  | nil => exact h
  | cons e events ih => exact ih (h.step e)

/-- The Detections taken are of the run's Looks, all of them where every Look may open Candidates. -/
theorem takenAll_run (events : List (Event box)) (l : Ledger box) : ∃ some,
    (events.foldl (Ledger.step P) l).takenAll = l.takenAll ++ some ∧ some.Sublist (detections events) ∧
      (AllOpening events → some = detections events) := by
  induction events generalizing l with
  | nil => exact ⟨[], by simp, .refl _, fun _ => rfl⟩
  | cons e events ih =>
    obtain ⟨rest, heq, hsub, hall⟩ := ih (l.step P e)
    have hopening (h : AllOpening (e :: events)) : AllOpening events :=
      fun index pts opening hm => h index pts opening (List.mem_cons_of_mem _ hm)
    cases e with
    | miss indices => exact ⟨rest, heq, hsub, fun h => hall (hopening h)⟩
    | look index pts opening =>
      cases pts with
      | none => exact ⟨rest, heq, hsub, fun h => hall (hopening h)⟩
      | some pts =>
        refine ⟨taken index P.matchPx opening (l.state.judgeDue P index (some index)).1.closed l.state.candidates pts ++ rest,
          ?_, (taken_sublist ..).append hsub, fun h => ?_⟩
        · rw [List.foldl_cons, heq]
          exact List.append_assoc ..
        · obtain rfl := h index (some pts) opening List.mem_cons_self
          rw [taken_opening, hall (hopening h)]
          rfl

theorem InOrder.of_append {events rest : List (Event box)} {next : ℕ} (h : InOrder next (events ++ rest)) :
    InOrder next events ∧ InOrder (passed next events) rest := by
  induction events generalizing next with
  | nil => exact ⟨trivial, h⟩
  | cons e events ih =>
    cases e with
    | miss indices => exact ih h
    | look index pts opening => exact ⟨⟨h.1, (ih h.2).1⟩, (ih h.2).2⟩

/-- Open, persisted or closed: one of the three. -/
def State.OneOf (s : State box) (id : ℕ) : Prop :=
  (id ∈ s.openIds ∧ id ∉ s.persistedIds ∧ id ∉ s.closed) ∨ (id ∉ s.openIds ∧ id ∈ s.persistedIds ∧ id ∉ s.closed) ∨
    (id ∉ s.openIds ∧ id ∉ s.persistedIds ∧ id ∈ s.closed)

theorem Placed.oneOf {q id : ℕ} (h : Placed P s q) (hid : id < s.candidates.length) : s.OneOf id := by
  have hopen := h.open_not_persisted id
  have hclosed := h.not_closed id
  rcases (h.covered id).mp hid with ho | hp | hc
  · exact .inl ⟨ho, hopen ho, hclosed (.inl ho)⟩
  · exact .inr (.inl ⟨fun ho => hopen ho hp, hp, hclosed (.inr hp)⟩)
  · exact .inr (.inr ⟨fun ho => hclosed (.inl ho) hc, fun hp => hclosed (.inr hp) hc, hc⟩)

/-- Seen once and gone, until after its window. -/
def goneAway : List (Event 0) :=
  [.look 0 (some [![3, 4]]) true, .look 2 (some []) true, .look 4 (some []) true, .miss [6], .look 8 (some []) true]

end Kanat.Persistence
