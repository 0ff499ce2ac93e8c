import Kanat.PersistenceVerdicts

/-! # Runs of a Persistence

The invariant of every run whose Looks are due frames in order, with unseen due
frames reported in between, and that `end` never meets the assertion it makes. -/
namespace Kanat.Persistence
open SortedIndices

variable {box : ℕ}

/-- What reaches a Persistence: a Look, or due frames the stream found unseen. -/
inductive Event (box : ℕ) where
  | look (index : ℕ) (pts : Option (List (Detection box))) (opening : Bool)
  | miss (indices : List ℕ)

def State.step (P : Settings) (s : State box) : Event box → State box
  | .look index pts opening => (s.add P index pts opening).1
  | .miss indices => { s with unseen := s.unseen ++ indices }

def run (P : Settings) (events : List (Event box)) : State box := events.foldl (State.step P) {}

/-- Due Looks in increasing order from `next` on; unseen frames due, increasing,
past every Look so far and never a Look later. -/
def Scheduled (P : Settings) : ℕ → List ℕ → List (Event box) → Prop
  | _, _, [] => True
  | next, unseen, .look index _ _ :: events =>
      next ≤ index ∧ P.due index = true ∧ index ∉ unseen ∧ Scheduled P (index + 1) unseen events
  | next, unseen, .miss indices :: events =>
      (∀ i ∈ indices, next ≤ i ∧ P.due i = true) ∧ (unseen ++ indices).Pairwise (· < ·) ∧
        Scheduled P next (unseen ++ indices) events

def State.persistedIds (s : State box) : List ℕ := s.persisted.map Prod.snd

/-- The state after `p` frames: each Candidate open, persisted or closed, and what
persisted secure. -/
structure Inv (P : Settings) (s : State box) (p : ℕ) : Prop extends History P s p where
  firstIdx_mono : ∀ j k, j ≤ k → k < s.candidates.length →
    (s.candidate j).firstIdx ≤ (s.candidate k).firstIdx
  firstIdx_lt : ∀ k < s.candidates.length, (s.candidate k).firstIdx < p
  covered : ∀ id, id < s.candidates.length ↔
    id ∈ s.openIds ∨ id ∈ s.persistedIds ∨ id ∈ s.closed
  openIds_sorted : s.openIds.Pairwise (· < ·)
  persistedIds_nodup : s.persistedIds.Nodup
  open_not_persisted : ∀ id ∈ s.openIds, id ∉ s.persistedIds
  not_closed : ∀ id, id ∈ s.openIds ∨ id ∈ s.persistedIds → id ∉ s.closed
  persisted_first : ∀ x ∈ s.persisted, x.1.firstFrame = (s.candidate x.2).firstIdx
  secure : ∀ id ∈ s.persistedIds, Secure P s p id

/-- After `p` frames each Candidate is open, persisted or closed, one of the three, and they are in first-frame order. -/
structure Filed (s : State box) (p : ℕ) : Prop where
  firstIdx_mono : ∀ j k, j ≤ k → k < s.candidates.length →
    (s.candidate j).firstIdx ≤ (s.candidate k).firstIdx
  firstIdx_lt : ∀ k < s.candidates.length, (s.candidate k).firstIdx < p
  covered : ∀ id, id < s.candidates.length ↔
    id ∈ s.openIds ∨ id ∈ s.persistedIds ∨ id ∈ s.closed
  openIds_sorted : s.openIds.Pairwise (· < ·)
  persistedIds_nodup : s.persistedIds.Nodup
  open_not_persisted : ∀ id ∈ s.openIds, id ∉ s.persistedIds
  not_closed : ∀ id, id ∈ s.openIds ∨ id ∈ s.persistedIds → id ∉ s.closed

namespace Inv
variable {P : Settings} {s : State box} {p : ℕ}

theorem filed (h : Inv P s p) : Filed s p where
  firstIdx_mono := h.firstIdx_mono
  firstIdx_lt := h.firstIdx_lt
  covered := h.covered
  openIds_sorted := h.openIds_sorted
  persistedIds_nodup := h.persistedIds_nodup
  open_not_persisted := h.open_not_persisted
  not_closed := h.not_closed

theorem open_lt (h : Inv P s p) {id : ℕ} (hid : id ∈ s.openIds) : id < s.candidates.length :=
  (h.covered id).mpr (Or.inl hid)

theorem persisted_lt (h : Inv P s p) {id : ℕ} (hid : id ∈ s.persistedIds) :
    id < s.candidates.length := (h.covered id).mpr (Or.inr (Or.inl hid))

/-- The first open window is the earliest, which the slice of `unseen` rests on. -/
theorem head_le (h : Inv P s p) {id : ℕ} (hid : id ∈ s.openIds) (j : ℕ)
    (hj : s.openIds.head? = some j) : (s.candidate j).firstIdx ≤ (s.candidate id).firstIdx := by
  apply h.firstIdx_mono j id _ (h.open_lt hid)
  cases ho : s.openIds with
  | nil => simp [ho] at hid
  | cons k ids =>
    obtain rfl : k = j := by simpa [ho] using hj
    rw [ho] at hid
    rcases List.mem_cons.mp hid with rfl | hid
    · exact Nat.le_refl _
    · exact ((List.pairwise_cons.mp (ho ▸ h.openIds_sorted)).1 id hid).le

theorem verdict_eq (h : Inv P s p) {q id : ℕ} (hq : p ≤ q) (hid : id ∈ s.openIds) :
    s.verdict P q id = if Secure P s q id then
      some (report P.window (countBetween s.lookedAt (s.candidate id).firstIdx
        ((s.candidate id).firstIdx + P.window)) (s.candidate id)) else none :=
  Persistence.verdict_eq h.toHistory (fun j hj => h.head_le hid j hj)
    ((h.firstIdx_lt id (h.open_lt hid)).le.trans hq)

theorem verdict_isSome (h : Inv P s p) {q id : ℕ} (hq : p ≤ q) (hid : id ∈ s.openIds) :
    (s.verdict P q id).isSome = true ↔ Secure P s q id := by
  rw [h.verdict_eq hq hid]
  split_ifs with hs <;> simp [hs]

end Inv

theorem Secure.later {P : Settings} {s : State box} {p q id : ℕ} (h : History P s p)
    (hs : Secure P s p id) (hpq : p ≤ q) : Secure P s q id := by
  have hanti := stillDue_anti (P := P) h.unseen_sorted h.unseen_due hpq
    ((s.candidate id).firstIdx + P.window)
  have hroom := stillDue_nonneg (P := P) h.unseen_sorted h.unseen_due q
    ((s.candidate id).firstIdx + P.window)
  refine Persists.mono P.persist_pos hs (Nat.le_refl _) (Nat.le_refl _) ?_ ?_ hroom <;> omega

section Judging
variable (P : Settings) (s : State box) (q : ℕ) (look : Option ℕ)

@[simp] theorem judgeDue_lookedAt : (s.judgeDue P q look).1.lookedAt = s.lookedAt := rfl
@[simp] theorem judgeDue_lost : (s.judgeDue P q look).1.lost = s.lost := rfl
@[simp] theorem judgeDue_unseen : (s.judgeDue P q look).1.unseen = s.unseen := rfl
@[simp] theorem judgeDue_candidates : (s.judgeDue P q look).1.candidates = s.candidates := rfl
@[simp] theorem judgeDue_candidate (id : ℕ) :
    (s.judgeDue P q look).1.candidate id = s.candidate id := rfl

theorem judgeDue_persistedIds : (s.judgeDue P q look).1.persistedIds =
    s.persistedIds ++ s.openIds.filter fun id => (s.verdict P q id).isSome := by
  simp only [State.persistedIds, State.judgeDue, List.map_append, List.append_cancel_left_eq]
  induction s.openIds with
  | nil => rfl
  | cons id ids ih => cases hv : s.verdict P q id <;> simp [hv, ih]

theorem mem_judgeDue_persisted {x : Hole box × ℕ} (hx : x ∈ (s.judgeDue P q look).1.persisted) :
    x ∈ s.persisted ∨ x.2 ∈ s.openIds ∧ ∃ hole, s.verdict P q x.2 = some hole ∧
      x.1.firstFrame = hole.firstFrame := by
  rcases List.mem_append.mp hx with hx | hx
  · exact Or.inl hx
  · obtain ⟨id, hid, hv⟩ := List.mem_filterMap.mp hx
    obtain ⟨hole, hole_eq, rfl⟩ := Option.map_eq_some_iff.mp hv
    exact Or.inr ⟨hid, hole, hole_eq, rfl⟩

theorem mem_judgeDue_openIds {id : ℕ} : id ∈ (s.judgeDue P q look).1.openIds ↔
    id ∈ s.openIds ∧ s.verdict P q id = none ∧ q < s.windowEnd P id := by
  simp [State.judgeDue, Option.isNone_iff_eq_none]

theorem mem_judgeDue_closed {id : ℕ} : id ∈ (s.judgeDue P q look).1.closed ↔
    id ∈ s.closed ∨ id ∈ s.openIds ∧ s.verdict P q id = none ∧ s.windowEnd P id ≤ q := by
  simp [State.judgeDue, Option.isNone_iff_eq_none]

theorem mem_judgeDue_persistedIds {id : ℕ} : id ∈ (s.judgeDue P q look).1.persistedIds ↔
    id ∈ s.persistedIds ∨ id ∈ s.openIds ∧ (s.verdict P q id).isSome = true := by
  simp [judgeDue_persistedIds]

end Judging

theorem Filed.judgeDue {P : Settings} {s : State box} {p q : ℕ} (look : Option ℕ) (h : Filed s p)
    (hpq : p ≤ q) : Filed (s.judgeDue P q look).1 q where
  firstIdx_mono := h.firstIdx_mono
  firstIdx_lt k hk := (h.firstIdx_lt k hk).trans_le hpq
  covered id := by
    rw [judgeDue_candidates, h.covered, mem_judgeDue_openIds, mem_judgeDue_closed,
      mem_judgeDue_persistedIds]
    cases s.verdict P q id with
    | none => have := Nat.lt_or_ge q (s.windowEnd P id); grind
    | some hole => grind
  openIds_sorted := h.openIds_sorted.filter _
  persistedIds_nodup := by
    rw [judgeDue_persistedIds]
    refine List.nodup_append.mpr ⟨h.persistedIds_nodup, ?_, ?_⟩
    · exact (h.openIds_sorted.imp fun h => Nat.ne_of_lt h).filter _
    · rintro a ha b hb rfl
      exact h.open_not_persisted a (List.mem_filter.mp hb).1 ha
  open_not_persisted id hid := by
    obtain ⟨hid, hv, _⟩ := (mem_judgeDue_openIds P s q look).mp hid
    rw [mem_judgeDue_persistedIds, hv]
    have := h.open_not_persisted id hid
    simp [this]
  not_closed id hid := by
    rw [mem_judgeDue_openIds, mem_judgeDue_persistedIds] at hid
    rw [mem_judgeDue_closed]
    have hn := h.not_closed id
    have hd := h.open_not_persisted id
    rintro (hc | ⟨ho, hv, hw⟩)
    · rcases hid with hid | hid | hid
      · exact hn (Or.inl hid.1) hc
      · exact hn (Or.inr hid) hc
      · exact hn (Or.inl hid.1) hc
    · rcases hid with hid | hid | hid
      · omega
      · exact hd ho hid
      · simp [hv] at hid

theorem inv_judgeDue {P : Settings} {s : State box} {p q : ℕ} (look : Option ℕ)
    (h : Inv P s p) (hpq : p ≤ q) : Inv P (s.judgeDue P q look).1 q := by
  have hfiled := h.filed.judgeDue (P := P) look hpq
  exact {
    lookedAt_sorted := h.lookedAt_sorted
    lost_sorted := h.lost_sorted
    unseen_sorted := h.unseen_sorted
    lookedAt_lt := fun i hi => (h.lookedAt_lt i hi).trans_le hpq
    lost_lt := fun i hi => (h.lost_lt i hi).trans_le hpq
    unseen_due := h.unseen_due
    firstIdx_mono := hfiled.firstIdx_mono
    firstIdx_lt := hfiled.firstIdx_lt
    covered := hfiled.covered
    openIds_sorted := hfiled.openIds_sorted
    persistedIds_nodup := hfiled.persistedIds_nodup
    open_not_persisted := hfiled.open_not_persisted
    not_closed := hfiled.not_closed
    persisted_first := by
      intro x hx
      rcases mem_judgeDue_persisted P s q look hx with hx | ⟨hid, hole, hv, hf⟩
      · exact h.persisted_first x hx
      · rw [h.verdict_eq hpq hid] at hv
        split_ifs at hv
        rw [hf, ← Option.some.inj hv]
        rfl
    secure := by
      intro id hid
      rcases (mem_judgeDue_persistedIds P s q look).mp hid with hid | ⟨ho, hv⟩
      · exact Secure.later (s := s) h.toHistory (h.secure id hid) hpq
      · exact (h.verdict_isSome hpq ho).mp hv }

section Registering
variable (P : Settings) (s : State box) (index : ℕ) (pts : Option (List (Detection box)))
  (opening : Bool)

theorem grown_register : Grown index s.candidates (s.register P index pts opening).candidates := by
  cases pts with
  | none => exact Grown.refl index s.candidates
  | some pts => exact grown_fold s.candidates index pts P.matchPx opening s.closed

@[simp] theorem register_unseen : (s.register P index pts opening).unseen = s.unseen := by
  cases pts <;> rfl

@[simp] theorem register_persisted : (s.register P index pts opening).persisted = s.persisted := by
  cases pts <;> rfl

@[simp] theorem register_persistedIds :
    (s.register P index pts opening).persistedIds = s.persistedIds := by
  cases pts <;> rfl

@[simp] theorem register_closed : (s.register P index pts opening).closed = s.closed := by
  cases pts <;> rfl

theorem register_openIds : (s.register P index pts opening).openIds = s.openIds ++
    List.range' s.candidates.length
      ((s.register P index pts opening).candidates.length - s.candidates.length) := by
  cases pts <;> simp [State.register]

/-- The Look is registered or Lost, one of the two. -/
theorem register_looks : ∃ looked lost : List ℕ,
    (looked = [index] ∧ lost = [] ∨ looked = [] ∧ lost = [index]) ∧
    (s.register P index pts opening).lookedAt = s.lookedAt ++ looked ∧
    (s.register P index pts opening).lost = s.lost ++ lost := by
  cases pts with
  | none => exact ⟨[], [index], Or.inr ⟨rfl, rfl⟩, by simp [State.register], rfl⟩
  | some pts => exact ⟨[index], [], Or.inl ⟨rfl, rfl⟩, rfl, by simp [State.register]⟩

end Registering

private theorem sorted_concat {xs ys : List ℕ} {i : ℕ} (hs : xs.Pairwise (· < ·))
    (hlt : ∀ j ∈ xs, j < i) (hy : ys = [i] ∨ ys = []) : (xs ++ ys).Pairwise (· < ·) := by
  refine List.pairwise_append.mpr ⟨hs, ?_, ?_⟩
  · rcases hy with rfl | rfl <;> simp
  · intro j hj k hk
    rcases hy with rfl | rfl
    · rw [List.mem_singleton.mp hk]
      exact hlt j hj
    · simp at hk

private theorem lt_concat {xs ys : List ℕ} {i : ℕ} (hlt : ∀ j ∈ xs, j < i)
    (hy : ys = [i] ∨ ys = []) : ∀ j ∈ xs ++ ys, j < i + 1 := by
  intro j hj
  rcases List.mem_append.mp hj with hj | hj
  · exact (hlt j hj).trans (Nat.lt_succ_self i)
  · rcases hy with rfl | rfl
    · rw [List.mem_singleton.mp hj]
      exact Nat.lt_succ_self i
    · simp at hj

private theorem history_register {P : Settings} {s : State box} {index : ℕ}
    (pts : Option (List (Detection box))) (opening : Bool) (h : History P s index) :
    History P (s.register P index pts opening) (index + 1) := by
  obtain ⟨looked, lost, hone, hl, ht⟩ := register_looks P s index pts opening
  have hlooked : looked = [index] ∨ looked = [] := by grind
  have hlost : lost = [index] ∨ lost = [] := by grind
  constructor
  · exact hl ▸ sorted_concat h.lookedAt_sorted h.lookedAt_lt hlooked
  · exact ht ▸ sorted_concat h.lost_sorted h.lost_lt hlost
  · exact (register_unseen P s index pts opening).symm ▸ h.unseen_sorted
  · exact hl ▸ lt_concat h.lookedAt_lt hlooked
  · exact ht ▸ lt_concat h.lost_lt hlost
  · exact (register_unseen P s index pts opening).symm ▸ h.unseen_due

/-- A Look moves one due frame of the window from those to come to those tried. -/
theorem secure_register {P : Settings} {s : State box} {index id : ℕ}
    (pts : Option (List (Detection box))) (opening : Bool) (h : History P s index)
    (hdue : P.due index = true) (hnot : index ∉ s.unseen) (hid : id < s.candidates.length)
    (hf : (s.candidate id).firstIdx < index) (hs : Secure P s index id) :
    Secure P (s.register P index pts opening) (index + 1) id := by
  have hgrown := grown_register P s index pts opening
  have hfirst : ((s.register P index pts opening).candidate id).firstIdx =
      (s.candidate id).firstIdx := hgrown.firstIdx_old id hid
  obtain ⟨looked, lost, hone, hl, ht⟩ := register_looks P s index pts opening
  have hhits := hits_le_of_grown hgrown P.window hid
  have hroom := stillDue_nonneg (P := P) h.unseen_sorted h.unseen_due (index + 1)
    ((s.candidate id).firstIdx + P.window)
  have hmoved : (countBetween looked (s.candidate id).firstIdx
      ((s.candidate id).firstIdx + P.window) : ℤ) + countBetween lost (s.candidate id).firstIdx
      ((s.candidate id).firstIdx + P.window) +
      stillDue P s.unseen (index + 1) ((s.candidate id).firstIdx + P.window) ≤
      stillDue P s.unseen index ((s.candidate id).firstIdx + P.window) := by
    have hcount : (countBetween looked (s.candidate id).firstIdx
        ((s.candidate id).firstIdx + P.window) : ℤ) + countBetween lost (s.candidate id).firstIdx
        ((s.candidate id).firstIdx + P.window) =
        if index < (s.candidate id).firstIdx + P.window then 1 else 0 := by
      rcases hone with ⟨rfl, rfl⟩ | ⟨rfl, rfl⟩ <;>
        simp [countBetween_singleton, hf.le]
    rw [hcount]
    split_ifs with he
    · rw [stillDue_succ hdue hnot he]
    · have := stillDue_anti (P := P) h.unseen_sorted h.unseen_due (Nat.le_add_right index 1)
        ((s.candidate id).firstIdx + P.window)
      omega
  unfold Secure State.tried
  dsimp only
  rw [hfirst, hl, ht, register_unseen]
  simp only [countBetween_append]
  refine Persists.mono P.persist_pos hs (by omega) hhits ?_ ?_ hroom
  · simp only [State.tried]
    push_cast
    omega
  · push_cast
    omega

theorem mem_register_openIds (P : Settings) (s : State box) (index : ℕ)
    (pts : Option (List (Detection box))) (opening : Bool) (id : ℕ) :
    id ∈ (s.register P index pts opening).openIds ↔ id ∈ s.openIds ∨
      s.candidates.length ≤ id ∧ id < (s.register P index pts opening).candidates.length := by
  have hlen := (grown_register P s index pts opening).length_le
  rw [register_openIds, List.mem_append, List.mem_range'_1]
  exact or_congr_right (by omega)

theorem Filed.register {P : Settings} {s : State box} {q index : ℕ}
    (pts : Option (List (Detection box))) (opening : Bool) (h : Filed s q) (hq : q ≤ index) :
    Filed (s.register P index pts opening) (index + 1) := by
  have hgrown := grown_register P s index pts opening
  have hlen := hgrown.length_le
  have hopen := mem_register_openIds P s index pts opening
  have hold (k : ℕ) (hk : k < s.candidates.length) :
      ((s.register P index pts opening).candidate k).firstIdx = (s.candidate k).firstIdx :=
    hgrown.firstIdx_old k hk
  have hnew (k : ℕ) (hk : s.candidates.length ≤ k)
      (hk' : k < (s.register P index pts opening).candidates.length) :
      ((s.register P index pts opening).candidate k).firstIdx = index :=
    hgrown.firstIdx_new k hk hk'
  exact {
    firstIdx_mono := by
      intro j k hjk hk
      rcases Nat.lt_or_ge k s.candidates.length with hk' | hk'
      · rw [hold k hk', hold j (by omega)]
        exact h.firstIdx_mono j k hjk hk'
      · rw [hnew k hk' hk]
        rcases Nat.lt_or_ge j s.candidates.length with hj | hj
        · rw [hold j hj]
          exact (h.firstIdx_lt j hj).le.trans hq
        · exact (hnew j hj (by omega)).le
    firstIdx_lt := by
      intro k hk
      rcases Nat.lt_or_ge k s.candidates.length with hk' | hk'
      · have := h.firstIdx_lt k hk'
        rw [hold k hk']
        omega
      · rw [hnew k hk' hk]
        omega
    covered := by
      intro id
      have := h.covered id
      rw [hopen, register_persistedIds, register_closed]
      grind
    openIds_sorted := by
      rw [register_openIds]
      refine List.pairwise_append.mpr ⟨h.openIds_sorted, List.pairwise_lt_range', ?_⟩
      intro j hj k hk
      have := (h.covered j).mpr (Or.inl hj)
      have := (List.mem_range'_1.mp hk).1
      omega
    persistedIds_nodup := (register_persistedIds P s index pts opening).symm ▸ h.persistedIds_nodup
    open_not_persisted := by
      intro id hid
      rw [register_persistedIds]
      rcases (hopen id).mp hid with hid | hid
      · exact h.open_not_persisted id hid
      · intro hp
        have := (h.covered id).mpr (Or.inr (Or.inl hp))
        omega
    not_closed := by
      intro id hid
      have hc := h.covered id
      have hn := h.not_closed id
      rw [hopen, register_persistedIds] at hid
      rw [register_closed]
      grind }

theorem inv_register {P : Settings} {s : State box} {index : ℕ}
    (pts : Option (List (Detection box))) (opening : Bool) (h : Inv P s index)
    (hdue : P.due index = true) (hnot : index ∉ s.unseen) :
    Inv P (s.register P index pts opening) (index + 1) := by
  have hgrown := grown_register P s index pts opening
  have hfiled := h.filed.register (P := P) pts opening (Nat.le_refl index)
  exact {
    toHistory := history_register pts opening h.toHistory
    firstIdx_mono := hfiled.firstIdx_mono
    firstIdx_lt := hfiled.firstIdx_lt
    covered := hfiled.covered
    openIds_sorted := hfiled.openIds_sorted
    persistedIds_nodup := hfiled.persistedIds_nodup
    open_not_persisted := hfiled.open_not_persisted
    not_closed := hfiled.not_closed
    persisted_first := by
      intro x hx
      rw [register_persisted] at hx
      have hold := hgrown.firstIdx_old x.2 (h.persisted_lt (List.mem_map_of_mem hx))
      exact (h.persisted_first x hx).trans hold.symm
    secure := by
      intro id hid
      rw [register_persistedIds] at hid
      exact secure_register pts opening h.toHistory hdue hnot (h.persisted_lt hid)
        (h.firstIdx_lt id (h.persisted_lt hid)) (h.secure id hid) }

/-- Frames found unseen move from those to come to those tried. -/
theorem inv_miss {P : Settings} {s : State box} {p : ℕ} {indices : List ℕ} (h : Inv P s p)
    (hnew : ∀ i ∈ indices, p ≤ i ∧ P.due i = true)
    (hs : (s.unseen ++ indices).Pairwise (· < ·)) :
    Inv P { s with unseen := s.unseen ++ indices } p where
  lookedAt_sorted := h.lookedAt_sorted
  lost_sorted := h.lost_sorted
  unseen_sorted := hs
  lookedAt_lt := h.lookedAt_lt
  lost_lt := h.lost_lt
  unseen_due i hi := (List.mem_append.mp hi).elim (h.unseen_due i) fun hi => (hnew i hi).2
  firstIdx_mono := h.firstIdx_mono
  firstIdx_lt := h.firstIdx_lt
  covered := h.covered
  openIds_sorted := h.openIds_sorted
  persistedIds_nodup := h.persistedIds_nodup
  open_not_persisted := h.open_not_persisted
  not_closed := h.not_closed
  persisted_first := h.persisted_first
  secure := by
    intro id hid
    have hle : countBetween indices (s.candidate id).firstIdx
        ((s.candidate id).firstIdx + P.window) ≤
        countBetween indices p ((s.candidate id).firstIdx + P.window) := by
      refine List.countP_mono_left fun i hi hb => ?_
      have := hnew i hi
      simp only [decide_eq_true_eq] at hb ⊢
      omega
    have hroom := stillDue_nonneg (P := P) hs
      (fun i hi => (List.mem_append.mp hi).elim (h.unseen_due i) fun hi => (hnew i hi).2) p
      ((s.candidate id).firstIdx + P.window)
    refine Persists.mono P.persist_pos (h.secure id hid) (Nat.le_refl _) (Nat.le_refl _) ?_ ?_ hroom
    · simp only [State.tried, stillDue, State.candidate, countBetween_append] at hle ⊢
      push_cast
      omega
    · simp only [stillDue, State.candidate, countBetween_append] at hle ⊢
      push_cast
      omega

theorem inv_initial (P : Settings) : Inv P ({} : State box) 0 where
  lookedAt_sorted := .nil
  lost_sorted := .nil
  unseen_sorted := .nil
  lookedAt_lt _ h := absurd h List.not_mem_nil
  lost_lt _ h := absurd h List.not_mem_nil
  unseen_due _ h := absurd h List.not_mem_nil
  firstIdx_mono _ _ _ h := absurd h (Nat.not_lt_zero _)
  firstIdx_lt _ h := absurd h (Nat.not_lt_zero _)
  covered _ := by simp [State.persistedIds]
  openIds_sorted := .nil
  persistedIds_nodup := .nil
  open_not_persisted _ h := absurd h List.not_mem_nil
  not_closed _ _ := by simp
  persisted_first _ h := absurd h List.not_mem_nil
  secure _ h := absurd h (by simp [State.persistedIds])

theorem inv_add {P : Settings} {s : State box} {p index : ℕ}
    (pts : Option (List (Detection box))) (opening : Bool) (h : Inv P s p) (hp : p ≤ index)
    (hdue : P.due index = true) (hnot : index ∉ s.unseen) :
    Inv P (s.add P index pts opening).1 (index + 1) :=
  inv_judgeDue none (inv_register pts opening (inv_judgeDue (some index) h hp) hdue hnot)
    (Nat.le_refl _)

/-- The frames passed at the last Look, `p` before the first. -/
def passed (p : ℕ) : List (Event box) → ℕ
  | [] => p
  | .look index _ _ :: events => passed (index + 1) events
  | .miss _ :: events => passed p events

theorem passed_mono {p q : ℕ} (h : p ≤ q) (events : List (Event box)) : passed p events ≤ passed q events := by
  induction events generalizing p q with
  | nil => exact h
  | cons e events ih =>
    cases e with
    | look index pts opening => exact le_refl _
    | miss indices => exact ih h

/-- Every scheduled run keeps the invariant. -/
theorem inv_foldl {P : Settings} (events : List (Event box)) {s : State box} {p : ℕ}
    (h : Inv P s p) (hs : Scheduled P p s.unseen events) :
    Inv P (events.foldl (State.step P) s) (passed p events) := by
  induction events generalizing s p with
  | nil => exact h
  | cons e events ih =>
    cases e with
    | look index pts opening =>
      obtain ⟨hp, hdue, hnot, hs⟩ := hs
      have hu : (s.add P index pts opening).1.unseen = s.unseen := by simp [State.add]
      exact ih (inv_add pts opening h hp hdue hnot) (hu.symm ▸ hs)
    | miss indices =>
      obtain ⟨hnew, hsorted, hs⟩ := hs
      exact ih (inv_miss h hnew hsorted) hs

theorem inv_run {P : Settings} {events : List (Event box)} (h : Scheduled P 0 [] events) :
    Inv P (run P events) (passed 0 events) := inv_foldl events (inv_initial P) h

theorem Scheduled.of_append {P : Settings} {events rest : List (Event box)} {p : ℕ} {unseen : List ℕ}
    (h : Scheduled P p unseen (events ++ rest)) : Scheduled P p unseen events := by
  induction events generalizing p unseen with
  | nil => exact trivial
  | cons e events ih =>
    cases e with
    | look index pts opening =>
      obtain ⟨hp, hdue, hnot, hs⟩ := h
      exact ⟨hp, hdue, hnot, ih hs⟩
    | miss indices =>
      obtain ⟨hnew, hsorted, hs⟩ := h
      exact ⟨hnew, hsorted, ih hs⟩

/-- A Candidate open after a Look is one its judgement could not decide. -/
theorem open_undecided {P : Settings} (events : List (Event box)) {s : State box} {p index : ℕ}
    {pts : Option (List (Detection box))} {opening : Bool} (h : Inv P s p)
    (hs : Scheduled P p s.unseen (events ++ [Event.look index pts opening])) :
    ∀ id ∈ ((events ++ [Event.look index pts opening]).foldl (State.step P) s).openIds,
      ¬ Secure P ((events ++ [Event.look index pts opening]).foldl (State.step P) s) (index + 1) id := by
  induction events generalizing s p with
  | nil =>
    obtain ⟨hp, hdue, hnot, -⟩ := hs
    intro id hid hsecure
    have hfolded := inv_register pts opening (inv_judgeDue (some index) h hp) hdue hnot
    obtain ⟨ho, hv, -⟩ := (mem_judgeDue_openIds P _ (index + 1) none).mp hid
    have hsome := (hfolded.verdict_isSome (Nat.le_refl _) ho).mpr hsecure
    rw [hv] at hsome
    cases hsome
  | cons e events ih =>
    cases e with
    | look index' pts' opening' =>
      obtain ⟨hp, hdue, hnot, hs⟩ := hs
      have hu : (s.add P index' pts' opening').1.unseen = s.unseen := by simp [State.add]
      exact ih (inv_add pts' opening' h hp hdue hnot) (hu.symm ▸ hs)
    | miss indices =>
      obtain ⟨hnew, hsorted, hs⟩ := hs
      exact ih (inv_miss h hnew hsorted) hs

end Kanat.Persistence
