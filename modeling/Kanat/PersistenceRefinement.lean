import Kanat.PersistenceReference

/-! # A Persistence refines its reference, and cuts of a recording agree

The simulation ties the Candidates the code has closed to those the reference has
rejected. What `end` reports of a recording is then a function of the Looks in each
window that has passed, whatever was judged early and wherever the recording ends. -/
namespace Kanat.Persistence
open SortedIndices

variable {box : ℕ}

/-- On a recording, after `p` frames: one history, and closed is rejected. -/
structure Simulates (P : Settings) (s : State box) (r : Reference box) (p : ℕ) : Prop where
  unseen_nil : s.unseen = []
  candidates : r.candidates = s.candidates
  lookedAt : r.lookedAt = s.lookedAt
  lost : r.lost = s.lost
  closed_iff : ∀ id, id ∈ s.closed ↔ r.verdict id = .rejected
  open_undecided : ∀ id ∈ s.openIds, r.verdict id = .undecided
  judged : ∀ id, r.verdict id ≠ .undecided → id < s.candidates.length ∧
    s.windowEnd P id ≤ p ∧ r.verdict id = windowVerdict P s.lookedAt s.lost (s.candidate id)

/-- Past its window and with nothing unseen, a Candidate is secure exactly when the
window's verdict keeps it. -/
theorem windowVerdict_of_secure {P : Settings} {s : State box} {q id : ℕ}
    (hu : s.unseen = []) (hw : s.windowEnd P id ≤ q) :
    windowVerdict P s.lookedAt s.lost (s.candidate id) =
      if Secure P s q id then
        .persisted (hits P.window (s.candidate id) / countBetween s.lookedAt
          (s.candidate id).firstIdx ((s.candidate id).firstIdx + P.window))
      else .rejected := by
  have hz : stillDue P [] q ((s.candidate id).firstIdx + P.window) = 0 := stillDue_of_le hw
  rw [windowVerdict_eq]
  unfold Secure State.tried
  simp only [hu, hz, countBetween_nil, add_zero]

theorem simulates_judge {P : Settings} {s : State box} {r : Reference box} {p q : ℕ}
    (look : Option ℕ) (h : Inv P s p) (hs : Simulates P s r p) (hpq : p ≤ q) :
    Simulates P (s.judgeDue P q look).1 (r.judge P q) q := by
  have hverdict (id : ℕ) : (r.judge P q).verdict id =
      if id < s.candidates.length ∧ r.verdict id = .undecided ∧ s.windowEnd P id ≤ q then
        windowVerdict P s.lookedAt s.lost (s.candidate id)
      else r.verdict id := by
    simp only [Reference.judge, hs.candidates, hs.lookedAt, hs.lost]
    rfl
  have hnone (id : ℕ) (hid : id ∈ s.openIds) : s.verdict P q id = none ↔ ¬Secure P s q id := by
    rw [← h.verdict_isSome hpq hid]
    cases s.verdict P q id <;> simp
  refine ⟨hs.unseen_nil, hs.candidates, hs.lookedAt, hs.lost, fun id => ?_, fun id hid => ?_,
    fun id hid => ?_⟩
  · rw [mem_judgeDue_closed, hs.closed_iff, hverdict]
    split_ifs with hj
    · obtain ⟨hlt, hund, hw⟩ := hj
      rw [windowVerdict_of_secure hs.unseen_nil hw, hund]
      rcases (h.covered id).mp hlt with ho | hp | hc
      · simp [ho, hw, hnone id ho]
      · have hsec := Secure.later h.toHistory (h.secure id hp) hpq
        have hno : id ∉ s.openIds := fun ho => h.open_not_persisted id ho hp
        simp [hsec, hno]
      · rw [(hs.closed_iff id).mp hc] at hund
        exact absurd hund Verdict.noConfusion
    · refine or_iff_left_of_imp ?_
      rintro ⟨ho, _, hw⟩
      exact absurd ⟨h.open_lt ho, hs.open_undecided id ho, hw⟩ hj
  · obtain ⟨ho, _, hw⟩ := (mem_judgeDue_openIds P s q look).mp hid
    rw [hverdict, if_neg (fun hj => absurd hj.2.2 (Nat.not_le.mpr hw))]
    exact hs.open_undecided id ho
  · rw [hverdict] at hid ⊢
    split_ifs at hid ⊢ with hj
    · exact ⟨hj.1, hj.2.2, rfl⟩
    · obtain ⟨hlt, hw, hv⟩ := hs.judged id hid
      exact ⟨hlt, hw.trans hpq, hv⟩

/-- A Look past a window leaves its verdict. -/
theorem windowVerdict_register {P : Settings} {s : State box} {index id : ℕ}
    (pts : Option (List (Detection box))) (opening : Bool) (hid : id < s.candidates.length)
    (hw : s.windowEnd P id ≤ index) :
    windowVerdict P (s.register P index pts opening).lookedAt (s.register P index pts opening).lost
      ((s.register P index pts opening).candidate id) =
    windowVerdict P s.lookedAt s.lost (s.candidate id) := by
  have hgrown := grown_register P s index pts opening
  obtain ⟨looked, lost, hone, hl, ht⟩ := register_looks P s index pts opening
  have hpast : ¬index < (s.candidate id).firstIdx + P.window := Nat.not_lt.mpr hw
  rw [hl, ht]
  refine windowVerdict_congr (hgrown.firstIdx_old id hid) ?_ ?_
    (hits_eq_of_grown hgrown P.window hid hw)
  all_goals
    rcases hone with ⟨rfl, rfl⟩ | ⟨rfl, rfl⟩ <;> simp [countBetween_singleton, hpast]

private theorem simulates_register {P : Settings} {s : State box} {r : Reference box} {index : ℕ}
    (pts : Option (List (Detection box))) (opening : Bool) (hs : Simulates P s r index) :
    Simulates P (s.register P index pts opening) (r.register P index pts opening) (index + 1) := by
  have hclosed : r.closed = s.closed := by
    ext id
    rw [hs.closed_iff, Reference.closed, Finset.mem_filter, Finset.mem_range, hs.candidates]
    refine and_iff_right_of_imp fun hr => (hs.judged id ?_).1
    rw [hr]
    exact Verdict.noConfusion
  have hsame : (r.register P index pts opening).candidates =
      (s.register P index pts opening).candidates ∧
      (r.register P index pts opening).lookedAt = (s.register P index pts opening).lookedAt ∧
      (r.register P index pts opening).lost = (s.register P index pts opening).lost ∧
      (r.register P index pts opening).verdict = r.verdict := by
    cases pts <;> simp [Reference.register, State.register, hs.candidates, hs.lookedAt, hs.lost,
      hclosed]
  obtain ⟨hc, hl, ht, hv⟩ := hsame
  have hgrown := grown_register P s index pts opening
  refine ⟨?_, hc, hl, ht, fun id => ?_, fun id hid => ?_, fun id hid => ?_⟩
  · rw [register_unseen, hs.unseen_nil]
  · rw [register_closed, hv, hs.closed_iff]
  · rw [hv]
    rw [register_openIds, List.mem_append, List.mem_range'_1] at hid
    rcases hid with hid | hid
    · exact hs.open_undecided id hid
    · by_contra hne
      have := (hs.judged id hne).1
      omega
  · rw [hv] at hid ⊢
    obtain ⟨hlt, hw, hj⟩ := hs.judged id hid
    refine ⟨hlt.trans_le hgrown.length_le, ?_, ?_⟩
    · have hf := hgrown.firstIdx_old id hlt
      simp only [State.windowEnd, State.candidate, hf] at hw ⊢
      omega
    · rw [windowVerdict_register pts opening hlt hw, hj]

private theorem simulates_add {P : Settings} {s : State box} {r : Reference box} {p index : ℕ}
    (pts : Option (List (Detection box))) (opening : Bool) (h : Inv P s p)
    (hs : Simulates P s r p) (hp : p ≤ index) (hdue : P.due index = true) :
    Simulates P (s.add P index pts opening).1 (r.add P index pts opening) (index + 1) := by
  have hj := inv_judgeDue (some index) h hp
  have hnot : index ∉ (s.judgeDue P index (some index)).1.unseen := by simp [hs.unseen_nil]
  exact simulates_judge none (inv_register pts opening hj hdue hnot)
    (simulates_register pts opening (simulates_judge (some index) h hs hp)) (Nat.le_refl _)

/-- `p` is past every Look. -/
def Past (looks : List (Look box)) (p : ℕ) : Prop := ∀ l ∈ looks, l.index < p

private theorem simulates_foldl {P : Settings} (looks : List (Look box)) {s : State box}
    {r : Reference box} {p : ℕ} (h : Inv P s p) (hs : Simulates P s r p)
    (hsched : Scheduled P p [] (looks.map Look.event)) :
    ∃ q, (∀ n, p ≤ n → Past looks n → q ≤ n) ∧
      Inv P ((looks.map Look.event).foldl (State.step P) s) q ∧
      Simulates P ((looks.map Look.event).foldl (State.step P) s)
        (looks.foldl (fun r l => r.add P l.index l.pts l.opening) r) q := by
  induction looks generalizing s r p with
  | nil => exact ⟨p, fun n hn _ => hn, h, hs⟩
  | cons l looks ih =>
    obtain ⟨hp, hdue, hnot, hsched⟩ := hsched
    have hu : l.index ∉ s.unseen := by simp [hs.unseen_nil]
    obtain ⟨q, hq, hinv, hsim⟩ := ih (inv_add l.pts l.opening h hp hdue hu)
      (simulates_add l.pts l.opening h hs hp hdue) hsched
    refine ⟨q, fun n hn hpast => hq n (hpast l List.mem_cons_self) fun l' hl' => ?_, hinv, hsim⟩
    exact hpast l' (List.mem_cons_of_mem _ hl')

theorem simulates_run {P : Settings} {looks : List (Look box)}
    (h : Scheduled P 0 [] (looks.map Look.event)) :
    ∃ q, (∀ n, Past looks n → q ≤ n) ∧ Inv P (run P (looks.map Look.event)) q ∧
      Simulates P (run P (looks.map Look.event)) (Reference.run P looks) q := by
  have h₀ : Simulates P ({} : State box) {} 0 :=
    ⟨rfl, rfl, rfl, rfl, fun _ => by simp, fun _ hid => absurd hid List.not_mem_nil,
      fun _ hid => absurd rfl hid⟩
  obtain ⟨q, hq, hinv, hsim⟩ := simulates_foldl looks (inv_initial P) h₀ h
  exact ⟨q, fun n hn => hq n (Nat.zero_le n) hn, hinv, hsim⟩

/-- A Candidate as a recording reports it: by the Looks of its window, passed. -/
def windowReport (P : Settings) (s : State box) (processed id : ℕ) : Option (Hole box) :=
  let c := s.candidate id
  if s.windowEnd P id ≤ processed then
    match windowVerdict P s.lookedAt s.lost c with
    | .persisted persistence => some {
        pos := centre c.pos
        box := c.pos
        firstFrame := c.firstIdx
        seen := c.seen
        persistence := persistence }
    | _ => none
  else none

/-- A hole without the frame that judged it, which early verdicts move. -/
def Hole.undated (h : Hole box) : Hole box := { h with judgedFrame := none }

theorem reported_judge {P : Settings} {s : State box} {r : Reference box} {q id : ℕ}
    (hs : Simulates P s r q) (hid : id < s.candidates.length) :
    (r.judge P q).reported id = windowReport P s q id := by
  have hcand : candidateAt r.candidates id = s.candidate id := by rw [hs.candidates]; rfl
  have hverdict : (r.judge P q).verdict id =
      if s.windowEnd P id ≤ q then windowVerdict P s.lookedAt s.lost (s.candidate id)
      else .undecided := by
    simp only [Reference.judge, hs.candidates, hs.lookedAt, hs.lost, hid, true_and]
    by_cases hu : r.verdict id = .undecided
    · simp only [hu, true_and]
      rfl
    · obtain ⟨_, hw, hv⟩ := hs.judged id hu
      rw [if_neg (fun h => hu h.1), if_pos hw, hv]
  have hsame : candidateAt (r.judge P q).candidates id = s.candidate id := hcand
  simp only [Reference.reported, windowReport, hverdict, hsame]
  split_ifs <;> rfl

private theorem filterMap_filter_of_none {α β : Type} (f : α → Option β) (p : α → Bool)
    (xs : List α) (h : ∀ x ∈ xs, p x = false → f x = none) :
    (xs.filter p).filterMap f = xs.filterMap f := by
  induction xs with
  | nil => rfl
  | cons x xs ih =>
    have ih := ih fun y hy => h y (List.mem_cons_of_mem _ hy)
    cases hp : p x with
    | true => simp [hp, ih, List.filterMap_cons]
    | false => simp [hp, ih, h x List.mem_cons_self hp]

/-- What a recording's `end` reports is each window's own report. -/
theorem end_perm_windowReport {P : Settings} {s : State box} {r : Reference box} {p q : ℕ}
    (h : Inv P s p) (hs : Simulates P s r p) (hpq : p ≤ q) :
    ∃ holes, s.end P q false = .ok holes ∧
      (holes.map Hole.undated).Perm ((List.range s.candidates.length).filterMap
        (windowReport P s q)) := by
  set t := (s.judgeDue P q none).1 with ht
  have hinv : Inv P t q := inv_judgeDue none h hpq
  have hsim : Simulates P t (r.judge P q) q := simulates_judge none h hs hpq
  have hpast (id : ℕ) (ho : id ∈ t.openIds) : q < t.windowEnd P id :=
    ((mem_judgeDue_openIds P s q none).mp ho).2.2
  have hmap : (t.persisted.filterMap (finished P s q false)).map Hole.undated =
      t.persistedIds.filterMap (windowReport P s q) := by
    rw [List.map_filterMap, State.persistedIds, List.filterMap_map]
    refine List.filterMap_congr fun x hx => ?_
    have hsec := hinv.secure x.2 (List.mem_map_of_mem hx)
    have hfirst := hinv.persisted_first x hx
    have hcand : t.candidate x.2 = s.candidate x.2 := rfl
    by_cases hw : s.windowEnd P x.2 ≤ q
    · have hv := windowVerdict_of_secure hsim.unseen_nil (s := t) hw
      rw [if_pos hsec] at hv
      have hv' : windowVerdict P s.lookedAt s.lost (s.candidate x.2) = _ := hv
      have hw' : (s.candidate x.2).firstIdx + P.window ≤ q := hw
      simp only [finished, windowReport, Function.comp, hv', if_pos hw, if_pos hw', Option.map_some,
        Hole.undated, hfirst, hcand]
      rfl
    · have hw' : ¬(s.candidate x.2).firstIdx + P.window ≤ q := hw
      simp [finished, windowReport, hw, hw']
  have hrest : ∀ id ∈ List.range s.candidates.length,
      decide (id ∈ t.persistedIds) = false → windowReport P s q id = none := by
    intro id hid hnp
    rcases (hinv.covered id).mp (List.mem_range.mp hid) with ho | hp | hc
    · have := hpast id ho
      exact if_neg (Nat.not_le.mpr this)
    · simp [hp] at hnp
    · have hr := (hsim.closed_iff id).mp hc
      have hj := hsim.judged id (by rw [hr]; exact Verdict.noConfusion)
      have hv : windowVerdict P s.lookedAt s.lost (s.candidate id) = .rejected := hj.2.2.symm.trans hr
      simp only [windowReport, hv, ite_self]
  have hperm : ((List.range s.candidates.length).filter fun id => decide (id ∈ t.persistedIds)).Perm
      t.persistedIds := by
    refine (List.perm_ext_iff_of_nodup (List.nodup_range.filter _) hinv.persistedIds_nodup).mpr ?_
    intro id
    rw [List.mem_filter, List.mem_range, decide_eq_true_eq]
    exact and_iff_right_of_imp fun hp => hinv.persisted_lt hp
  refine ⟨_, end_eq h q false, ?_⟩
  refine ((List.mergeSort_perm _ _).map _).trans ?_
  rw [hmap, ← filterMap_filter_of_none _ _ _ hrest]
  exact (hperm.filterMap _).symm

end Kanat.Persistence
