import Kanat.PersistenceRefinement

/-! # Verdicts of whole runs: early, at a window's end, and at a clip's end

Early verdicts agree with those at the end of a window, window by window. From that, what a whole recording reports,
and what a cut Clip does: later Looks change nothing that was judged before the cut. -/
namespace Kanat.Persistence
open SortedIndices

variable {box : ℕ}

instance decidableScheduled (P : Settings) : ∀ (next : ℕ) (unseen : List ℕ)
    (events : List (Event box)), Decidable (Scheduled P next unseen events)
  | _, _, [] => .isTrue trivial
  | next, unseen, .look index _ _ :: events =>
      have := decidableScheduled P (index + 1) unseen events
      inferInstanceAs (Decidable (next ≤ index ∧ P.due index = true ∧ index ∉ unseen ∧ _))
  | next, unseen, .miss indices :: events =>
      have := decidableScheduled P next (unseen ++ indices) events
      inferInstanceAs (Decidable ((∀ i ∈ indices, next ≤ i ∧ P.due i = true) ∧
        (unseen ++ indices).Pairwise (· < ·) ∧ _))

instance (looks : List (Look box)) (p : ℕ) : Decidable (Past looks p) :=
  inferInstanceAs (Decidable (∀ l ∈ looks, l.index < p))

/-- Early verdicts are the window end's: `end` never meets its assertion, and on a
recording it reports exactly what the reference does. -/
theorem end_refines_reference (P : Settings) :
    (∀ events : List (Event box), Scheduled P 0 [] events → ∀ processed live,
      ∃ holes, (run P events).end P processed live = .ok holes) ∧
    ∀ looks : List (Look box), Scheduled P 0 [] (looks.map Look.event) →
      ∀ processed, Past looks processed →
      ∃ holes, (run P (looks.map Look.event)).end P processed false = .ok holes ∧
        (holes.map Hole.undated).Perm ((Reference.run P looks).end P processed) := by
  constructor
  · intro events hsched processed live
    have hinv := inv_run hsched
    exact ⟨_, end_eq hinv processed live⟩
  · intro looks hsched processed hpast
    obtain ⟨q, hq, hinv, hsim⟩ := simulates_run hsched
    obtain ⟨holes, hend, hperm⟩ := end_perm_windowReport hinv hsim (hq processed hpast)
    refine ⟨holes, hend, hperm.trans (List.Perm.of_eq ?_)⟩
    have hlen := hsim.candidates
    rw [Reference.end, hlen]
    refine List.filterMap_congr fun id hid => ?_
    have hsim' : Simulates P (run P (looks.map Look.event)) (Reference.run P looks) processed :=
      { hsim with
        judged := fun id hid => by
          obtain ⟨hlt, hw, hv⟩ := hsim.judged id hid
          exact ⟨hlt, hw.trans (hq processed hpast), hv⟩ }
    exact (reported_judge hsim' (List.mem_range.mp hid)).symm

/-- A stride of 2 after one baseline frame, and a mark seen at three of four Looks. -/
def strideTwo : Settings where
  matchPx := 1
  persist := 1 / 2
  window := 6
  stride := 2
  baselineFrames := 1
  persist_pos := by norm_num
  persist_le_one := by norm_num

def markSeen : List (Look 0) :=
  [⟨0, some [![3, 4]], true⟩, ⟨2, none, true⟩, ⟨4, some [![3, 4], ![9, 9]], true⟩,
    ⟨6, some [], true⟩]

theorem end_refines_reference_markSeen :
    (∃ holes, (run strideTwo (markSeen.map Look.event ++ [.miss [8, 10]])).end strideTwo 11 true =
      .ok holes) ∧
    ((Reference.run strideTwo markSeen).end strideTwo 7).length = 1 ∧
    ∃ holes, (run strideTwo (markSeen.map Look.event)).end strideTwo 7 false = .ok holes ∧
      (holes.map Hole.undated).Perm ((Reference.run strideTwo markSeen).end strideTwo 7) :=
  ⟨(end_refines_reference strideTwo).1 _ (by decide) 11 true, by decide +kernel,
    (end_refines_reference strideTwo).2 markSeen (by decide) 7 (by decide)⟩

/-- What later Looks, from `cut` on, leave as it was. -/
structure Extends (P : Settings) (cut : ℕ) (s t : State box) : Prop where
  length_le : s.candidates.length ≤ t.candidates.length
  firstIdx_old : ∀ id < s.candidates.length, (t.candidate id).firstIdx = (s.candidate id).firstIdx
  verdict_old : ∀ id < s.candidates.length, s.windowEnd P id ≤ cut →
    windowVerdict P t.lookedAt t.lost (t.candidate id) =
      windowVerdict P s.lookedAt s.lost (s.candidate id)
  firstIdx_new : ∀ id, s.candidates.length ≤ id → id < t.candidates.length →
    cut ≤ (t.candidate id).firstIdx

theorem Extends.refl (P : Settings) (cut : ℕ) (s : State box) : Extends P cut s s where
  length_le := Nat.le_refl _
  firstIdx_old _ _ := rfl
  verdict_old _ _ _ := rfl
  firstIdx_new _ h h' := absurd h (Nat.not_le.mpr h')

theorem Extends.add {P : Settings} {cut index : ℕ} {s t : State box} (h : Extends P cut s t)
    (pts : Option (List (Detection box))) (opening : Bool) (hi : cut ≤ index) :
    Extends P cut s (t.add P index pts opening).1 := by
  have hgrown := grown_register P (t.judgeDue P index (some index)).1 index pts opening
  refine ⟨h.length_le.trans hgrown.length_le, fun id hid => ?_, fun id hid hw => ?_,
    fun id hid hlt => ?_⟩
  · exact (hgrown.firstIdx_old id (hid.trans_le h.length_le)).trans (h.firstIdx_old id hid)
  · have hw' : (t.judgeDue P index (some index)).1.windowEnd P id ≤ index := by
      have hf := h.firstIdx_old id hid
      simp only [State.windowEnd, judgeDue_candidate, hf] at hw ⊢
      omega
    have hreg := windowVerdict_register (s := (t.judgeDue P index (some index)).1) pts opening
      (hid.trans_le h.length_le) hw'
    exact hreg.trans (h.verdict_old id hid hw)
  · rcases Nat.lt_or_ge id t.candidates.length with hid' | hid'
    · exact (h.firstIdx_new id hid hid').trans_eq (hgrown.firstIdx_old id hid').symm
    · exact hi.trans_eq (hgrown.firstIdx_new id hid' hlt).symm

private theorem extends_foldl {P : Settings} {cut : ℕ} {s t : State box} (h : Extends P cut s t)
    (looks : List (Look box)) (hi : ∀ l ∈ looks, cut ≤ l.index) :
    Extends P cut s ((looks.map Look.event).foldl (State.step P) t) := by
  induction looks generalizing t with
  | nil => exact h
  | cons l looks ih =>
    exact ih (h.add l.pts l.opening (hi l List.mem_cons_self))
      fun l' hl' => hi l' (List.mem_cons_of_mem _ hl')

/-- What two reports of one Bullet Hole must share. -/
def Hole.key (h : Hole box) : ℕ × ℚ := (h.firstFrame, h.persistence)

/-- Is the whole window of the hole within `cut` frames? -/
def Hole.elapsed (P : Settings) (cut : ℕ) (h : Hole box) : Bool :=
  h.firstFrame + P.window ≤ cut

theorem windowReport_firstFrame {P : Settings} {s : State box} {q id : ℕ} {h : Hole box}
    (hr : windowReport P s q id = some h) :
    h.firstFrame = (s.candidate id).firstIdx ∧ s.windowEnd P id ≤ q := by
  unfold windowReport at hr
  split_ifs at hr with hw
  cases hv : windowVerdict P s.lookedAt s.lost (s.candidate id) with
  | undecided => simp [hv] at hr
  | rejected => simp [hv] at hr
  | persisted x =>
    dsimp only at hr
    rw [hv] at hr
    rw [← Option.some.inj hr]
    exact ⟨rfl, hw⟩

/-- The elapsed part of a longer recording's reports is the shorter one's. -/
theorem windowReport_extends {P : Settings} {cut processed : ℕ} {s t : State box}
    (h : Extends P cut s t) (hp : cut ≤ processed) :
    ((List.range t.candidates.length).filterMap fun id =>
      ((windowReport P t processed id).filter (Hole.elapsed P cut)).map Hole.key) =
    (List.range s.candidates.length).filterMap fun id =>
      (windowReport P s cut id).map Hole.key := by
  have hsplit : List.range t.candidates.length = List.range s.candidates.length ++
      List.range' s.candidates.length (t.candidates.length - s.candidates.length) := by
    have happ := @List.range'_append_1 0 s.candidates.length
      (t.candidates.length - s.candidates.length)
    rw [Nat.zero_add, Nat.add_sub_cancel' h.length_le] at happ
    rw [List.range_eq_range', List.range_eq_range', happ]
  have hnew : ∀ id ∈ List.range' s.candidates.length (t.candidates.length - s.candidates.length),
      ((windowReport P t processed id).filter (Hole.elapsed P cut)).map Hole.key = none := by
    intro id hid
    obtain ⟨hle, hlt⟩ := List.mem_range'_1.mp hid
    have hfirst := h.firstIdx_new id hle (by omega)
    cases hr : windowReport P t processed id with
    | none => rfl
    | some hole =>
      have hf := (windowReport_firstFrame hr).1
      by_cases he : hole.firstFrame + P.window ≤ cut
      · -- only an empty window has elapsed, and no Look lies in it
        have hz : P.window = 0 := by omega
        have hspan : countBetween t.lookedAt (t.candidate id).firstIdx
            ((t.candidate id).firstIdx + P.window) = 0 :=
          countBetween_eq_zero fun i _ hi => by omega
        simp [windowReport, windowVerdict, hspan] at hr
      · rw [Option.filter_some_neg (by simpa [Hole.elapsed] using he), Option.map_none]
  rw [hsplit, List.filterMap_append, List.filterMap_eq_nil_iff.mpr hnew, List.append_nil]
  refine List.filterMap_congr fun id hid => ?_
  have hid := List.mem_range.mp hid
  have hf := h.firstIdx_old id hid
  have hends : t.windowEnd P id = s.windowEnd P id := by simp only [State.windowEnd, hf]
  by_cases hw : s.windowEnd P id ≤ cut
  · have hv := h.verdict_old id hid hw
    have hw' : (s.candidate id).firstIdx + P.window ≤ cut := hw
    simp only [windowReport, hends, if_pos hw, if_pos (hw.trans hp), hv]
    cases windowVerdict P s.lookedAt s.lost (s.candidate id) <;>
      simp [Hole.elapsed, Hole.key, hf, hw']
  · have hnone : windowReport P s cut id = none := if_neg hw
    rw [hnone]
    cases hr : windowReport P t processed id with
    | none => rfl
    | some hole =>
      have hfr := (windowReport_firstFrame hr).1
      have he : ¬hole.firstFrame + P.window ≤ cut := by
        rw [hfr, hf]
        exact hw
      rw [Option.filter_some_neg (by simpa [Hole.elapsed] using he), Option.map_none]

/-- Looks from `cut` on change no verdict given by it. -/
theorem end_before {P : Settings} {before after : List (Look box)} {cut processed : ℕ}
    (hsched : Scheduled P 0 [] ((before ++ after).map Look.event)) (hbefore : Past before cut)
    (hafter : ∀ l ∈ after, cut ≤ l.index) (hcut : cut ≤ processed) (hpast : Past (before ++ after) processed) :
    ∃ short long, (run P (before.map Look.event)).end P cut false = .ok short ∧
      (run P ((before ++ after).map Look.event)).end P processed false = .ok long ∧
      (short.map Hole.key).Perm ((long.filter (Hole.elapsed P cut)).map Hole.key) := by
  have hrun : run P ((before ++ after).map Look.event) =
      (after.map Look.event).foldl (State.step P) (run P (before.map Look.event)) := by
    simp only [run, List.map_append, List.foldl_append]
  have hsched' : Scheduled P 0 [] (before.map Look.event) := by
    rw [List.map_append] at hsched
    exact hsched.of_append
  obtain ⟨q, hq, hinv, hsim⟩ := simulates_run hsched'
  obtain ⟨q', hq', hinv', hsim'⟩ := simulates_run hsched
  obtain ⟨short, hshort, hps⟩ := end_perm_windowReport hinv hsim (hq cut hbefore)
  obtain ⟨long, hlong, hpl⟩ := end_perm_windowReport hinv' hsim' (hq' processed hpast)
  refine ⟨short, long, hshort, hlong, ?_⟩
  have hextends := extends_foldl (Extends.refl P cut (run P (before.map Look.event))) after hafter
  rw [← hrun] at hextends
  have hkey : Hole.key ∘ Hole.undated = (Hole.key : Hole box → ℕ × ℚ) := rfl
  have helapsed : Hole.elapsed P cut ∘ Hole.undated = (Hole.elapsed P cut : Hole box → Bool) := rfl
  have hs := hps.map Hole.key
  rw [List.map_map, hkey, List.map_filterMap] at hs
  have hl := (hpl.filter (Hole.elapsed P cut)).map Hole.key
  rw [List.filter_map, helapsed, List.map_map, hkey, List.filter_filterMap, List.map_filterMap,
    windowReport_extends hextends hcut] at hl
  exact hs.trans hl.symm

/-- A Bullet Hole a Clip reports had its window by the Clip's end. -/
theorem end_elapsed {P : Settings} {looks : List (Look box)} {processed : ℕ} {holes : List (Hole box)}
    (hsched : Scheduled P 0 [] (looks.map Look.event)) (hpast : Past looks processed)
    (hend : (run P (looks.map Look.event)).end P processed false = .ok holes) :
    ∀ h ∈ holes, h.firstFrame + P.window ≤ processed := by
  obtain ⟨q, hq, hinv, hsim⟩ := simulates_run hsched
  obtain ⟨holes', hend', hperm⟩ := end_perm_windowReport hinv hsim (hq processed hpast)
  rw [hend', Except.ok.injEq] at hend
  subst hend
  intro h hh
  obtain ⟨id, -, hreport⟩ := List.mem_filterMap.mp (hperm.mem_iff.mp (List.mem_map_of_mem hh))
  obtain ⟨hfirst, hwindow⟩ := windowReport_firstFrame hreport
  have hsame : h.firstFrame = _ := hfirst
  rw [hsame]
  exact hwindow

/-- Where a Clip is cut never decides a verdict. -/
theorem cut_keeps_verdicts (P : Settings) (before after : List (Look box))
    (hsched : Scheduled P 0 [] ((before ++ after).map Look.event)) (cut processed : ℕ)
    (hbefore : Past before cut) (hafter : ∀ l ∈ after, cut ≤ l.index)
    (hcut : cut ≤ processed) (hpast : Past (before ++ after) processed) :
    ∃ short long, (run P (before.map Look.event)).end P cut false = .ok short ∧
      (run P ((before ++ after).map Look.event)).end P processed false = .ok long ∧
      (short.map Hole.key).Perm ((long.filter (Hole.elapsed P cut)).map Hole.key) ∧
      ∀ h ∈ short, h.firstFrame + P.window ≤ cut := by
  obtain ⟨short, long, hshort, hlong, hkeys⟩ := end_before hsched hbefore hafter hcut hpast
  rw [List.map_append] at hsched
  exact ⟨short, long, hshort, hlong, hkeys, end_elapsed hsched.of_append hbefore hshort⟩

theorem cut_keeps_verdicts_markSeen :
    ∃ short long, (run strideTwo ((markSeen.take 3).map Look.event)).end strideTwo 6 false =
        .ok short ∧
      (run strideTwo ((markSeen.take 3 ++ markSeen.drop 3).map Look.event)).end strideTwo 7 false =
        .ok long ∧
      (short.map Hole.key).Perm ((long.filter (Hole.elapsed strideTwo 6)).map Hole.key) ∧
      ∀ h ∈ short, h.firstFrame + strideTwo.window ≤ 6 :=
  cut_keeps_verdicts strideTwo (markSeen.take 3) (markSeen.drop 3) (by decide) 6 7 (by decide)
    (by decide) (by decide) (by decide)

end Kanat.Persistence
