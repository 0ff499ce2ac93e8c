import Kanat.RegressionLaws
import Mathlib.Analysis.Real.Sqrt
import Mathlib.Data.List.Forall2

/-! # More shifted runs of the reference only excuse

A recording's findings fail, or are excused by the reference's shifted runs. More of these keep every finding, and let
it fail no more than before. -/
namespace Kanat.RegressionControl
open WeightedMatching MarkMatching InsertionOrderDict RegressionRule RegressionLaws

variable {R : Type} [Field R] [LinearOrder R] {norm : R × R → R}
  {maxWeightMatching : (V : Type) → [DecidableEq V] → WeightedGraph V R → List (V × V)} {fmt : Format → R → String}
  {name unit : String} {was t : Truth R} {r0 n0 : ShiftResult R} {shifted shifted' : List (ShiftResult R)}
  {a a' b : Result R} {r r' n : Recording R} {lift : Bool}

/-- The recording with shifted runs added. -/
structure MoreShifted (r r' : Recording R) : Prop where
  window : r'.window = r.window
  sha256 : r'.sha256 = r.sha256
  truthSha256 : r'.truthSha256 = r.truthSha256
  zero : r'.shifts.get "0" = r.shifts.get "0"
  shifts : r.shifts ⊆ r'.shifts

/-- The result with shifted runs added to its recordings. -/
structure MoreShifts (a a' : Result R) : Prop where
  stride : a'.stride = a.stride
  model : a'.model = a.model
  modelSha256 : a'.modelSha256 = a.modelSha256
  recordings : List.Forall₂ (fun e e' => e'.1 = e.1 ∧ MoreShifted e.2 e'.2) a.recordings a'.recordings

/-- The same finding, failing no more than before. -/
structure Excuses (f f' : Finding) : Prop where
  recording : f'.recording = f.recording
  kind : f'.kind = f.kind
  hole : f'.hole = f.hole
  detail : f'.detail = f.detail
  fails : f'.fails = true → f.fails = true

private theorem excuses_refl (f : Finding) : Excuses f f := ⟨rfl, rfl, rfl, rfl, id⟩

theorem excuses_note {kind : Kind} {hole detail : String} {noise noise' : Bool} (h : noise = true → noise' = true) :
    Excuses (note name kind hole detail noise) (note name kind hole detail noise') where
  recording := rfl
  kind := rfl
  hole := rfl
  detail := rfl
  fails := by
    simp only [note, Bool.and_eq_true, Bool.not_eq_true']
    exact fun hfails => ⟨hfails.1, by_contra fun hnot => absurd (h (Bool.of_not_eq_false hnot)) (by simp [hfails.2])⟩

theorem excuses_same (findings : List Finding) : List.Forall₂ Excuses findings findings :=
  List.forall₂_same.mpr fun f _ => excuses_refl f

omit [Field R] [LinearOrder R] in
theorem control_subset (h : MoreShifted r r') : controlRuns r ⊆ controlRuns r' := by
  intro s hs
  obtain ⟨entry, hentry, rfl⟩ := List.mem_map.mp hs
  obtain ⟨hmem, hkey⟩ := List.mem_filter.mp hentry
  exact List.mem_map_of_mem (List.mem_filter.mpr ⟨h.shifts hmem, hkey⟩)

omit [Field R] [LinearOrder R] in
theorem any_under (h : shifted ⊆ shifted') {j : ℕ} {p : Truth R → Bool} (hany : (under shifted j).any p = true) :
    (under shifted' j).any p = true := by
  obtain ⟨u, hu, hp⟩ := List.any_eq_true.mp hany
  obtain ⟨s, hs, hfind⟩ := List.mem_filterMap.mp hu
  exact List.any_eq_true.mpr ⟨u, List.mem_filterMap.mpr ⟨s, h hs, hfind⟩, hp⟩

theorem excuses_ite {c : Prop} [Decidable c] {f f' : Finding} (h : Excuses f f') :
    List.Forall₂ Excuses (if c then [f] else []) (if c then [f'] else []) := by
  split_ifs
  · exact .cons h .nil
  · exact .nil

private theorem holeFindings_excuses (h : shifted ⊆ shifted') (j : ℕ) :
    List.Forall₂ Excuses (holeFindings norm fmt name unit was t (under shifted j))
      (holeFindings norm fmt name unit was t (under shifted' j)) := by
  unfold holeFindings
  split
  · exact .nil
  · exact excuses_same _
  · exact excuses_same _
  · exact excuses_same _
  · exact .nil
  · exact .cons (excuses_note (any_under h)) .nil
  · exact List.rel_append (excuses_ite (excuses_note (any_under h))) (excuses_ite (excuses_note (any_under h)))

private theorem rulePositives_excuses (h : shifted ⊆ shifted') :
    List.Forall₂ Excuses (rulePositives norm maxWeightMatching fmt name r0 n0 shifted)
      (rulePositives norm maxWeightMatching fmt name r0 n0 shifted') := by
  unfold rulePositives
  refine List.rel_append ?_ (excuses_same _)
  refine List.forall₂_map_left_iff.mpr (List.forall₂_map_right_iff.mpr (List.forall₂_same.mpr fun i _ => ?_))
  refine excuses_note fun hnear => ?_
  obtain ⟨s, hs, hle⟩ := of_decide_eq_true hnear
  exact decide_eq_true ⟨s, h hs, hle⟩

private theorem ruledFindings_excuses (h : shifted ⊆ shifted') :
    List.Forall₂ Excuses (ruledFindings norm maxWeightMatching fmt name r0 n0 shifted)
      (ruledFindings norm maxWeightMatching fmt name r0 n0 shifted') := by
  unfold ruledFindings
  refine List.rel_append ?_ (rulePositives_excuses h)
  rw [List.flatMap_def, List.flatMap_def]
  refine List.rel_flatten (List.forall₂_map_left_iff.mpr
    (List.forall₂_map_right_iff.mpr (List.forall₂_same.mpr fun t _ => ?_)))
  cases truthOf r0 t.truth with
  | none => exact .nil
  | some was => exact holeFindings_excuses h t.truth

omit [Field R] [LinearOrder R] in
theorem refusal_more (ha : MoreShifts a a') (hr : MoreShifted r r') :
    refusal fmt lift a' b r' n r0 n0 = refusal fmt lift a b r n r0 n0 := by
  have hsettings : settings fmt lift a' r' r0 = settings fmt lift a r r0 := by
    unfold settings
    rw [ha.stride, hr.window]
  have hdiffer : differ r' n = differ r n := by
    unfold differ
    rw [hr.sha256, hr.truthSha256]
  unfold refusal
  rw [hsettings, hdiffer]

omit [Field R] [LinearOrder R] in
theorem ran_of_more (h : MoreShifted r r') (hr' : r'.Ran r0) : r.Ran r0 where
  atZero := h.zero ▸ hr'.atZero
  nodup := hr'.nodup
  alike s hs := hr'.alike s (control_subset h hs)

private theorem ruleRecording_excuses (norm : R × R → R)
    (maxWeightMatching : (V : Type) → [DecidableEq V] → WeightedGraph V R → List (V × V))
    (fmt : Format → R → String) (lift : Bool) (ha : MoreShifts a a') (hb : b.Ran) (halike : NumberedAlike a b)
    (hget : a.recordings.get name = some r) (hr : MoreShifted r r') (hr0 : r'.Ran r0) :
    ∃ found found', ruleRecording norm maxWeightMatching fmt lift a b name r = some found ∧
      ruleRecording norm maxWeightMatching fmt lift a' b name r' = some found' ∧ List.Forall₂ Excuses found found' := by
  have hold := ran_of_more hr hr0
  cases hn : b.recordings.get name with
  | none => exact ⟨_, _, ruleRecording_of_none hn, ruleRecording_of_none hn, excuses_same _⟩
  | some n =>
    obtain ⟨n0, hn0⟩ := hb.ran name n hn
    cases hrefusal : refusal fmt lift a b r n r0 n0 with
    | some detail =>
      have hrefusal' : refusal fmt lift a' b r' n r0 n0 = some detail := (refusal_more ha hr).trans hrefusal
      exact ⟨_, _, ruleRecording_of_refusal hn hold hn0 hrefusal, ruleRecording_of_refusal hn hr0 hn0 hrefusal',
        excuses_same _⟩
    | none =>
      have hcomparable := refusal_eq_none.mp hrefusal
      have hcomparable' := refusal_eq_none.mp ((refusal_more ha hr).trans hrefusal)
      have hnumbers := halike name r n r0 n0 hget hn hold hn0 hcomparable.truths
      exact ⟨_, _, ruleRecording_of_comparable hn hold hn0 hnumbers hcomparable,
        ruleRecording_of_comparable hn hr0 hn0 hnumbers hcomparable', ruledFindings_excuses (control_subset hr)⟩

omit [Field R] [LinearOrder R] in
private theorem keys_more {d d' : Dict String (Recording R)}
    (h : List.Forall₂ (fun e e' => e'.1 = e.1 ∧ MoreShifted e.2 e'.2) d d') : d'.keys = d.keys := by
  induction h with
  | nil => rfl
  | cons hentry _ ih => exact congrArg₂ List.cons hentry.1 ih

omit [Field R] [LinearOrder R] in
private theorem get_more {d d' : Dict String (Recording R)}
    (h : List.Forall₂ (fun e e' => e'.1 = e.1 ∧ MoreShifted e.2 e'.2) d d') (hr' : d'.get name = some r') :
    ∃ r, d.get name = some r ∧ MoreShifted r r' := by
  induction h with
  | nil => cases hr'
  | @cons e e' d d' hentry _ ih =>
    obtain ⟨hname, hmore⟩ := hentry
    rw [Dict.get_cons] at hr' ⊢
    by_cases heq : e.1 = name
    · rw [if_pos (hname.trans heq)] at hr'
      cases hr'
      exact ⟨e.2, if_pos heq, hmore⟩
    · rw [if_neg (hname ▸ heq)] at hr'
      rw [if_neg heq]
      exact ih hr'

private theorem ruled_excuses {d d' : Dict String (Recording R)}
    (h : List.Forall₂ (fun e e' => e'.1 = e.1 ∧ MoreShifted e.2 e'.2) d d') (ha : MoreShifts a a') (hb : b.Ran)
    (halike : NumberedAlike a b) (hd : ∀ e ∈ d, a.recordings.get e.1 = some e.2)
    (hran : ∀ e ∈ d', ∃ zero, e.2.Ran zero) :
    List.Forall₂ (List.Forall₂ Excuses)
      (d.filterMap fun e => ruleRecording norm maxWeightMatching fmt lift a b e.1 e.2)
      (d'.filterMap fun e => ruleRecording norm maxWeightMatching fmt lift a' b e.1 e.2) := by
  induction h with
  | nil => exact .nil
  | @cons e e' d d' hentry _ ih =>
    obtain ⟨hname, hmore⟩ := hentry
    obtain ⟨zero, hzero⟩ := hran e' List.mem_cons_self
    obtain ⟨found, found', hfound, hfound', hexcuses⟩ :=
      ruleRecording_excuses norm maxWeightMatching fmt lift ha hb halike (hd e List.mem_cons_self) hmore hzero
    rw [List.filterMap_cons, List.filterMap_cons, hfound, hname, hfound']
    exact .cons hexcuses (ih (fun x hx => hd x (List.mem_cons_of_mem _ hx))
      fun x hx => hran x (List.mem_cons_of_mem _ hx))

/-- Every finding stays, and fails no more than before. -/
theorem findings_excuses (norm : R × R → R)
    (maxWeightMatching : (V : Type) → [DecidableEq V] → WeightedGraph V R → List (V × V))
    (fmt : Format → R → String) (lift : Bool)
    (ha : a.Ran) (ha' : a'.Ran) (hb : b.Ran) (halike : NumberedAlike a b) (h : MoreShifts a a') :
    List.Forall₂ Excuses (findings norm maxWeightMatching fmt lift a b)
      (findings norm maxWeightMatching fmt lift a' b) := by
  have hwhole : resultFindings a' b = resultFindings a b := by
    unfold resultFindings modelText
    rw [h.model, h.modelSha256, keys_more h.recordings]
  unfold findings
  rw [hwhole]
  refine List.rel_append (excuses_same _) (List.rel_flatten (ruled_excuses h.recordings h hb halike ?_ ?_))
  · exact fun e he => Dict.get_of_mem ha.names he
  · exact fun e he => ha'.ran e.1 e.2 (Dict.get_of_mem ha'.names he)

private theorem any_fails_of_excuses {list list' : List Finding} (h : List.Forall₂ Excuses list list')
    (hfails : (list'.any fun f => f.fails) = true) : (list.any fun f => f.fails) = true := by
  induction h with
  | nil => exact hfails
  | cons hexcuses _ ih =>
    rw [List.any_cons, Bool.or_eq_true] at hfails ⊢
    exact hfails.imp hexcuses.fails ih

/-- The rule mirrors, passes just if each failure is excused, and finds the same, failing no more, with more shifted
runs. -/
theorem compare_rule [IsStrictOrderedRing R] (norm : R × R → R) (fmt : Format → R → String)
    (hcorrect : Correct maxWeightMatching)
    (hnorm : ∀ v, norm (-v) = norm v) (ha : a.Ran) (hb : b.Ran) (halike : NumberedAlike a b) (acrossStrides : Bool) :
    ∃ found passed, RegressionRule.compare norm maxWeightMatching fmt a b acrossStrides = some (found, passed) ∧
      (acrossStrides = false → ∃ found' passed',
        RegressionRule.compare norm maxWeightMatching fmt b a false = some (found', passed') ∧
        (∀ name, holesOf .lost found name = holesOf .gained found' name) ∧
        (found.filter fun x => x.kind = .added).length = (found'.filter fun x => x.kind = .removed).length) ∧
      (passed = true ↔ (∀ name, name ∈ a.recordings.keys ↔ name ∈ b.recordings.keys) ∧
        ∀ name r n r0 n0, a.recordings.get name = some r → b.recordings.get name = some n → r.Ran r0 → n.Ran n0 →
          Passes norm maxWeightMatching fmt (liftStride acrossStrides a) a b r n r0 n0) ∧
      ∀ a', MoreShifts a a' → a'.Ran → ∃ found' passed',
        RegressionRule.compare norm maxWeightMatching fmt a' b acrossStrides = some (found', passed') ∧
        List.Forall₂ Excuses found found' ∧ (passed = true → passed' = true) := by
  refine ⟨_, _, compare_eq ha hb halike acrossStrides, ?_, findings_pass ha hb halike, fun a' h ha' => ?_⟩
  · rintro rfl
    exact ⟨_, _, compare_eq hb ha halike.symm false, fun name => (holesOf_mirror hcorrect hnorm ha hb halike name).1,
      length_added_mirror hcorrect hnorm ha hb halike⟩
  · have halike' : NumberedAlike a' b := by
      intro name r' n r0 n0 hr' hn hr0 hn0 hlength
      obtain ⟨r, hr, hmore⟩ := get_more h.recordings hr'
      exact halike name r n r0 n0 hr hn (ran_of_more hmore hr0) hn0 hlength
    have hstride : liftStride acrossStrides a' = liftStride acrossStrides a := by rw [liftStride, h.stride, liftStride]
    have hexcuses := findings_excuses norm maxWeightMatching fmt (liftStride acrossStrides a) ha ha' hb halike h
    refine ⟨_, _, compare_eq ha' hb halike' acrossStrides, ?_⟩
    rw [hstride]
    refine ⟨hexcuses, fun hpassed => ?_⟩
    rw [Bool.not_eq_true'] at hpassed ⊢
    exact Bool.eq_false_iff.mpr fun hfails => Bool.eq_false_iff.mp hpassed (any_fails_of_excuses hexcuses hfails)

/-- A result of one recording with a reference run shifted by 8 px, and one that finds the second hole too and errs
nowhere. -/
theorem compare_rule_regained :
    let zero : ShiftResult ℝ := ⟨[⟨1, .tp 1 1⟩, ⟨2, .fn⟩], [⟨9, 500, 500⟩], "mm", none, some "cpu"⟩
    let better : ShiftResult ℝ := ⟨[⟨1, .tp 1 1⟩, ⟨2, .tp 2 1⟩], [], "mm", none, some "cpu"⟩
    let a : Result ℝ := ⟨1, none, none, [("rec", ⟨(13, 25), some "v", some "t", [("0", zero), ("8", zero)]⟩)]⟩
    let b : Result ℝ := ⟨1, none, none, [("rec", ⟨(13, 25), some "v", some "t", [("0", better)]⟩)]⟩
    let norm : ℝ × ℝ → ℝ := fun v => √(v.1 ^ 2 + v.2 ^ 2)
    ∃ found passed found' passed',
      RegressionRule.compare norm (fun _ _ => bestMatching) (fun _ _ => "") a b false = some (found, passed) ∧
      RegressionRule.compare norm (fun _ _ => bestMatching) (fun _ _ => "") b a false = some (found', passed') ∧
      (∀ name, holesOf .lost found name = holesOf .gained found' name) ∧
      (found.filter fun x => x.kind = .added).length = (found'.filter fun x => x.kind = .removed).length := by
  intro zero better a b norm
  have hran (s : ShiftResult ℝ) (shifts : Dict String (ShiftResult ℝ)) (hzero : shifts.get "0" = some s)
      (hnodup : (numbers s).Nodup) (halike : ∀ entry ∈ shifts, numbers entry.2 = numbers s) :
      (⟨1, none, none, [("rec", ⟨(13, 25), some "v", some "t", shifts⟩)]⟩ : Result ℝ).Ran := by
    refine ⟨List.nodup_singleton _, fun name r hr => ⟨s, ?_⟩⟩
    obtain ⟨-, rfl⟩ : name = "rec" ∧ r = ⟨(13, 25), some "v", some "t", shifts⟩ := by
      have hmem := Dict.mem_of_get hr
      rw [List.mem_singleton, Prod.mk.injEq] at hmem
      exact hmem
    refine ⟨hzero, hnodup, fun run hrun => ?_⟩
    obtain ⟨entry, hentry, rfl⟩ := List.mem_map.mp hrun
    exact halike entry (List.mem_filter.mp hentry).1
  have ha : a.Ran := hran zero _ rfl (by decide) (by simp)
  have hb : b.Ran := hran better _ rfl (by decide) (by simp)
  have halike : NumberedAlike a b := by
    intro name r n r0 n0 hr hn hr0 hn0 _
    obtain ⟨-, rfl⟩ : name = "rec" ∧ r = ⟨(13, 25), some "v", some "t", [("0", zero), ("8", zero)]⟩ := by
      have hmem := Dict.mem_of_get hr
      rw [List.mem_singleton, Prod.mk.injEq] at hmem
      exact hmem
    obtain ⟨-, rfl⟩ : name = "rec" ∧ n = ⟨(13, 25), some "v", some "t", [("0", better)]⟩ := by
      have hmem := Dict.mem_of_get hn
      rw [List.mem_singleton, Prod.mk.injEq] at hmem
      exact hmem
    obtain rfl : r0 = zero := Option.some.inj (hr0.atZero.symm.trans rfl)
    obtain rfl : n0 = better := Option.some.inj (hn0.atZero.symm.trans rfl)
    rfl
  obtain ⟨found, passed, hcompare, hmirror, -⟩ := compare_rule norm (fun _ _ => "")
    (fun _ _ graph _ => bestMatching_best graph) (fun v => by simp [norm]) ha hb halike false
  obtain ⟨found', passed', hback, hholes, hcount⟩ := hmirror rfl
  exact ⟨found, passed, found', passed', hcompare, hback, hholes, hcount⟩

end Kanat.RegressionControl
