import Kanat.RegressionRule

/-! # What the regression rule finds

It mirrors when the results change places, passes just if each failure is excused, and more shifted runs only excuse. -/
namespace Kanat.RegressionLaws
open WeightedMatching MarkMatching InsertionOrderDict RegressionRule

section
variable {α β : Type} {f : α → Option β} {l : List α}

theorem mapM_eq_some_filterMap (h : ∀ x ∈ l, ∃ y, f x = some y) : l.mapM f = some (l.filterMap f) := by
  induction l with
  | nil => rfl
  | cons x l ih =>
    obtain ⟨y, hy⟩ := h x List.mem_cons_self
    rw [List.mapM_cons, hy, ih fun x' hx' => h x' (List.mem_cons_of_mem _ hx'), List.filterMap_cons_some hy]
    rfl

end

/-- One run of the loop over a dictionary whose findings carry its keys, as its key sees it. -/
theorem filter_ruled {V : Type} {d : Dict String V} {f : String → V → Option (List Finding)} (hnodup : d.keys.Nodup)
    (hname : ∀ entry ∈ d, ∀ found, f entry.1 entry.2 = some found → ∀ x ∈ found, x.recording = entry.1)
    (name : String) :
    (d.filterMap fun entry => f entry.1 entry.2).flatten.filter (fun x => x.recording = name) =
      ((Dict.get d name).bind (f name)).getD [] := by
  induction d with
  | nil => rfl
  | cons entry d ih =>
    obtain ⟨hnot, hrest⟩ := List.nodup_cons.mp hnodup
    have hafter := ih hrest fun e he => hname e (List.mem_cons_of_mem _ he)
    rw [List.filterMap_cons, Dict.get_cons]
    have hsplit : ∀ found, f entry.1 entry.2 = some found →
        found.filter (fun x => x.recording = name) = if entry.1 = name then found else [] := by
      intro found hfound
      split_ifs with heq
      · exact List.filter_eq_self.mpr fun x hx => decide_eq_true ((hname _ List.mem_cons_self _ hfound x hx).trans heq)
      · refine List.filter_eq_nil_iff.mpr fun x hx => ?_
        rw [decide_eq_true_iff, hname _ List.mem_cons_self _ hfound x hx]
        exact heq
    by_cases heq : entry.1 = name
    · subst heq
      rw [if_pos rfl]
      rw [Dict.get_eq_none.mpr hnot] at hafter
      rw [Option.bind_some]
      cases hfound : f entry.1 entry.2 with
      | none => exact hafter
      | some found =>
        simp only [List.flatten_cons, List.filter_append, hsplit found hfound, if_pos, hafter]
        exact List.append_nil _
    · rw [if_neg heq, ← hafter]
      cases hfound : f entry.1 entry.2 with
      | none => rfl
      | some found =>
        simp only [List.flatten_cons, List.filter_append, hsplit found hfound, if_neg heq, List.nil_append]

variable {R : Type} [Field R] [LinearOrder R] {norm : R × R → R}
  {maxWeightMatching : (V : Type) → [DecidableEq V] → WeightedGraph V R → List (V × V)} {fmt : Format → R → String}
  {name unit : String} {was t : Truth R} {r0 n0 : ShiftResult R} {shifted : List (ShiftResult R)}

/-- The hole under each shifted run. -/
def under (shifted : List (ShiftResult R)) (j : ℕ) : List (Truth R) := shifted.filterMap fun s => truthOf s j

private theorem holeFindings_of_not_reads (h : readsControl was t = false) (others : List (Truth R)) :
    holeFindings norm fmt name unit was t others = holeFindings norm fmt name unit was t [] := by
  unfold readsControl at h
  unfold holeFindings
  split <;> simp_all

private theorem ruleTruth_eq_some (hwas : truthOf r0 t.truth = some was)
    (hshifted : ∀ s ∈ shifted, ∃ u, truthOf s t.truth = some u) :
    ruleTruth norm fmt name unit r0 shifted t =
      some (holeFindings norm fmt name unit was t (under shifted t.truth)) := by
  unfold ruleTruth
  rw [hwas, Option.bind_some, mapM_eq_some_filterMap hshifted]
  cases hreads : readsControl was t with
  | true => rfl
  | false =>
    rw [holeFindings_of_not_reads hreads (under shifted t.truth)]
    rfl

variable {a b : Result R} {r n : Recording R} {lift : Bool}

/-- Both recordings can be ruled on: in mm, on one truth and the same bytes, by the same settings. -/
structure Comparable (fmt : Format → R → String) (lift : Bool) (a b : Result R) (r n : Recording R)
    (r0 n0 : ShiftResult R) : Prop where
  units : r0.unit = "mm" ∧ n0.unit = "mm"
  truths : r0.truth.length = n0.truth.length
  bytes : r.sha256 ≠ none ∧ r.sha256 = n.sha256
  truth : r.truthSha256 ≠ none ∧ r.truthSha256 = n.truthSha256
  settings : settings fmt lift a r r0 = settings fmt lift b n n0

omit [Field R] [LinearOrder R] in
theorem differ_eq_nil : differ r n = [] ↔
    (r.sha256 ≠ none ∧ r.sha256 = n.sha256) ∧ (r.truthSha256 ≠ none ∧ r.truthSha256 = n.truthSha256) := by
  unfold differ
  by_cases hbytes : r.sha256 = none ∨ r.sha256 ≠ n.sha256 <;>
    by_cases htruth : r.truthSha256 = none ∨ r.truthSha256 ≠ n.truthSha256 <;>
      simp only [List.filterMap_cons, hbytes, htruth, if_true, if_false, List.filterMap_nil] <;> grind

omit [Field R] [LinearOrder R] in
theorem refusal_eq_none : refusal fmt lift a b r n r0 n0 = none ↔ Comparable fmt lift a b r n r0 n0 := by
  unfold refusal
  split_ifs with hunits hdiffer hsettings
  · refine iff_of_false nofun fun h => ?_
    rcases hunits with hunits | hlength
    · exact hunits h.units
    · exact hlength h.truths
  · refine iff_of_false nofun fun h => hdiffer (differ_eq_nil.mpr ⟨h.bytes, h.truth⟩)
  · exact iff_of_false nofun fun h => hsettings h.settings
  · obtain ⟨hmm, hlength⟩ := not_or.mp hunits
    obtain ⟨hbytes, htruth⟩ := differ_eq_nil.mp (not_not.mp hdiffer)
    exact iff_of_true rfl ⟨not_not.mp hmm, not_not.mp hlength, hbytes, htruth, not_not.mp hsettings⟩

omit [Field R] [LinearOrder R] in
theorem Comparable.symm (h : Comparable fmt lift a b r n r0 n0) : Comparable fmt lift b a n r n0 r0 where
  units := h.units.symm
  truths := h.truths.symm
  bytes := ⟨h.bytes.2 ▸ h.bytes.1, h.bytes.2.symm⟩
  truth := ⟨h.truth.2 ▸ h.truth.1, h.truth.2.symm⟩
  settings := h.settings.symm

/-- The findings on a recording that is ruled on. -/
def ruledFindings (norm : R × R → R)
    (maxWeightMatching : (V : Type) → [DecidableEq V] → WeightedGraph V R → List (V × V))
    (fmt : Format → R → String) (name : String) (r0 n0 : ShiftResult R) (shifted : List (ShiftResult R)) :
    List Finding :=
  (n0.truth.flatMap fun t => ((truthOf r0 t.truth).map fun was =>
    holeFindings norm fmt name n0.unit was t (under shifted t.truth)).getD []) ++
  rulePositives norm maxWeightMatching fmt name r0 n0 shifted

theorem ruleRecording_of_none (hn : b.recordings.get name = none) :
    ruleRecording norm maxWeightMatching fmt lift a b name r =
      some [note name .notRun "-" "in the reference, not in the new result at 0 px" false] := by
  unfold ruleRecording
  rw [hn]
  rfl

theorem ruleRecording_of_refusal (hn : b.recordings.get name = some n) (hr : r.Ran r0) (hn0 : n.Ran n0)
    {detail : String} (hdetail : refusal fmt lift a b r n r0 n0 = some detail) :
    ruleRecording norm maxWeightMatching fmt lift a b name r = some [note name .notComparable "-" detail false] := by
  unfold ruleRecording
  rw [hn, Option.bind_some, hn0.atZero, Option.map_some, hr.atZero]
  simp only [Option.bind_some, hdetail]

theorem ruleRecording_of_not_comparable (norm : R × R → R)
    (maxWeightMatching : (V : Type) → [DecidableEq V] → WeightedGraph V R → List (V × V))
    (hn : b.recordings.get name = some n)
    (hr : r.Ran r0) (hn0 : n.Ran n0) (hcomparable : ¬ Comparable fmt lift a b r n r0 n0) :
    ∃ detail, ruleRecording norm maxWeightMatching fmt lift a b name r =
      some [note name .notComparable "-" detail false] := by
  obtain ⟨detail, hdetail⟩ := Option.ne_none_iff_exists'.mp (mt refusal_eq_none.mp hcomparable)
  exact ⟨detail, ruleRecording_of_refusal hn hr hn0 hdetail⟩

omit [Field R] [LinearOrder R] in
theorem exists_truthOf_of_ran (hr : r.Ran r0) (halike : numbers r0 = numbers n0) (ht : t ∈ n0.truth) :
    (∃ was, truthOf r0 t.truth = some was) ∧ ∀ s ∈ controlRuns r, ∃ u, truthOf s t.truth = some u := by
  have hmem : t.truth ∈ numbers r0 := by
    rw [halike]
    exact List.mem_map_of_mem ht
  exact ⟨exists_truthOf hmem, fun s hs => exists_truthOf ((hr.alike s hs).symm ▸ hmem)⟩

theorem ruleRecording_of_comparable (hn : b.recordings.get name = some n) (hr : r.Ran r0) (hn0 : n.Ran n0)
    (halike : numbers r0 = numbers n0) (hcomparable : Comparable fmt lift a b r n r0 n0) :
    ruleRecording norm maxWeightMatching fmt lift a b name r =
      some (ruledFindings norm maxWeightMatching fmt name r0 n0 (controlRuns r)) := by
  have hruled : ∀ t ∈ n0.truth, ruleTruth norm fmt name n0.unit r0 (controlRuns r) t =
      some (((truthOf r0 t.truth).map fun was =>
        holeFindings norm fmt name n0.unit was t (under (controlRuns r) t.truth)).getD []) := by
    intro t ht
    obtain ⟨⟨was, hwas⟩, hshifted⟩ := exists_truthOf_of_ran hr halike ht
    rw [ruleTruth_eq_some hwas hshifted, hwas]
    rfl
  unfold ruleRecording
  rw [hn, Option.bind_some, hn0.atZero, Option.map_some, hr.atZero]
  simp only [Option.bind_some, refusal_eq_none.mpr hcomparable]
  rw [mapM_eq_some_filterMap fun t ht => ⟨_, hruled t ht⟩, List.filterMap_congr hruled, List.filterMap_eq_map',
    Option.map_some, ruledFindings, List.flatMap_def]

private theorem holeFindings_recording {others : List (Truth R)} :
    ∀ x ∈ holeFindings norm fmt name unit was t others, x.recording = name := by
  unfold holeFindings
  split <;> grind [note]

private theorem rulePositives_recording :
    ∀ x ∈ rulePositives norm maxWeightMatching fmt name r0 n0 shifted, x.recording = name := by
  intro x hx
  rcases List.mem_append.mp hx with hx | hx
  · obtain ⟨i, -, rfl⟩ := List.mem_map.mp hx
    rfl
  · obtain ⟨j, -, rfl⟩ := List.mem_map.mp hx
    rfl

private theorem ruledFindings_recording :
    ∀ x ∈ ruledFindings norm maxWeightMatching fmt name r0 n0 shifted, x.recording = name := by
  intro x hx
  rcases List.mem_append.mp hx with hx | hx
  · obtain ⟨t, -, hx⟩ := List.mem_flatMap.mp hx
    cases hwas : truthOf r0 t.truth with
    | none =>
      rw [hwas] at hx
      cases hx
    | some was =>
      rw [hwas] at hx
      exact holeFindings_recording x hx
  · exact rulePositives_recording x hx

/-- What is found on a recording of the reference. -/
theorem exists_ruleRecording (norm : R × R → R)
    (maxWeightMatching : (V : Type) → [DecidableEq V] → WeightedGraph V R → List (V × V))
    (fmt : Format → R → String) (lift : Bool)
    (ha : a.Ran) (hb : b.Ran) (halike : NumberedAlike a b) (hr : a.recordings.get name = some r) :
    ∃ found, ruleRecording norm maxWeightMatching fmt lift a b name r = some found ∧
      ∀ x ∈ found, x.recording = name := by
  obtain ⟨r0, hr0⟩ := ha.ran name r hr
  cases hn : b.recordings.get name with
  | none =>
    refine ⟨_, ruleRecording_of_none hn, fun x hx => ?_⟩
    rw [List.mem_singleton.mp hx]
    rfl
  | some n =>
    obtain ⟨n0, hn0⟩ := hb.ran name n hn
    by_cases hcomparable : Comparable fmt lift a b r n r0 n0
    · exact ⟨_, ruleRecording_of_comparable hn hr0 hn0
        (halike name r n r0 n0 hr hn hr0 hn0 hcomparable.truths) hcomparable,
        ruledFindings_recording⟩
    · obtain ⟨detail, hdetail⟩ := ruleRecording_of_not_comparable norm maxWeightMatching hn hr0 hn0 hcomparable
      refine ⟨_, hdetail, fun x hx => ?_⟩
      rw [List.mem_singleton.mp hx]
      rfl

def findings (norm : R × R → R) (maxWeightMatching : (V : Type) → [DecidableEq V] → WeightedGraph V R → List (V × V))
    (fmt : Format → R → String) (lift : Bool) (a b : Result R) : List Finding :=
  resultFindings a b ++
    (a.recordings.filterMap fun entry => ruleRecording norm maxWeightMatching fmt lift a b entry.1 entry.2).flatten

def recordingFindings (norm : R × R → R)
    (maxWeightMatching : (V : Type) → [DecidableEq V] → WeightedGraph V R → List (V × V))
    (fmt : Format → R → String) (lift : Bool) (a b : Result R) (name : String) : List Finding :=
  ((a.recordings.get name).bind (ruleRecording norm maxWeightMatching fmt lift a b name)).getD []

def liftStride (acrossStrides : Bool) (a : Result R) : Bool := acrossStrides && a.stride == 1

theorem compare_eq (ha : a.Ran) (hb : b.Ran) (halike : NumberedAlike a b) (acrossStrides : Bool) :
    RegressionRule.compare norm maxWeightMatching fmt a b acrossStrides =
      some (findings norm maxWeightMatching fmt (liftStride acrossStrides a) a b,
        !(findings norm maxWeightMatching fmt (liftStride acrossStrides a) a b).any fun f => f.fails) := by
  have hruled : ∀ entry ∈ a.recordings, ∃ found,
      ruleRecording norm maxWeightMatching fmt (liftStride acrossStrides a) a b entry.1 entry.2 = some found := by
    intro entry hentry
    obtain ⟨found, hfound, -⟩ := exists_ruleRecording norm maxWeightMatching fmt (liftStride acrossStrides a)
      ha hb halike (Dict.get_of_mem ha.names hentry)
    exact ⟨found, hfound⟩
  unfold RegressionRule.compare
  unfold liftStride at hruled
  simp only [mapM_eq_some_filterMap hruled, Option.map_some]
  rfl

omit [Field R] [LinearOrder R] in
private theorem resultFindings_kind : ∀ x ∈ resultFindings a b, x.kind = .model ∨ x.kind = .notComparable := by
  intro x hx
  rcases List.mem_append.mp hx with hx | hx
  · split_ifs at hx
    · rw [List.mem_singleton.mp hx]
      exact .inl rfl
    · cases hx
  · obtain ⟨name, -, rfl⟩ := List.mem_map.mp hx
    exact .inr rfl

/-- The holes of the findings of a kind on a recording. -/
def holesOf (kind : Kind) (findings : List Finding) (name : String) : List String :=
  ((findings.filter fun x => x.recording = name).filter fun x => x.kind = kind).map fun x => x.hole

theorem holesOf_findings (ha : a.Ran) (hb : b.Ran) (halike : NumberedAlike a b) (kind : Kind)
    (hmodel : kind ≠ .model) (hnot : kind ≠ .notComparable) :
    holesOf kind (findings norm maxWeightMatching fmt lift a b) name =
      (((recordingFindings norm maxWeightMatching fmt lift a b name).filter fun x => x.kind = kind).map
          fun x => x.hole) := by
  have hwhole : (((resultFindings a b).filter fun x => x.recording = name).filter fun x => x.kind = kind) = [] := by
    refine List.filter_eq_nil_iff.mpr fun x hx => ?_
    rw [decide_eq_true_iff]
    rcases resultFindings_kind x (List.mem_filter.mp hx).1 with hkind | hkind
    · exact fun heq => hmodel (heq.symm.trans hkind)
    · exact fun heq => hnot (heq.symm.trans hkind)
  unfold holesOf findings
  rw [List.filter_append, List.filter_append, hwhole, List.nil_append, filter_ruled ha.names, recordingFindings]
  intro entry hentry found hfound
  obtain ⟨found', hfound', hname⟩ := exists_ruleRecording norm maxWeightMatching fmt lift ha hb halike
    (Dict.get_of_mem ha.names hentry)
  rw [hfound] at hfound'
  exact Option.some.inj hfound' ▸ hname

def Missed (u : Truth R) : Prop :=
  match u.outcome with
  | .fn => True
  | _ => False

instance (u : Truth R) : Decidable (Missed u) :=
  decidable_of_iff ((match u.outcome with
    | .fn => true
    | _ => false) = true) (by
      unfold Missed
      split <;> simp)

/-- The two runs' records of a truth are related by `p`. -/
def relatedAt (p : Truth R → Truth R → Bool) (r0 n0 : ShiftResult R) (j : ℕ) : Bool :=
  match truthOf r0 j, truthOf n0 j with
  | some was, some t => p was t
  | _, _ => false

def isLost (was t : Truth R) : Bool := Found was ∧ Missed t

def isGained (was t : Truth R) : Bool := Missed was ∧ Found t

private theorem holes_lost (others : List (Truth R)) :
    (((holeFindings norm fmt name unit was t others).filter fun x => x.kind = .lost).map fun x => x.hole) =
      if isLost was t then ["truth #" ++ toString t.truth] else [] := by
  unfold holeFindings isLost Found Missed
  split <;> simp_all [note]

private theorem holes_gained (others : List (Truth R)) :
    (((holeFindings norm fmt name unit was t others).filter fun x => x.kind = .gained).map fun x => x.hole) =
      if isGained was t then ["truth #" ++ toString t.truth] else [] := by
  unfold holeFindings isGained Found Missed
  split <;> simp_all [note]

private theorem rulePositives_kind :
    ∀ x ∈ rulePositives norm maxWeightMatching fmt name r0 n0 shifted, x.kind = .added ∨ x.kind = .removed := by
  intro x hx
  rcases List.mem_append.mp hx with hx | hx
  · obtain ⟨i, -, rfl⟩ := List.mem_map.mp hx
    exact .inl rfl
  · obtain ⟨j, -, rfl⟩ := List.mem_map.mp hx
    exact .inr rfl

/-- A kind found of some holes is found of those whose two records are related, by their numbers. -/
theorem holes_ruledFindings (kind : Kind) (p : Truth R → Truth R → Bool) (hadded : kind ≠ .added)
    (hremoved : kind ≠ .removed) (hholes : ∀ was t (others : List (Truth R)),
      (((holeFindings norm fmt name n0.unit was t others).filter fun x => x.kind = kind).map fun x => x.hole) =
        if p was t then ["truth #" ++ toString t.truth] else [])
    (hnodup : (numbers n0).Nodup) :
    (((ruledFindings norm maxWeightMatching fmt name r0 n0 shifted).filter fun x => x.kind = kind).map
        fun x => x.hole) =
      (numbers n0).flatMap fun j => if relatedAt p r0 n0 j then ["truth #" ++ toString j] else [] := by
  have hpositives : ((rulePositives norm maxWeightMatching fmt name r0 n0 shifted).filter
      fun x => x.kind = kind) = [] := by
    refine List.filter_eq_nil_iff.mpr fun x hx => ?_
    rw [decide_eq_true_iff]
    rcases rulePositives_kind x hx with hkind | hkind
    · exact fun heq => hadded (heq.symm.trans hkind)
    · exact fun heq => hremoved (heq.symm.trans hkind)
  unfold ruledFindings numbers
  rw [List.filter_append, hpositives, List.append_nil, List.filter_flatMap, List.map_flatMap, List.flatMap_map]
  refine List.flatMap_congr fun t ht => ?_
  unfold relatedAt
  rw [truthOf_of_mem hnodup ht]
  cases hwas : truthOf r0 t.truth with
  | none => rfl
  | some was => exact hholes was t _

omit [Field R] [LinearOrder R] in
/-- A hole lost one way is gained the other. -/
theorem relatedAt_mirror (r0 n0 : ShiftResult R) (j : ℕ) : relatedAt isLost r0 n0 j = relatedAt isGained n0 r0 j := by
  unfold relatedAt
  cases truthOf r0 j <;> cases truthOf n0 j
  · rfl
  · rfl
  · rfl
  · exact decide_eq_decide.mpr and_comm

private theorem holeFindings_kind {others : List (Truth R)} :
    ∀ x ∈ holeFindings norm fmt name unit was t others, x.kind ≠ .added ∧ x.kind ≠ .removed := by
  unfold holeFindings
  split <;> grind [note]

theorem positives_ruledFindings {kind : Kind} (hkind : kind = .added ∨ kind = .removed) :
    ((ruledFindings norm maxWeightMatching fmt name r0 n0 shifted).filter fun x => x.kind = kind) =
      (rulePositives norm maxWeightMatching fmt name r0 n0 shifted).filter fun x => x.kind = kind := by
  unfold ruledFindings
  rw [List.filter_append, List.append_left_eq_self, List.filter_eq_nil_iff]
  intro x hx
  rw [decide_eq_true_iff]
  obtain ⟨t, -, hx⟩ := List.mem_flatMap.mp hx
  cases hwas : truthOf r0 t.truth with
  | none =>
    rw [hwas] at hx
    cases hx
  | some was =>
    rw [hwas] at hx
    obtain ⟨hadded, hremoved⟩ := holeFindings_kind x hx
    rcases hkind with rfl | rfl
    · exact hadded
    · exact hremoved

private theorem length_added :
    ((rulePositives norm maxWeightMatching fmt name r0 n0 shifted).filter fun x => x.kind = .added).length =
      (unpaired norm maxWeightMatching r0 n0).length := by
  unfold rulePositives
  simp [note, List.filter_map, Function.comp_def]

private theorem length_removed :
    ((rulePositives norm maxWeightMatching fmt name r0 n0 shifted).filter fun x => x.kind = .removed).length =
      (matchedPositives norm maxWeightMatching r0 n0).missed.length := by
  unfold rulePositives
  simp [note, List.filter_map, Function.comp_def]

/-- As many false positives are left over one way as the other. -/
theorem length_unpaired [IsStrictOrderedRing R] (hcorrect : Correct maxWeightMatching) (hnorm : ∀ v, norm (-v) = norm v)
    (r0 n0 : ShiftResult R) :
    (unpaired norm maxWeightMatching r0 n0).length = (matchedPositives norm maxWeightMatching n0 r0).missed.length := by
  have h : Optimal norm _ _ _ (matchedPositives norm maxWeightMatching r0 n0) := matchMarks_optimal norm hcorrect _ _ _
  have hswapped : Optimal norm _ _ _ (matchedPositives norm maxWeightMatching n0 r0) :=
      matchMarks_optimal norm hcorrect _ _ _
  have hle := h.length_le_swap hnorm hswapped
  have hge := hswapped.length_le_swap hnorm h
  have hunpaired := h.length_unpaired
  have hmissed := hswapped.length_missed
  unfold unpaired
  omega

/-- A recording is ruled on both ways or neither. -/
theorem recordingFindings_cases (norm : R × R → R)
    (maxWeightMatching : (V : Type) → [DecidableEq V] → WeightedGraph V R → List (V × V))
    (fmt : Format → R → String) (lift : Bool) (ha : a.Ran) (hb : b.Ran) (halike : NumberedAlike a b) (name : String) :
    (∃ r n r0 n0, r.Ran r0 ∧ n.Ran n0 ∧ numbers r0 = numbers n0 ∧
      recordingFindings norm maxWeightMatching fmt lift a b name =
        ruledFindings norm maxWeightMatching fmt name r0 n0 (controlRuns r) ∧
      recordingFindings norm maxWeightMatching fmt lift b a name =
        ruledFindings norm maxWeightMatching fmt name n0 r0 (controlRuns n)) ∨
    ((∀ x ∈ recordingFindings norm maxWeightMatching fmt lift a b name, x.kind = .notRun ∨ x.kind = .notComparable) ∧
      ∀ x ∈ recordingFindings norm maxWeightMatching fmt lift b a name,
        x.kind = .notRun ∨ x.kind = .notComparable) := by
  have hone : ∀ {c d : Result R}, d.recordings.get name = none →
      ∀ x ∈ recordingFindings norm maxWeightMatching fmt lift c d name, x.kind = .notRun ∨ x.kind = .notComparable := by
    intro c d hd x hx
    unfold recordingFindings at hx
    cases hc : c.recordings.get name with
    | none =>
      rw [hc] at hx
      cases hx
    | some r =>
      rw [hc, Option.bind_some, ruleRecording_of_none hd, Option.getD_some, List.mem_singleton] at hx
      rw [hx]
      exact .inl rfl
  have hnone : ∀ {c d : Result R}, c.recordings.get name = none →
      ∀ x ∈ recordingFindings norm maxWeightMatching fmt lift c d name, x.kind = .notRun ∨ x.kind = .notComparable := by
    intro c d hc x hx
    rw [recordingFindings, hc] at hx
    cases hx
  cases hr : a.recordings.get name with
  | none => exact .inr ⟨hnone hr, hone hr⟩
  | some r =>
    cases hn : b.recordings.get name with
    | none => exact .inr ⟨hone hn, hnone hn⟩
    | some n =>
      obtain ⟨r0, hr0⟩ := ha.ran name r hr
      obtain ⟨n0, hn0⟩ := hb.ran name n hn
      by_cases hcomparable : Comparable fmt lift a b r n r0 n0
      · have heq := halike name r n r0 n0 hr hn hr0 hn0 hcomparable.truths
        refine .inl ⟨r, n, r0, n0, hr0, hn0, heq, ?_, ?_⟩
        · rw [recordingFindings, hr, Option.bind_some, ruleRecording_of_comparable hn hr0 hn0 heq hcomparable]
          rfl
        · rw [recordingFindings, hn, Option.bind_some, ruleRecording_of_comparable hr hn0 hr0 heq.symm hcomparable.symm]
          rfl
      · obtain ⟨detail, hdetail⟩ := ruleRecording_of_not_comparable norm maxWeightMatching hn hr0 hn0 hcomparable
        obtain ⟨detail', hdetail'⟩ := ruleRecording_of_not_comparable norm maxWeightMatching hr hn0 hr0
          (fun h => hcomparable h.symm)
        refine .inr ⟨fun x hx => ?_, fun x hx => ?_⟩
        · rw [recordingFindings, hr, Option.bind_some, hdetail, Option.getD_some, List.mem_singleton] at hx
          rw [hx]
          exact .inr rfl
        · rw [recordingFindings, hn, Option.bind_some, hdetail', Option.getD_some, List.mem_singleton] at hx
          rw [hx]
          exact .inr rfl

/-- What one way loses the other way gains, and what one way adds the other way removes. -/
theorem holesOf_mirror [IsStrictOrderedRing R] (hcorrect : Correct maxWeightMatching) (hnorm : ∀ v, norm (-v) = norm v)
    (ha : a.Ran) (hb : b.Ran) (halike : NumberedAlike a b) (name : String) :
    holesOf .lost (findings norm maxWeightMatching fmt lift a b) name =
        holesOf .gained (findings norm maxWeightMatching fmt lift b a) name ∧
      (holesOf .added (findings norm maxWeightMatching fmt lift a b) name).length =
        (holesOf .removed (findings norm maxWeightMatching fmt lift b a) name).length := by
  have hnone : ∀ {list : List Finding} (kind : Kind), kind ≠ .notRun → kind ≠ .notComparable →
      (∀ x ∈ list, x.kind = .notRun ∨ x.kind = .notComparable) → list.filter (fun x => x.kind = kind) = [] := by
    intro list kind hrun hnot hlist
    refine List.filter_eq_nil_iff.mpr fun x hx => ?_
    rw [decide_eq_true_iff]
    rcases hlist x hx with hkind | hkind
    · exact fun heq => hrun (heq.symm.trans hkind)
    · exact fun heq => hnot (heq.symm.trans hkind)
  rw [holesOf_findings ha hb halike .lost (by decide) (by decide),
    holesOf_findings hb ha halike.symm .gained (by decide) (by decide),
    holesOf_findings ha hb halike .added (by decide) (by decide),
    holesOf_findings hb ha halike.symm .removed (by decide) (by decide)]
  rcases recordingFindings_cases norm maxWeightMatching fmt lift ha hb halike name with
    ⟨r, n, r0, n0, hr0, hn0, heq, hab, hba⟩ | ⟨hab, hba⟩
  · rw [hab, hba]
    constructor
    · rw [holes_ruledFindings .lost isLost (by decide) (by decide) (fun _ _ => holes_lost) hn0.nodup,
        holes_ruledFindings .gained isGained (by decide) (by decide) (fun _ _ => holes_gained) hr0.nodup, heq]
      refine List.flatMap_congr fun j _ => ?_
      rw [relatedAt_mirror r0 n0 j]
    · rw [List.length_map, List.length_map, positives_ruledFindings (.inl rfl), positives_ruledFindings (.inr rfl),
        length_added, length_removed, length_unpaired hcorrect hnorm]
  · rw [hnone .lost (by decide) (by decide) hab, hnone .gained (by decide) (by decide) hba,
      hnone .added (by decide) (by decide) hab, hnone .removed (by decide) (by decide) hba]
    exact ⟨rfl, rfl⟩

omit [Field R] [LinearOrder R] in
theorem count_recording (kind : Kind) (list : List Finding) :
    ((list.filter fun x => x.kind = kind).map fun x => x.recording).count name = (holesOf kind list name).length := by
  unfold holesOf
  induction list with
  | nil => rfl
  | cons x list ih =>
    by_cases hkind : x.kind = kind <;> by_cases hname : x.recording = name <;>
      simp_all

/-- As many false positives are added in all as the other way removes. -/
theorem length_added_mirror [IsStrictOrderedRing R] (hcorrect : Correct maxWeightMatching)
    (hnorm : ∀ v, norm (-v) = norm v) (ha : a.Ran) (hb : b.Ran) (halike : NumberedAlike a b) :
    ((findings norm maxWeightMatching fmt lift a b).filter fun x => x.kind = .added).length =
      ((findings norm maxWeightMatching fmt lift b a).filter fun x => x.kind = .removed).length := by
  have hperm : (((findings norm maxWeightMatching fmt lift a b).filter fun x => x.kind = .added).map
      fun x => x.recording).Perm
      (((findings norm maxWeightMatching fmt lift b a).filter fun x => x.kind = .removed).map
        fun x => x.recording) := by
    refine List.perm_iff_count.mpr fun name => ?_
    rw [count_recording, count_recording]
    exact (holesOf_mirror hcorrect hnorm ha hb halike name).2
  have hlength := hperm.length_eq
  rwa [List.length_map, List.length_map] at hlength

/-- Some shifted run's record of the truth is such. -/
def Shown (shifted : List (ShiftResult R)) (j : ℕ) (p : Truth R → Prop) : Prop :=
  ∃ s ∈ shifted, ∃ u ∈ s.truth, u.truth = j ∧ p u

/-- A hole lost, moved or over the limit is so under some shifted run too. -/
structure HoleExcused (norm : R × R → R) (shifted : List (ShiftResult R)) (was t : Truth R) : Prop where
  lost : Found was → Missed t → Shown shifted t.truth fun u => ¬ Found u
  moved : ∀ dx dy, was.outcome = .tp dx dy → MovedFrom norm dx dy t → Shown shifted t.truth (MovedFrom norm dx dy)
  overLimit : Found was → IsOver t → Shown shifted t.truth IsOver

/-- A false positive added is near one of some shifted run. -/
def AddedExcused (norm : R × R → R)
    (maxWeightMatching : (V : Type) → [DecidableEq V] → WeightedGraph V R → List (V × V))
    (r0 n0 : ShiftResult R) (shifted : List (ShiftResult R)) : Prop :=
  ∀ i ∈ unpaired norm maxWeightMatching r0 n0, ∃ s ∈ shifted, ∃ c ∈ points s.falsePositives,
    norm (c - (points n0.falsePositives).get i) ≤ MATCH_TOLERANCE_TPL

omit [Field R] [LinearOrder R] in
theorem shown_iff {j : ℕ} {p : Truth R → Prop} [DecidablePred p] (hnodup : ∀ s ∈ shifted, (numbers s).Nodup) :
    ((under shifted j).any fun u => p u) = true ↔ Shown shifted j p := by
  unfold under Shown
  simp only [List.any_eq_true, List.mem_filterMap, decide_eq_true_eq]
  constructor
  · rintro ⟨u, ⟨s, hs, hu⟩, hp⟩
    obtain ⟨hmem, hj⟩ := (truthOf_eq_some_iff (hnodup s hs)).mp hu
    exact ⟨s, hs, u, hmem, hj, hp⟩
  · rintro ⟨s, hs, u, hmem, hj, hp⟩
    exact ⟨u, ⟨s, hs, (truthOf_eq_some_iff (hnodup s hs)).mpr ⟨hmem, hj⟩⟩, hp⟩

omit [Field R] [LinearOrder R] in
theorem forall_mem_ite {α : Type} {c : Prop} [Decidable c] {y : α} {p : α → Prop} :
    (∀ x ∈ if c then [y] else [], p x) ↔ (c → p y) := by
  split_ifs with hc
  · simp [hc]
  · simp [hc]

theorem note_fails {kind : Kind} {hole detail : String} {noise : Bool} (hkind : kind ∈ FAILS) :
    (note name kind hole detail noise).fails = false ↔ noise = true := by
  simp [note, hkind]

theorem note_reports {kind : Kind} {hole detail : String} {noise : Bool} (hkind : kind ∉ FAILS) :
    (note name kind hole detail noise).fails = false := by
  simp [note, hkind]

theorem holeFindings_fail (hnodup : ∀ s ∈ shifted, (numbers s).Nodup) :
    (∀ x ∈ holeFindings norm fmt name unit was t (under shifted t.truth), x.fails = false) ↔
      HoleExcused norm shifted was t := by
  obtain ⟨j, outcome⟩ := t
  obtain ⟨j', outcome'⟩ := was
  cases outcome' with
  | outOfScope =>
    refine iff_of_true ?_ ⟨nofun, nofun, nofun⟩
    cases outcome <;> simp [holeFindings, note, FAILS]
  | fn =>
    refine iff_of_true ?_ ⟨nofun, nofun, nofun⟩
    cases outcome <;> simp [holeFindings, note, FAILS]
  | tp dx dy =>
    cases outcome with
    | outOfScope =>
      refine iff_of_true ?_ ⟨nofun, nofun, nofun⟩
      simp [holeFindings, note, FAILS]
    | fn =>
      have hlost : (∀ x ∈ holeFindings norm fmt name unit ⟨j', .tp dx dy⟩ ⟨j, .fn⟩ (under shifted j), x.fails = false) ↔
          Shown shifted j fun u => ¬ Found u := by
        rw [← shown_iff hnodup]
        exact List.forall_mem_singleton.trans (note_fails (by decide))
      exact hlost.trans ⟨fun h => ⟨fun _ _ => h, nofun, nofun⟩, fun h => h.lost trivial trivial⟩
    | tp dx' dy' =>
      have hover : (Over dx' dy' → ((under shifted j).any fun u => IsOver u) = true) ↔
        (IsOver ⟨j, .tp dx' dy'⟩ → Shown shifted j IsOver) := imp_congr_right fun _ => shown_iff hnodup
      have hmoved : (MOVE_MM < movedBy norm dx dy dx' dy' →
          ((under shifted j).any fun u => MovedFrom norm dx dy u) = true) ↔
        (MovedFrom norm dx dy ⟨j, .tp dx' dy'⟩ → Shown shifted j (MovedFrom norm dx dy)) :=
          imp_congr_right fun _ => shown_iff hnodup
      have hsplit : (∀ x ∈ holeFindings norm fmt name unit ⟨j', .tp dx dy⟩ ⟨j, .tp dx' dy'⟩ (under shifted j),
          x.fails = false) ↔
          (MOVE_MM < movedBy norm dx dy dx' dy' → ((under shifted j).any fun u => MovedFrom norm dx dy u) = true) ∧
            (Over dx' dy' → ((under shifted j).any fun u => IsOver u) = true) := by
        refine List.forall_mem_append.trans (and_congr ?_ ?_)
        · exact forall_mem_ite.trans (imp_congr_right fun _ => note_fails (by decide))
        · exact forall_mem_ite.trans (imp_congr_right fun _ => note_fails (by decide))
      rw [hsplit, hmoved, hover]
      constructor
      · rintro ⟨hm, ho⟩
        refine ⟨nofun, fun x y hwas => ?_, fun _ => ho⟩
        cases hwas
        exact hm
      · exact fun h => ⟨h.moved dx dy rfl, h.overLimit trivial⟩

private theorem nearShifted_iff {p : R × R} : NearShifted norm shifted p ↔
    ∃ s ∈ shifted, ∃ c ∈ points s.falsePositives, norm (c - p) ≤ MATCH_TOLERANCE_TPL := by
  refine exists_congr fun s => and_congr_right fun _ => ?_
  rw [List.minimum_le_coe_iff]
  simp only [List.mem_map, exists_exists_and_eq_and]

private theorem rulePositives_fail :
    (∀ x ∈ rulePositives norm maxWeightMatching fmt name r0 n0 shifted, x.fails = false) ↔
      AddedExcused norm maxWeightMatching r0 n0 shifted := by
  unfold rulePositives AddedExcused
  rw [List.forall_mem_append, List.forall_mem_map, List.forall_mem_map, and_iff_left]
  · refine forall₂_congr fun i _ => (note_fails (by decide)).trans ?_
    rw [decide_eq_true_iff, nearShifted_iff]
  · exact fun j _ => note_reports (by decide)

/-- A recording run both times passes. -/
structure Passes (norm : R × R → R)
    (maxWeightMatching : (V : Type) → [DecidableEq V] → WeightedGraph V R → List (V × V))
    (fmt : Format → R → String) (lift : Bool) (a b : Result R) (r n : Recording R) (r0 n0 : ShiftResult R) : Prop where
  comparable : Comparable fmt lift a b r n r0 n0
  holes : ∀ was ∈ r0.truth, ∀ t ∈ n0.truth, was.truth = t.truth → HoleExcused norm (controlRuns r) was t
  added : AddedExcused norm maxWeightMatching r0 n0 (controlRuns r)

omit [Field R] [LinearOrder R] in
theorem nodup_control (hr : r.Ran r0) : ∀ s ∈ controlRuns r, (numbers s).Nodup :=
  fun s hs => (hr.alike s hs).symm ▸ hr.nodup

private theorem ruledFindings_fail (hr : r.Ran r0) (halike : numbers r0 = numbers n0) :
    (∀ x ∈ ruledFindings norm maxWeightMatching fmt name r0 n0 (controlRuns r), x.fails = false) ↔
      (∀ was ∈ r0.truth, ∀ t ∈ n0.truth, was.truth = t.truth → HoleExcused norm (controlRuns r) was t) ∧
        AddedExcused norm maxWeightMatching r0 n0 (controlRuns r) := by
  unfold ruledFindings
  rw [List.forall_mem_append, rulePositives_fail, List.forall_mem_flatMap]
  refine and_congr_left fun _ => ⟨fun h was hwas t ht heq => ?_, fun h t ht => ?_⟩
  · have hfind := truthOf_of_mem hr.nodup hwas
    have hholes := h t ht
    rw [← heq, hfind] at hholes
    rw [heq] at hholes
    exact (holeFindings_fail (nodup_control hr)).mp hholes
  · obtain ⟨⟨was, hwas⟩, -⟩ := exists_truthOf_of_ran hr halike ht
    obtain ⟨hmem, heq⟩ := (truthOf_eq_some_iff hr.nodup).mp hwas
    rw [hwas]
    exact (holeFindings_fail (nodup_control hr)).mpr (h was hmem t ht heq)

/-- Nothing found on a recording fails just if both results ran it and it passes. -/
theorem ruleRecording_fail (ha : a.Ran) (hb : b.Ran) (halike : NumberedAlike a b) {found : List Finding}
    (hr : a.recordings.get name = some r)
    (hfound : ruleRecording norm maxWeightMatching fmt lift a b name r = some found) :
    (∀ x ∈ found, x.fails = false) ↔ name ∈ b.recordings.keys ∧ ∀ n r0 n0, b.recordings.get name = some n → r.Ran r0 →
      n.Ran n0 → Passes norm maxWeightMatching fmt lift a b r n r0 n0 := by
  obtain ⟨r0, hr0⟩ := ha.ran name r hr
  have huniq : ∀ {r : Recording R} {s s' : ShiftResult R}, r.Ran s → r.Ran s' → s = s' :=
    fun hs hs' => Option.some.inj (hs.atZero.symm.trans hs'.atZero)
  cases hn : b.recordings.get name with
  | none =>
    rw [ruleRecording_of_none hn] at hfound
    cases hfound
    refine iff_of_false (fun h => ?_) fun h => Dict.get_eq_none.mp hn h.1
    have hfails := h _ List.mem_cons_self
    rw [note_fails (by decide)] at hfails
    cases hfails
  | some n =>
    obtain ⟨n0, hn0⟩ := hb.ran name n hn
    have hkey : name ∈ b.recordings.keys := List.mem_map_of_mem (Dict.mem_of_get hn)
    rw [and_iff_right hkey]
    have hpasses : (∀ n' r0 n0, some n = some n' → r.Ran r0 → n'.Ran n0 →
        Passes norm maxWeightMatching fmt lift a b r n' r0 n0) ↔
          Passes norm maxWeightMatching fmt lift a b r n r0 n0 := by
      refine ⟨fun h => h n r0 n0 rfl hr0 hn0, fun h n' r0' n0' heq hr0' hn0' => ?_⟩
      cases heq
      rw [huniq hr0' hr0, huniq hn0' hn0]
      exact h
    rw [hpasses]
    by_cases hcomparable : Comparable fmt lift a b r n r0 n0
    · have hnumbers := halike name r n r0 n0 hr hn hr0 hn0 hcomparable.truths
      rw [ruleRecording_of_comparable hn hr0 hn0 hnumbers hcomparable] at hfound
      cases hfound
      rw [ruledFindings_fail hr0 hnumbers]
      exact ⟨fun h => ⟨hcomparable, h.1, h.2⟩, fun h => ⟨h.holes, h.added⟩⟩
    · obtain ⟨detail, hdetail⟩ := ruleRecording_of_not_comparable norm maxWeightMatching hn hr0 hn0 hcomparable
      rw [hdetail] at hfound
      cases hfound
      refine iff_of_false (fun h => ?_) fun h => hcomparable h.comparable
      have hfails := h _ List.mem_cons_self
      rw [note_fails (by decide)] at hfails
      cases hfails

omit [Field R] [LinearOrder R] in
private theorem resultFindings_fail :
    (∀ x ∈ resultFindings a b, x.fails = false) ↔ ∀ name ∈ b.recordings.keys, name ∈ a.recordings.keys := by
  unfold resultFindings
  rw [List.forall_mem_append, List.forall_mem_map, and_iff_right]
  · simp only [List.mem_filter, decide_eq_true_eq, note_fails (show Kind.notComparable ∈ FAILS by decide), reduceCtorEq]
    exact ⟨fun h name hb => by_contra fun hnot => h name ⟨hb, hnot⟩, fun h name hname => hname.2 (h name hname.1)⟩
  · exact forall_mem_ite.mpr fun _ => note_reports (by decide)

/-- A result passes just if both have the same recordings and each of them passes. -/
theorem findings_pass (ha : a.Ran) (hb : b.Ran) (halike : NumberedAlike a b) :
    (!(findings norm maxWeightMatching fmt lift a b).any fun f => f.fails) = true ↔
      (∀ name, name ∈ a.recordings.keys ↔ name ∈ b.recordings.keys) ∧
      ∀ name r n r0 n0, a.recordings.get name = some r → b.recordings.get name = some n → r.Ran r0 → n.Ran n0 →
        Passes norm maxWeightMatching fmt lift a b r n r0 n0 := by
  have hany : (!(findings norm maxWeightMatching fmt lift a b).any fun f => f.fails) = true ↔
      ∀ x ∈ findings norm maxWeightMatching fmt lift a b, x.fails = false := by
    rw [Bool.not_eq_true', List.any_eq_false]
    simp only [Bool.not_eq_true]
  rw [hany, findings, List.forall_mem_append, resultFindings_fail]
  have hrules : (∀ x ∈ (a.recordings.filterMap fun entry =>
      ruleRecording norm maxWeightMatching fmt lift a b entry.1 entry.2).flatten, x.fails = false) ↔
      ∀ name r, a.recordings.get name = some r → name ∈ b.recordings.keys ∧ ∀ n r0 n0, b.recordings.get name = some n →
        r.Ran r0 → n.Ran n0 → Passes norm maxWeightMatching fmt lift a b r n r0 n0 := by
    constructor
    · intro h name r hr
      obtain ⟨found, hfound, -⟩ := exists_ruleRecording norm maxWeightMatching fmt lift ha hb halike hr
      refine (ruleRecording_fail ha hb halike hr hfound).mp fun x hx => h x ?_
      exact List.mem_flatten.mpr ⟨found, List.mem_filterMap.mpr ⟨(name, r), Dict.mem_of_get hr, hfound⟩, hx⟩
    · intro h x hx
      obtain ⟨found, hmem, hx⟩ := List.mem_flatten.mp hx
      obtain ⟨⟨name, r⟩, hentry, hfound⟩ := List.mem_filterMap.mp hmem
      have hr := Dict.get_of_mem ha.names hentry
      exact (ruleRecording_fail ha hb halike hr hfound).mpr (h name r hr) x hx
  rw [hrules]
  have hget : ∀ name, name ∈ a.recordings.keys ↔ ∃ r, a.recordings.get name = some r := by
    intro name
    rw [← not_iff_not, ← Dict.get_eq_none, Option.eq_none_iff_forall_ne_some, not_exists]
  constructor
  · rintro ⟨hwhole, hall⟩
    refine ⟨fun name => ⟨fun hname => ?_, hwhole name⟩,
      fun name r n r0 n0 hr hn hr0 hn0 => (hall name r hr).2 n r0 n0 hn hr0 hn0⟩
    obtain ⟨r, hr⟩ := (hget name).mp hname
    exact (hall name r hr).1
  · rintro ⟨hsame, hall⟩
    refine ⟨fun name => (hsame name).mpr, fun name r hr => ⟨(hsame name).mp ((hget name).mpr ⟨r, hr⟩), ?_⟩⟩
    exact fun n r0 n0 hn hr0 hn0 => hall name r n r0 n0 hr hn hr0 hn0

end Kanat.RegressionLaws
