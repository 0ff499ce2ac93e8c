import Mathlib.Data.List.Infix

/-! # The first stretch of a text between two delimiters

Over any alphabet. `firstMatch` looks for an opening and, past it, for a closing; its lemmas say what text put before
or after changes of what it finds. -/
namespace Kanat.DelimitedMatch

variable {α : Type} [DecidableEq α] {opening closing text pre mid post found p : List α}

/-- The shortest beginning of a text that ends with `closing`. -/
def throughFirst (closing : List α) : List α → Option (List α)
  | [] => none
  | c :: text =>
      if closing <+: c :: text then some closing else (throughFirst closing text).map (c :: ·)

/-- The leftmost stretch from `opening` through the first `closing` after it. -/
def firstMatch (opening closing : List α) : List α → Option (List α)
  | [] => none
  | c :: text =>
      if opening <+: c :: text then
        match throughFirst closing ((c :: text).drop opening.length) with
        | some found => some (opening ++ found)
        | none => firstMatch opening closing text
      else firstMatch opening closing text

theorem throughFirst_cons {c : α} : throughFirst closing (c :: text) =
    if closing <+: c :: text then some closing else (throughFirst closing text).map (c :: ·) := rfl

theorem firstMatch_cons {c : α} : firstMatch opening closing (c :: text) =
    if opening <+: c :: text then
      match throughFirst closing ((c :: text).drop opening.length) with
      | some found => some (opening ++ found)
      | none => firstMatch opening closing text
    else firstMatch opening closing text := rfl

/-- No end of the delimiter begins the text, so none is completed by it. -/
def Fresh (p text : List α) : Prop :=
  ∀ t, t ≠ [] → t <:+ p → ¬t <+: text

omit [DecidableEq α] in
theorem Fresh.of_prefix (h : Fresh p text) (hpre : pre <+: text) : Fresh p pre :=
  fun t ht hsuffix hbegins => h t ht hsuffix (hbegins.trans hpre)

omit [DecidableEq α] in
theorem fresh_nil : Fresh p [] :=
  fun _ ht _ hbegins => ht (List.prefix_nil.mp hbegins)

omit [DecidableEq α] in
theorem Fresh.append (h : Fresh p text) (hpost : Fresh p post) : Fresh p (text ++ post) := by
  intro t ht hsuffix hbegins
  rcases List.prefix_or_prefix_of_prefix hbegins (List.prefix_append text post) with hshort | hlong
  · exact h t ht hsuffix hshort
  · obtain ⟨t', rfl⟩ := hlong
    rw [List.prefix_append_right_inj] at hbegins
    by_cases ht' : t' = []
    · subst ht'
      rw [List.append_nil] at ht hsuffix
      exact h text ht hsuffix (List.prefix_refl text)
    · exact hpost t' ht' ((List.suffix_append text t').trans hsuffix) hbegins

omit [DecidableEq α] in
theorem not_infix_append (hpre : ¬p <:+: pre) (htext : ¬p <:+: text) (h : Fresh p text) :
    ¬p <:+: pre ++ text := by
  intro hinside
  rcases List.infix_append_iff_ne_nil.mp hinside with hl | hr | ⟨s, t, _, ht, rfl, _, hbegins⟩
  · exact hpre hl
  · exact htext hr
  · exact h t ht (List.suffix_append s t) hbegins

omit [DecidableEq α] in
/-- A delimiter that begins before the end of `pre` begins inside it, or reaches over its end. -/
theorem not_prefix_of_fresh {s : List α} (hsuffix : s <:+ pre) (hpre : ¬p <:+: pre)
    (h : Fresh p text) : ¬p <+: s ++ text := by
  intro hbegins
  rcases List.prefix_or_prefix_of_prefix hbegins (List.prefix_append s text) with hps | hsp
  · exact hpre (hps.isInfix.trans hsuffix.isInfix)
  · obtain ⟨t, rfl⟩ := hsp
    rw [List.prefix_append_right_inj] at hbegins
    by_cases ht : t = []
    · subst ht
      rw [List.append_nil] at hpre
      exact hpre hsuffix.isInfix
    · exact h t ht (List.suffix_append s t) hbegins

theorem throughFirst_eq_none_iff (hclosing : closing ≠ []) :
    throughFirst closing text = none ↔ ¬closing <:+: text := by
  induction text with
  | nil => exact iff_of_true rfl fun h => hclosing (List.infix_nil.mp h)
  | cons c text ih =>
    rw [throughFirst_cons, List.infix_cons_iff, not_or]
    split_ifs with h
    · exact iff_of_false nofun fun h' => h'.1 h
    · rw [Option.map_eq_none_iff, ih]
      exact ⟨fun h' => ⟨h, h'⟩, And.right⟩

private theorem throughFirst_append (hclosing : closing ≠ []) (h : ¬closing <:+: mid ++ closing.dropLast) :
    throughFirst closing (mid ++ (closing ++ post)) = some (mid ++ closing) := by
  induction mid with
  | nil =>
    obtain ⟨c, closing, rfl⟩ := List.exists_cons_of_ne_nil hclosing
    exact if_pos (List.prefix_append _ _)
  | cons c mid ih =>
    have hhead : ¬closing <+: c :: (mid ++ (closing ++ post)) := by
      intro hbegins
      refine h (List.prefix_of_prefix_length_le hbegins ?_ ?_).isInfix
      · exact (List.prefix_append_right_inj (c :: mid)).mpr
          ((List.dropLast_prefix closing).trans (List.prefix_append _ _))
      · have := List.length_pos_of_ne_nil hclosing
        simp only [List.length_append, List.length_cons, List.length_dropLast]
        omega
    have htail : ¬closing <:+: mid ++ closing.dropLast := fun h' => h (List.infix_cons h')
    rw [List.cons_append, throughFirst_cons, if_neg hhead, ih htail]
    rfl

private theorem throughFirst_stretch (h : throughFirst closing text = some found) :
    found <+: text ∧ closing <:+ found := by
  induction text generalizing found with
  | nil => cases h
  | cons c text ih =>
    rw [throughFirst_cons] at h
    split_ifs at h with hbegins
    · cases h
      exact ⟨hbegins, List.suffix_refl _⟩
    · obtain ⟨found', hfound', rfl⟩ := Option.map_eq_some_iff.mp h
      obtain ⟨hpre, hsuffix⟩ := ih hfound'
      exact ⟨(List.prefix_cons_inj c).mpr hpre, hsuffix.trans (List.suffix_cons c found')⟩

/-- Where no opening begins, nothing is found. -/
theorem firstMatch_append_of_forall
    (h : ∀ s, s ≠ [] → s <:+ pre → ¬opening <+: s ++ text) :
    firstMatch opening closing (pre ++ text) = firstMatch opening closing text := by
  induction pre with
  | nil => rfl
  | cons c pre ih =>
    have hhead : ¬opening <+: c :: (pre ++ text) := h _ (List.cons_ne_nil c pre) (List.suffix_refl _)
    rw [List.cons_append, firstMatch_cons, if_neg hhead]
    exact ih fun s hs hsuffix => h s hs (hsuffix.trans (List.suffix_cons c pre))

theorem firstMatch_append_of_not_infix (hpre : ¬opening <:+: pre) (h : Fresh opening text) :
    firstMatch opening closing (pre ++ text) = firstMatch opening closing text :=
  firstMatch_append_of_forall fun _ _ hsuffix => not_prefix_of_fresh hsuffix hpre h

theorem firstMatch_delimited (hopening : opening ≠ []) (hclosing : closing ≠ [])
    (hpre : ¬opening <:+: pre ++ opening.dropLast) (hmid : ¬closing <:+: mid ++ closing.dropLast) :
    firstMatch opening closing (pre ++ (opening ++ (mid ++ (closing ++ post)))) =
      some (opening ++ (mid ++ closing)) := by
  rw [firstMatch_append_of_forall fun s hs hsuffix hbegins => hpre ?_]
  · obtain ⟨c, opening, rfl⟩ := List.exists_cons_of_ne_nil hopening
    have hbegins : c :: opening <+: c :: (opening ++ (mid ++ (closing ++ post))) :=
      List.prefix_append (c :: opening) _
    rw [List.cons_append, firstMatch_cons, if_pos hbegins, ← List.cons_append, List.drop_left,
      throughFirst_append hclosing hmid]
  · have hshort : opening <+: s ++ opening.dropLast := by
      refine List.prefix_of_prefix_length_le hbegins ?_ ?_
      · exact (List.prefix_append_right_inj s).mpr
          ((List.dropLast_prefix opening).trans (List.prefix_append _ _))
      · have := List.length_pos_of_ne_nil hs
        simp only [List.length_append, List.length_dropLast]
        omega
    exact hshort.isInfix.trans (List.suffix_append_self_iff.mpr hsuffix).isInfix

theorem firstMatch_eq_none_of_opening (h : ¬opening <:+: text) :
    firstMatch opening closing text = none := by
  have hskip : firstMatch opening closing (text ++ []) = firstMatch opening closing [] := by
    refine firstMatch_append_of_forall fun s _ hsuffix hbegins => h ?_
    rw [List.append_nil] at hbegins
    exact hbegins.isInfix.trans hsuffix.isInfix
  rwa [List.append_nil] at hskip

theorem firstMatch_eq_none_of_closing (hclosing : closing ≠ []) (h : ¬closing <:+: text) :
    firstMatch opening closing text = none := by
  induction text with
  | nil => rfl
  | cons c text ih =>
    have hdrop : throughFirst closing ((c :: text).drop opening.length) = none :=
      (throughFirst_eq_none_iff hclosing).mpr fun h' => h (h'.trans (List.drop_suffix _ _).isInfix)
    rw [firstMatch_cons, hdrop, ih fun h' => h (List.infix_cons h'), ite_self]

/-- What is found reaches from an opening to a closing, inside the text. -/
theorem firstMatch_stretch (h : firstMatch opening closing text = some found) :
    found <:+: text ∧ ∃ mid, found = opening ++ (mid ++ closing) := by
  induction text with
  | nil => cases h
  | cons c text ih =>
    have htail : firstMatch opening closing text = some found →
        found <:+: c :: text ∧ ∃ mid, found = opening ++ (mid ++ closing) :=
      fun h => ⟨List.infix_cons (ih h).1, (ih h).2⟩
    rw [firstMatch_cons] at h
    split_ifs at h with hbegins
    · split at h
      · next through hthrough =>
        cases h
        obtain ⟨hpre, mid, rfl⟩ := throughFirst_stretch hthrough
        refine ⟨List.IsPrefix.isInfix ?_, mid, rfl⟩
        rw [← List.prefix_iff_eq_append.mp hbegins]
        exact (List.prefix_append_right_inj opening).mpr hpre
      · exact htail h
    · exact htail h

theorem isSome_firstMatch (hopening : opening ≠ []) (hclosing : closing ≠ [])
    (h : opening ++ (mid ++ closing) <:+: text) : (firstMatch opening closing text).isSome := by
  induction text with
  | nil => exact absurd (List.append_eq_nil_iff.mp (List.infix_nil.mp h)).1 hopening
  | cons c text ih =>
    rw [firstMatch_cons]
    split_ifs with hbegins
    · split
      · rfl
      · next hnone =>
        rcases List.infix_cons_iff.mp h with hhead | htail
        · refine absurd ?_ ((throughFirst_eq_none_iff hclosing).mp hnone)
          obtain ⟨rest, hrest⟩ := hhead
          rw [← hrest, List.append_assoc, List.drop_left]
          exact ⟨mid, rest, rfl⟩
        · exact ih htail
    · rcases List.infix_cons_iff.mp h with hhead | htail
      · exact absurd ((List.prefix_append _ _).trans hhead) hbegins
      · exact ih htail

end Kanat.DelimitedMatch
