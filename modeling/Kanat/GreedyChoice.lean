import Mathlib.Data.List.Basic
import Mathlib.Data.List.Infix
import Mathlib.Tactic.Common

/-! # Greedy choices

Of candidates in turn, each that does not clash with one chosen before it. -/
namespace Kanat.GreedyChoice

variable {α : Type} {clash : α → α → Bool} {chosen candidates : List α} {a : α}

@[grind =] def choose (clash : α → α → Bool) (chosen : List α) : List α → List α
  | [] => chosen
  | a :: candidates =>
    if chosen.any (clash a) then choose clash chosen candidates else choose clash (chosen ++ [a]) candidates

theorem choose_append (candidates candidates' : List α) :
    choose clash chosen (candidates ++ candidates') = choose clash (choose clash chosen candidates) candidates' := by
  induction candidates generalizing chosen with
  | nil => rfl
  | cons a candidates ih =>
    rw [List.cons_append, choose, choose]
    split_ifs <;> exact ih

/-- What is chosen of some candidates is there in their order, after what was chosen before. -/
theorem choose_eq_append (chosen candidates : List α) :
    ∃ more, choose clash chosen candidates = chosen ++ more ∧ more.Sublist candidates := by
  induction candidates generalizing chosen with
  | nil => exact ⟨[], (List.append_nil _).symm, List.Sublist.refl _⟩
  | cons a candidates ih =>
    rw [choose]
    split_ifs
    · obtain ⟨more, heq, hsub⟩ := ih chosen
      exact ⟨more, heq, hsub.cons a⟩
    · obtain ⟨more, heq, hsub⟩ := ih (chosen ++ [a])
      exact ⟨a :: more, by rw [heq, List.append_assoc, List.singleton_append], hsub.cons_cons a⟩

theorem chosen_subset (chosen candidates : List α) : chosen ⊆ choose clash chosen candidates := by
  obtain ⟨more, heq, -⟩ := choose_eq_append chosen candidates
  rw [heq]
  exact List.subset_append_left _ _

theorem choose_pairwise (h : chosen.Pairwise fun a b => ¬clash b a) (candidates : List α) :
    (choose clash chosen candidates).Pairwise fun a b => ¬clash b a := by
  induction candidates generalizing chosen with
  | nil => exact h
  | cons a candidates ih =>
    rw [choose]
    split_ifs with hclash
    · exact ih h
    · refine ih (List.pairwise_append.mpr ⟨h, List.pairwise_singleton _ _, fun b hb c hc => ?_⟩)
      rw [List.mem_singleton.mp hc]
      exact fun hbad => hclash (List.any_eq_true.mpr ⟨b, hb, hbad⟩)

/-- A candidate passed over clashes with one chosen before its turn. -/
theorem choose_maximal {R : α → α → Prop} (hchosen : ∀ b ∈ chosen, ∀ a ∈ candidates, R b a)
    (hcandidates : candidates.Pairwise R) (h : a ∈ candidates) :
    a ∈ choose clash chosen candidates ∨ ∃ b ∈ choose clash chosen candidates, clash a b ∧ R b a := by
  induction candidates generalizing chosen with
  | nil => exact absurd h List.not_mem_nil
  | cons c candidates ih =>
    obtain ⟨hc, hrest⟩ := List.pairwise_cons.mp hcandidates
    rw [choose]
    split_ifs with hclash
    · rcases List.mem_cons.mp h with rfl | h
      · obtain ⟨b, hb, hbad⟩ := List.any_eq_true.mp hclash
        exact .inr ⟨b, chosen_subset _ _ hb, hbad, hchosen b hb a List.mem_cons_self⟩
      · exact ih (fun b hb d hd => hchosen b hb d (List.mem_cons_of_mem _ hd)) hrest h
    · rcases List.mem_cons.mp h with rfl | h
      · exact .inl (chosen_subset _ _ (List.mem_append_right _ List.mem_cons_self))
      · refine ih (fun b hb d hd => ?_) hrest h
        rcases List.mem_append.mp hb with hb | hb
        · exact hchosen b hb d (List.mem_cons_of_mem _ hd)
        · rw [List.mem_singleton.mp hb]
          exact hc d hd

/-- Candidates that each clash with one chosen change nothing. -/
theorem choose_of_all (h : ∀ a ∈ candidates, ∃ b ∈ chosen, clash a b) : choose clash chosen candidates = chosen := by
  induction candidates with
  | nil => rfl
  | cons a candidates ih =>
    rw [choose, if_pos (List.any_eq_true.mpr (h a List.mem_cons_self))]
    exact ih fun b hb => h b (List.mem_cons_of_mem _ hb)

end Kanat.GreedyChoice
