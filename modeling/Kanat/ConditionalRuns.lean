import Mathlib.Data.List.Basic

/-! # Runs whose steps each meet a condition

The condition is on a step and the state it is taken in. Where it tells exactly whether the step keeps an invariant, a
run keeps the invariant in every state it reaches if and only if each of its steps meets the condition. -/
namespace Kanat.ConditionalRuns

variable {State Step : Type} (step : State → Step → State)

def run (s : State) (steps : List Step) : State := steps.foldl step s

def Each (C : State → Step → Prop) : State → List Step → Prop
  | _, [] => True
  | s, e :: steps => C s e ∧ Each C (step s e) steps

instance decidableEach (C : State → Step → Prop) [∀ s e, Decidable (C s e)] :
    ∀ (s : State) (steps : List Step), Decidable (Each step C s steps)
  | _, [] => .isTrue trivial
  | s, e :: steps =>
    have := decidableEach C (step s e) steps
    inferInstanceAs (Decidable (_ ∧ _))

variable {step} {C : State → Step → Prop} {s : State} {steps steps' : List Step} {I K : State → Prop}

theorem run_append : run step s (steps ++ steps') = run step (run step s steps) steps' := List.foldl_append

theorem each_append : Each step C s (steps ++ steps') ↔ Each step C s steps ∧ Each step C (run step s steps) steps' := by
  induction steps generalizing s with
  | nil => exact (and_iff_right trivial).symm
  | cons e steps ih =>
    rw [List.cons_append, Each, ih, Each, and_assoc]
    rfl

theorem run_keeps (hK : ∀ s e, K s → K (step s e)) (h : K s) (steps : List Step) : K (run step s steps) := by
  induction steps generalizing s with
  | nil => exact h
  | cons e steps ih => exact ih (hK s e h)

/-- What steps that meet the condition keep. -/
theorem run_of_each (hI : ∀ s e, I s → C s e → I (step s e)) (h : I s) (hC : Each step C s steps) : I (run step s steps) := by
  induction steps generalizing s with
  | nil => exact h
  | cons e steps ih => exact ih (hI s e h hC.1) hC.2

private theorem each_true : Each step (fun _ _ => True) s steps := by
  induction steps generalizing s with
  | nil => exact trivial
  | cons e steps ih => exact ⟨trivial, ih⟩

/-- `K` holds whatever is done under `E`; `I` holds, and `R` from each state to those after it, exactly as long as the
condition is met. -/
theorem run_iff_related (K I : State → Prop) (R : State → State → Prop) {E : State → Step → Prop} (hrefl : ∀ a, R a a)
    (htrans : ∀ a b c, R a b → R b c → R a c) (hK : ∀ s e, K s → E s e → K (step s e))
    (hstep : ∀ s e, K s → E s e → I s → (I (step s e) ∧ R s (step s e) ↔ C s e)) (hk : K s) (hE : Each step E s steps)
    (hi : I s) :
    (∀ n, I (run step s (steps.take n))) ∧
      (∀ m n, m ≤ n → R (run step s (steps.take m)) (run step s (steps.take n))) ↔ Each step C s steps := by
  induction steps generalizing s with
  | nil =>
    simp only [List.take_nil]
    exact iff_of_true ⟨fun _ => hi, fun _ _ _ => hrefl s⟩ trivial
  | cons e steps ih =>
    have he := hstep s e hk hE.1 hi
    constructor
    · rintro ⟨hall, hrel⟩
      have hc : C s e := he.mp ⟨hall 1, hrel 0 1 (Nat.zero_le 1)⟩
      refine ⟨hc, (ih (hK s e hk hE.1) hE.2 (he.mpr hc).1).mp ⟨fun n => hall (n + 1), fun m n hmn => ?_⟩⟩
      exact hrel (m + 1) (n + 1) (Nat.succ_le_succ hmn)
    · rintro ⟨hc, hrest⟩
      obtain ⟨hnext, hrel⟩ := he.mpr hc
      obtain ⟨hall, hrels⟩ := (ih (hK s e hk hE.1) hE.2 hnext).mpr hrest
      constructor
      · intro n
        cases n with
        | zero => exact hi
        | succ n => exact hall n
      · intro m n hmn
        cases n with
        | zero =>
          obtain rfl : m = 0 := Nat.le_zero.mp hmn
          exact hrefl s
        | succ n =>
          cases m with
          | zero => exact htrans _ _ _ hrel (hrels 0 n (Nat.zero_le n))
          | succ m => exact hrels m n (Nat.le_of_succ_le_succ hmn)

/-- `K` holds whatever is done, `I` exactly as long as the condition is met. -/
theorem run_iff (K I : State → Prop) (hK : ∀ s e, K s → K (step s e))
    (hstep : ∀ s e, K s → I s → (I (step s e) ↔ C s e)) (hk : K s) (hi : I s) :
    (∀ n, I (run step s (steps.take n))) ↔ Each step C s steps := by
  have h : (∀ n, I (run step s (steps.take n))) ∧ (∀ m n, m ≤ n → True) ↔ Each step C s steps :=
    run_iff_related K I (fun _ _ => True) (fun _ => trivial) (fun _ _ _ _ _ => trivial) (fun s e hs _ => hK s e hs)
      (fun s e hs _ hi => (and_iff_left trivial).trans (hstep s e hs hi)) hk each_true hi
  rwa [and_iff_left fun _ _ _ => trivial] at h

section
variable (step : State → Step → Option State)

def runTaken : State → List Step → Option State
  | s, [] => some s
  | s, e :: steps => (step s e).bind fun s' => runTaken s' steps

def EachTaken (C : State → Step → Prop) : State → List Step → Prop
  | _, [] => True
  | s, e :: steps => C s e ∧ ∀ s' ∈ step s e, EachTaken C s' steps

instance decidableEachTaken (C : State → Step → Prop) [∀ s e, Decidable (C s e)] :
    ∀ (s : State) (steps : List Step), Decidable (EachTaken step C s steps)
  | _, [] => .isTrue trivial
  | s, e :: steps =>
    have := fun s' => decidableEachTaken C s' steps
    inferInstanceAs (Decidable (C s e ∧ ∀ s' ∈ step s e, EachTaken step C s' steps))

variable {step} {s' : State}

theorem runTaken_keeps (hI : ∀ s e s', I s → C s e → step s e = some s' → I s') (h : I s)
    (hC : EachTaken step C s steps) (hrun : runTaken step s steps = some s') : I s' := by
  induction steps generalizing s with
  | nil =>
    cases hrun
    exact h
  | cons e steps ih =>
    obtain ⟨s₁, hstep, hrest⟩ := Option.bind_eq_some_iff.mp hrun
    exact ih (hI s e s₁ h hC.1 hstep) (hC.2 s₁ hstep) hrest

end

end Kanat.ConditionalRuns
