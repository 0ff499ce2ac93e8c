import Mathlib.Data.List.Basic

/-! # Answers kept by key

A computation that can fail, with a table of what it gave before. -/
namespace Kanat.MemoTables

variable {α β κ ε : Type*} [DecidableEq κ] (key : α → κ) (compute : α → Except ε β)

/-- The table's answer, or a computed one that the table then keeps. -/
def answer (table : List (κ × β)) (a : α) : List (κ × β) × Except ε β :=
  match table.lookup (key a) with
  | some b => (table, .ok b)
  | none =>
    match compute a with
    | .error e => (table, .error e)
    | .ok b => (table ++ [(key a, b)], .ok b)

/-- One after another up to the first error, which leaves in the table what came before it. -/
def answerAll (table : List (κ × β)) : List α → List (κ × β) × Except ε (List β)
  | [] => (table, .ok [])
  | a :: as =>
    match answer key compute table a with
    | (table', .error e) => (table', .error e)
    | (table', .ok b) => ((answerAll table' as).1, (answerAll table' as).2.map (b :: ·))

/-- What the table holds is what is computed, of all that is asked under the key. -/
def Sound (asked : α → Prop) (table : List (κ × β)) : Prop :=
  ∀ entry ∈ table, ∀ a, asked a → key a = entry.1 → compute a = .ok entry.2

/-- The key covers all that the computation depends on. -/
def Covers (asked : α → Prop) : Prop := ∀ a a', asked a → asked a' → key a = key a' → compute a = compute a'

variable {key compute} {asked : α → Prop} {table : List (κ × β)} {a : α} {as : List α}

omit [DecidableEq κ] in
theorem sound_nil : Sound key compute asked ([] : List (κ × β)) := fun _ h => absurd h List.not_mem_nil

private theorem mem_of_lookup {k : κ} {b : β} (h : table.lookup k = some b) : (k, b) ∈ table := by
  induction table with
  | nil => simp at h
  | cons entry table ih =>
    rw [List.lookup_cons] at h
    cases hk : k == entry.1 with
    | true =>
      rw [hk] at h
      obtain rfl := eq_of_beq hk
      obtain rfl := Option.some.inj h
      exact List.mem_cons_self
    | false =>
      rw [hk] at h
      exact List.mem_cons_of_mem _ (ih h)

private theorem answer_eq (htable : Sound key compute asked table) (ha : asked a) :
    (answer key compute table a).2 = compute a := by
  unfold answer
  cases hlookup : table.lookup (key a) with
  | some b => exact (htable _ (mem_of_lookup hlookup) a ha rfl).symm
  | none =>
    cases compute a with
    | error e => rfl
    | ok b => rfl

theorem Sound.answer (hcovers : Covers key compute asked) (htable : Sound key compute asked table) (ha : asked a) :
    Sound key compute asked (answer key compute table a).1 := by
  unfold MemoTables.answer
  cases table.lookup (key a) with
  | some b => exact htable
  | none =>
    cases hcompute : compute a with
    | error e => exact htable
    | ok b =>
      intro entry hentry a' ha' hkey
      rcases List.mem_append.mp hentry with h | h
      · exact htable entry h a' ha' hkey
      · obtain rfl := List.mem_singleton.mp h
        rw [hcovers a' a ha' ha hkey, hcompute]

/-- The table changes no answer, the first error included, and stays sound. -/
theorem answerAll_eq (hcovers : Covers key compute asked) (htable : Sound key compute asked table)
    (has : ∀ a ∈ as, asked a) : (answerAll key compute table as).2 = as.mapM compute ∧
      Sound key compute asked (answerAll key compute table as).1 := by
  induction as generalizing table with
  | nil => exact ⟨rfl, htable⟩
  | cons a as ih =>
    have ha := has a List.mem_cons_self
    have hanswer := answer_eq htable ha
    have hsound := htable.answer hcovers ha
    rw [List.mapM_cons, ← hanswer]
    unfold answerAll
    cases hstep : MemoTables.answer key compute table a with
    | mk table' result =>
      rw [hstep] at hsound
      cases result with
      | error e => exact ⟨rfl, hsound⟩
      | ok b =>
        obtain ⟨hrest, hsound'⟩ := ih hsound fun a' ha' => has a' (List.mem_cons_of_mem _ ha')
        refine ⟨?_, hsound'⟩
        change (answerAll key compute table' as).2.map (b :: ·) = (as.mapM compute >>= fun bs => pure (b :: bs))
        rw [hrest]
        cases as.mapM compute with
        | error e => rfl
        | ok bs => rfl

end Kanat.MemoTables
