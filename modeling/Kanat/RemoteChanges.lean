import Mathlib.Data.List.Basic

/-! # Changes sent to a store one at a time, until one fails

A change is about one key. It may be refused, may never arrive, or may be made with its answer lost: the sender stops
at the first that is not answered as made. -/
namespace Kanat.RemoteChanges

inductive Answer | made | lost | unanswered deriving DecidableEq

/-- A store with what a change does to its key, every other key left alone. -/
structure Store (S C K V : Type) where
  get : S → K → Option V
  key : C → K
  /-- `none` where the store refuses it -/
  take : S → C → Option S
  effect : C → Option V → Option V
  get_take {s s' c} : take s c = some s' → get s' (key c) = effect c (get s (key c))
  get_take_of_ne {s s' c k} : take s c = some s' → k ≠ key c → get s' k = get s k

/-- What a run leaves, the changes it sent, and whether all were answered as made. -/
structure Run (S C : Type) where
  state : S
  sent : List C
  completed : Bool

variable {S C K V : Type} (store : Store S C K V)

def send (s : S) (c : C) : Answer → S × Bool
  | .made => ((store.take s c).getD s, (store.take s c).isSome)
  | .lost => (s, false)
  | .unanswered => ((store.take s c).getD s, false)

def perform (s : S) : List C → List Answer → Run S C
  | [], _ => ⟨s, [], true⟩
  | c :: cs, answers =>
    let (s', made) := send store s c (answers.headD .made)
    if made then
      let rest := perform s' cs answers.tail
      { rest with sent := c :: rest.sent }
    else ⟨s', [c], false⟩

variable {s s' : S} {c : C} {cs : List C} {answers : List Answer} {k : K}

/-- A change is made once, or not at all. -/
theorem get_send (s : S) (c : C) (answer : Answer) (k : K) :
    store.get (send store s c answer).1 k = store.get s k ∨
      store.key c = k ∧ store.get (send store s c answer).1 k = store.effect c (store.get s k) := by
  have hmade : store.get ((store.take s c).getD s) k = store.get s k ∨
      store.key c = k ∧ store.get ((store.take s c).getD s) k = store.effect c (store.get s k) := by
    cases h : store.take s c with
    | none => exact .inl rfl
    | some s' =>
      by_cases hk : k = store.key c
      · subst hk
        exact .inr ⟨rfl, store.get_take h⟩
      · exact .inl (store.get_take_of_ne h hk)
  cases answer with
  | made => exact hmade
  | lost => exact .inl rfl
  | unanswered => exact hmade

private theorem get_of_made {answer : Answer} (h : (send store s c answer).2 = true) :
    store.get (send store s c answer).1 (store.key c) = store.effect c (store.get s (store.key c)) := by
  cases answer with
  | made =>
    obtain ⟨s', hs⟩ := Option.isSome_iff_exists.mp h
    simp only [send, hs, Option.getD_some]
    exact store.get_take hs
  | lost => cases h
  | unanswered => cases h

theorem perform_cons (s : S) (c : C) (cs : List C) (answers : List Answer) :
    (∃ s', (send store s c (answers.headD .made)) = (s', true) ∧
        (perform store s (c :: cs) answers).state = (perform store s' cs answers.tail).state ∧
        (perform store s (c :: cs) answers).completed = (perform store s' cs answers.tail).completed) ∨
      (perform store s (c :: cs) answers).state = (send store s c (answers.headD .made)).1 ∧
        (perform store s (c :: cs) answers).completed = false := by
  rw [perform]
  generalize send store s c (answers.headD .made) = r
  obtain ⟨s', made⟩ := r
  cases made with
  | true => exact .inl ⟨s', rfl, rfl, rfl⟩
  | false => exact .inr ⟨rfl, rfl⟩

/-- Nothing is sent but the changes, in their order. -/
theorem sent_initial (s : S) (cs : List C) (answers : List Answer) : (perform store s cs answers).sent <+: cs := by
  induction cs generalizing s answers with
  | nil => exact List.prefix_rfl
  | cons c cs ih =>
    rw [perform]
    generalize send store s c (answers.headD .made) = r
    obtain ⟨s', made⟩ := r
    cases made with
    | true => exact (List.prefix_cons_inj c).mpr (ih s' answers.tail)
    | false => exact ⟨cs, rfl⟩

/-- Whatever is answered, a key is as it was or as one change about it makes it. -/
theorem get_perform (hcs : (cs.map store.key).Nodup) (s : S) (answers : List Answer) (k : K) :
    store.get (perform store s cs answers).state k = store.get s k ∨
      ∃ c ∈ cs, store.key c = k ∧ store.get (perform store s cs answers).state k = store.effect c (store.get s k) := by
  induction cs generalizing s answers with
  | nil => exact .inl rfl
  | cons c cs ih =>
    obtain ⟨hc, hcs⟩ := List.nodup_cons.mp hcs
    rcases perform_cons store s c cs answers with ⟨s', hs, hstate, -⟩ | ⟨hstate, -⟩
    · rw [hstate]
      have hsend := get_send store s c (answers.headD .made) k
      rw [hs] at hsend
      rcases ih hcs s' answers.tail with h | ⟨c', hc', rfl, h⟩
      · rw [h]
        rcases hsend with h' | ⟨hk, h'⟩
        · exact .inl h'
        · exact .inr ⟨c, List.mem_cons_self, hk, h'⟩
      · rcases hsend with h' | ⟨hk, -⟩
        · rw [h'] at h
          exact .inr ⟨c', List.mem_cons_of_mem _ hc', rfl, h⟩
        · exact absurd (hk ▸ List.mem_map_of_mem hc') hc
    · rw [hstate]
      rcases get_send store s c (answers.headD .made) k with h | ⟨hk, h⟩
      · exact .inl h
      · exact .inr ⟨c, List.mem_cons_self, hk, h⟩

/-- A run that completed made every change. -/
theorem get_of_completed (hcs : (cs.map store.key).Nodup) (h : (perform store s cs answers).completed = true) (hc : c ∈ cs) :
    store.get (perform store s cs answers).state (store.key c) = store.effect c (store.get s (store.key c)) := by
  induction cs generalizing s answers with
  | nil => cases hc
  | cons c' cs ih =>
    obtain ⟨hc', hrest⟩ := List.nodup_cons.mp hcs
    rcases perform_cons store s c' cs answers with ⟨s', hs, hstate, hdone⟩ | ⟨-, hdone⟩
    · rw [hdone] at h
      rw [hstate]
      have hmade := get_of_made store (show (send store s c' (answers.headD .made)).2 = true by rw [hs])
      rw [hs] at hmade
      rcases List.mem_cons.mp hc with rfl | hc
      · rcases get_perform store hrest s' answers.tail (store.key c) with h' | ⟨c', hm, hk, -⟩
        · rw [h', hmade]
        · exact absurd (hk ▸ List.mem_map_of_mem hm) hc'
      · have hne : store.key c' ≠ store.key c := fun hk => hc' (hk ▸ List.mem_map_of_mem hc)
        rw [ih hrest h hc]
        have hsend := get_send store s c' (answers.headD .made) (store.key c)
        rw [hs] at hsend
        rcases hsend with h' | ⟨hk, -⟩
        · rw [h']
        · exact absurd hk hne
    · rw [hdone] at h
      cases h

end Kanat.RemoteChanges
