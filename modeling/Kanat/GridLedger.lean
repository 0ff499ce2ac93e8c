import Mathlib.Data.List.Basic
import Mathlib.Order.Nat
import Mathlib.Tactic.Common

/-! # A numbered sequence with gaps, and the ledger of what was got and what was missed

`due` numbers are owed one entry each: the ones got are `offered`, the ones passed over are `missed`. -/
namespace Kanat.GridLedger

/-- The due numbers strictly between two. -/
def between (due : ℕ → Bool) (index placed : ℕ) : List ℕ :=
  (List.range' (index + 1) (placed - (index + 1))).filter due

variable {due : ℕ → Bool} {index placed i : ℕ} {received offered missed : List ℕ}

theorem mem_between : i ∈ between due index placed ↔ index < i ∧ i < placed ∧ due i := by
  simp only [between, List.mem_filter, List.mem_range'_1]
  constructor
  · rintro ⟨⟨hi, hp⟩, hd⟩
    exact ⟨hi, by omega, hd⟩
  · rintro ⟨hi, hp, hd⟩
    exact ⟨⟨hi, by omega⟩, hd⟩

private theorem between_pairwise : (between due index placed).Pairwise (· < ·) :=
  (List.pairwise_lt_range' 1 Nat.one_pos).filter _

theorem between_empty (h : placed ≤ index + 1) : between due index placed = [] := by
  simp [between, Nat.sub_eq_zero_of_le h]

theorem pairwise_lt_concat {l : List ℕ} (h : l.Pairwise (· < ·)) (hi : ∀ j ∈ l, j < i) :
    (l ++ [i]).Pairwise (· < ·) := by
  refine List.pairwise_append.mpr ⟨h, List.pairwise_singleton _ _, ?_⟩
  rintro j hj k hk
  rw [List.mem_singleton.mp hk]
  exact hi j hj

/-- Up to `index` the due numbers are accounted for. -/
structure Accounted (due : ℕ → Bool) (index : ℕ) (received offered missed : List ℕ) : Prop where
  rises : received.Pairwise (· < ·)
  reached : ∀ i ∈ received, i ≤ index
  missed_rises : missed.Pairwise (· < ·)
  missed_reached : ∀ i ∈ missed, i ≤ index
  missed_due : ∀ i ∈ missed, due i
  apart : ∀ i ∈ missed, i ∉ received
  offered_sub : ∀ i ∈ offered, i ∈ received
  covered : ∀ i, 1 ≤ i → i ≤ index → due i → i ∈ offered ∨ i ∈ missed

theorem accounted_start : Accounted due 0 [0] [0] [] where
  rises := List.pairwise_singleton _ _
  reached := by simp
  missed_rises := List.Pairwise.nil
  missed_reached := by simp
  missed_due := by simp
  apart := by simp
  offered_sub := by simp
  covered := fun i h1 h0 => by omega

namespace Accounted

/-- The due numbers short of `placed` are missed. -/
theorem skip (h : Accounted due index received offered missed) (hp : index < placed) :
    Accounted due (placed - 1) received offered (missed ++ between due index placed) where
  rises := h.rises
  reached := fun i hi => by have := h.reached i hi; omega
  missed_rises := by
    refine List.pairwise_append.mpr ⟨h.missed_rises, between_pairwise, ?_⟩
    intro i hi j hj
    exact lt_of_le_of_lt (h.missed_reached i hi) (mem_between.mp hj).1
  missed_reached := by
    intro i hi
    rcases List.mem_append.mp hi with hi | hi
    · have := h.missed_reached i hi
      omega
    · have := (mem_between.mp hi).2.1
      omega
  missed_due := by
    intro i hi
    rcases List.mem_append.mp hi with hi | hi
    · exact h.missed_due i hi
    · exact (mem_between.mp hi).2.2
  apart := by
    intro i hi hr
    rcases List.mem_append.mp hi with hi | hi
    · exact h.apart i hi hr
    · exact absurd (h.reached i hr) (Nat.not_le.mpr (mem_between.mp hi).1)
  offered_sub := h.offered_sub
  covered := by
    intro i h1 hi hd
    rcases Nat.lt_or_ge index i with hl | hl
    · exact Or.inr (List.mem_append_right _ (mem_between.mpr ⟨hl, by omega, hd⟩))
    · exact (h.covered i h1 hl hd).imp_right (List.mem_append_left _)

/-- The next number is received, and offered if it is due. -/
theorem take {more : List ℕ} (h : Accounted due (placed - 1) received offered missed) (hp : 0 < placed)
    (hm : ∀ i ∈ more, i = placed) (hd : due placed → placed ∈ more) :
    Accounted due placed (received ++ [placed]) (offered ++ more) missed where
  rises := pairwise_lt_concat h.rises fun i hi => by have := h.reached i hi; omega
  reached := by
    intro i hi
    rcases List.mem_append.mp hi with hi | hi
    · have := h.reached i hi
      omega
    · exact (List.mem_singleton.mp hi).le
  missed_rises := h.missed_rises
  missed_reached := fun i hi => by have := h.missed_reached i hi; omega
  missed_due := h.missed_due
  apart := by
    intro i hi hr
    rcases List.mem_append.mp hr with hr | hr
    · exact h.apart i hi hr
    · have := h.missed_reached i hi
      have := List.mem_singleton.mp hr
      omega
  offered_sub := by
    intro i hi
    rcases List.mem_append.mp hi with hi | hi
    · exact List.mem_append_left _ (h.offered_sub i hi)
    · exact List.mem_append_right _ (List.mem_singleton.mpr (hm i hi))
  covered := by
    intro i h1 hi hdue
    rcases Nat.lt_or_ge i placed with hl | hl
    · exact (h.covered i h1 (by omega) hdue).imp_left (List.mem_append_left _)
    · obtain rfl : i = placed := le_antisymm hi hl
      exact Or.inl (List.mem_append_right _ (hd hdue))

/-- A due number no later than one received has exactly one entry. -/
theorem one_entry (h : Accounted due index received offered missed) {latest : ℕ} (hr : latest ∈ received)
    (h1 : 1 ≤ i) (hi : i ≤ latest) (hd : due i) : (i ∈ offered ∧ i ∉ missed) ∨ (i ∈ missed ∧ i ∉ offered) := by
  rcases h.covered i h1 (hi.trans (h.reached latest hr)) hd with ho | hm
  · exact Or.inl ⟨ho, fun hm => h.apart i hm (h.offered_sub i ho)⟩
  · exact Or.inr ⟨hm, fun ho => h.apart i hm (h.offered_sub i ho)⟩

end Accounted
end Kanat.GridLedger
