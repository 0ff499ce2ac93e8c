import Mathlib.Algebra.BigOperators.Group.List.Basic
import Mathlib.Data.List.Perm.Basic
import Mathlib.Tactic.Abel
import Mathlib.Tactic.Common

/-! # Lists with one place written anew

What a list holds, adds up to and ends with after `List.set`, of what it held before. The place is given by what was
read there, `xs[i]? = some x`, as a step that looks its thread, file or attempt up by index has it. -/
namespace Kanat.ListUpdates

variable {α β : Type} {xs : List α} {i : ℕ} {x : α}

theorem mem_set_self (h : xs[i]? = some x) (y : α) : y ∈ xs.set i y :=
  List.mem_of_getElem? (List.getElem?_set_self (List.getElem?_eq_some_iff.mp h).1)

/-- What was there before still is, but for what was written over. -/
theorem mem_set_of_mem {z : α} (hz : z ∈ xs) (hne : xs[i]? ≠ some z) (y : α) : z ∈ xs.set i y := by
  obtain ⟨j, hj⟩ := List.mem_iff_getElem?.mp hz
  refine List.mem_of_getElem? (i := j) ?_
  rw [List.getElem?_set_ne, hj]
  rintro rfl
  exact hne hj

theorem eq_or_mem_set (h : xs[i]? = some x) {z : α} (hz : z ∈ xs) (y : α) : z = x ∨ z ∈ xs.set i y := by
  by_cases heq : z = x
  · exact .inl heq
  · exact .inr (mem_set_of_mem hz (fun hread => heq (Option.some.inj (hread.symm.trans h))) y)

theorem countP_set (p : α → Bool) (h : xs[i]? = some x) (y : α) :
    (xs.set i y).countP p + (if p x then 1 else 0) = xs.countP p + if p y then 1 else 0 := by
  induction xs generalizing i with
  | nil => cases h
  | cons z xs ih =>
    cases i with
    | zero =>
      cases h
      rw [List.set_cons_zero, List.countP_cons, List.countP_cons]
      omega
    | succ i =>
      have hrest := ih h
      rw [List.set_cons_succ, List.countP_cons, List.countP_cons]
      omega

theorem sum_map_set {M : Type} [AddCommMonoid M] (f : α → M) (h : xs[i]? = some x) (y : α) :
    ((xs.set i y).map f).sum + f x = (xs.map f).sum + f y := by
  induction xs generalizing i with
  | nil => cases h
  | cons z xs ih =>
    cases i with
    | zero =>
      cases h
      rw [List.set_cons_zero, List.map_cons, List.map_cons, List.sum_cons, List.sum_cons]
      abel
    | succ i =>
      have hrest := ih h
      rw [List.set_cons_succ, List.map_cons, List.map_cons, List.sum_cons, List.sum_cons, add_assoc, hrest, add_assoc]

theorem perm_filterMap_set (f : α → Option β) (h : xs[i]? = some x) (y : α) :
    ((f x).toList ++ (xs.set i y).filterMap f).Perm ((f y).toList ++ xs.filterMap f) := by
  induction xs generalizing i with
  | nil => cases h
  | cons z xs ih =>
    cases i with
    | zero =>
      obtain rfl : z = x := by simpa using h
      have hcons (w : α) : (w :: xs).filterMap f = (f w).toList ++ xs.filterMap f := by
        cases hw : f w <;> simp [hw]
      rw [List.set_cons_zero, hcons, hcons, ← List.append_assoc, ← List.append_assoc]
      exact List.perm_append_comm.append_right _
    | succ i =>
      have hrest := ih (by simpa using h)
      cases hz : f z with
      | none => simpa [hz] using hrest
      | some b =>
        rw [List.set_cons_succ, List.filterMap_cons_some hz, List.filterMap_cons_some hz]
        exact List.perm_middle.trans ((hrest.cons b).trans List.perm_middle.symm)

theorem getLast?_set {y : α} (hi : i < xs.length) :
    (xs.set i y).getLast? = if i + 1 = xs.length then some y else xs.getLast? := by
  rw [List.getLast?_eq_getElem?, List.getLast?_eq_getElem?, List.length_set, List.getElem?_set]
  by_cases h : i + 1 = xs.length
  · rw [if_pos h, if_pos (by omega), if_pos (by omega)]
  · rw [if_neg h, if_neg (by omega)]

end Kanat.ListUpdates
