import Mathlib.Data.List.Basic

/-! # Dictionaries that keep the order their keys were put in

As lists of pairs with each key once. A key put in again keeps its place, and one that is new goes to the end. -/
namespace Kanat.InsertionOrderDict

variable {K V : Type} [DecidableEq K]

abbrev Dict (K V : Type) := List (K × V)

namespace Dict

def get (d : Dict K V) (k : K) : Option V :=
  match d with
  | [] => none
  | (k', v) :: d => if k' = k then some v else get d k

/-- A key already there keeps its place. -/
def put (d : Dict K V) (k : K) (v : V) : Dict K V :=
  match d with
  | [] => [(k, v)]
  | (k', v') :: d => if k' = k then (k', v) :: d else (k', v') :: put d k v

def pop (d : Dict K V) (k : K) : Dict K V :=
  d.filter fun entry => entry.1 ≠ k

def keys (d : Dict K V) : List K :=
  d.map Prod.fst

variable {d : Dict K V} {k k' : K} {v : V}

@[simp] theorem get_nil : get ([] : Dict K V) k = none := rfl

theorem get_cons {entry : K × V} : get (entry :: d) k = if entry.1 = k then some entry.2 else get d k := rfl

theorem put_nil : put ([] : Dict K V) k v = [(k, v)] := rfl

theorem put_cons {entry : K × V} :
    put (entry :: d) k v = if entry.1 = k then (entry.1, v) :: d else entry :: put d k v := rfl

@[simp] theorem get_put_self : get (put d k v) k = some v := by
  induction d with
  | nil => simp [put_nil, get_cons]
  | cons entry d ih =>
    by_cases h : entry.1 = k
    · simp [put_cons, get_cons, h]
    · simp [put_cons, get_cons, h, ih]

theorem put_of_forall_ne (h : ∀ entry ∈ d, entry.1 ≠ k) : put d k v = d ++ [(k, v)] := by
  induction d with
  | nil => rfl
  | cons entry d ih =>
    rw [put_cons, if_neg (h entry List.mem_cons_self), ih fun entry' h' => h entry' (List.mem_cons_of_mem _ h')]
    rfl

theorem get_put_of_ne (h : k ≠ k') : get (put d k v) k' = get d k' := by
  induction d with
  | nil => simp [put_nil, get_cons, h]
  | cons entry d ih =>
    by_cases hk : entry.1 = k
    · subst hk
      simp [put_cons, get_cons, h]
    · simp only [put_cons, if_neg hk, get_cons, ih]

@[simp] theorem get_pop_self : get (pop d k) k = none := by
  induction d with
  | nil => rfl
  | cons entry d ih =>
    by_cases h : entry.1 = k
    · simpa [pop, h] using ih
    · simpa [pop, h, get_cons] using ih

theorem get_pop_of_ne (h : k ≠ k') : get (pop d k) k' = get d k' := by
  induction d with
  | nil => rfl
  | cons entry d ih =>
    by_cases hk : entry.1 = k
    · subst hk
      simpa [pop, get_cons, h] using ih
    · by_cases hk' : entry.1 = k'
      · subst hk'
        simp [pop, get_cons, hk]
      · simpa [pop, get_cons, hk, hk'] using ih

private theorem keys_put : keys (put d k v) = if k ∈ keys d then keys d else keys d ++ [k] := by
  induction d with
  | nil => rfl
  | cons entry d ih =>
    by_cases h : entry.1 = k
    · simp [put_cons, keys, h]
    · have hl : keys (put (entry :: d) k v) = entry.1 :: keys (put d k v) := by
        rw [put_cons, if_neg h]
        rfl
      have hm : k ∈ keys (entry :: d) ↔ k ∈ keys d := by simp [keys, Ne.symm h]
      rw [hl, ih]
      by_cases hk : k ∈ keys d
      · rw [if_pos hk, if_pos (hm.mpr hk)]
        rfl
      · rw [if_neg hk, if_neg (fun h => hk (hm.mp h))]
        rfl

theorem nodup_put (h : (keys d).Nodup) : (keys (put d k v)).Nodup := by
  rw [keys_put]
  split
  · exact h
  next hk =>
    refine List.nodup_append.mpr ⟨h, List.nodup_cons.mpr ⟨List.not_mem_nil, List.nodup_nil⟩, fun a ha b hb hab => hk ?_⟩
    rw [← List.mem_singleton.mp hb, ← hab]
    exact ha

theorem nodup_pop (h : (keys d).Nodup) (k : K) : (keys (pop d k)).Nodup := h.sublist (List.filter_sublist.map _)

theorem get_of_mem (h : (keys d).Nodup) (hm : (k, v) ∈ d) : get d k = some v := by
  induction d with
  | nil => cases hm
  | cons entry d ih =>
    obtain ⟨hn, hd⟩ := List.nodup_cons.mp h
    rcases List.mem_cons.mp hm with rfl | hm
    · simp [get_cons]
    · have hk : entry.1 ≠ k := fun he => hn (he ▸ List.mem_map_of_mem hm)
      simp only [get_cons, if_neg hk]
      exact ih hd hm

theorem mem_of_get (h : get d k = some v) : (k, v) ∈ d := by
  induction d with
  | nil => cases h
  | cons entry d ih =>
    by_cases hk : entry.1 = k
    · simp only [get_cons, if_pos hk, Option.some.injEq] at h
      subst hk h
      exact List.mem_cons_self
    · simp only [get_cons, if_neg hk] at h
      exact List.mem_cons_of_mem _ (ih h)

theorem get_eq_none : get d k = none ↔ k ∉ keys d := by
  induction d with
  | nil => simp [keys]
  | cons entry d ih =>
    by_cases h : entry.1 = k
    · simp [get_cons, keys, h]
    · have hm : k ∈ keys (entry :: d) ↔ k ∈ keys d := by simp [keys, Ne.symm h]
      rw [hm, ← ih]
      simp only [get_cons, if_neg h]

end Dict

end Kanat.InsertionOrderDict
