import Mathlib.Algebra.GroupWithZero.Nat
import Mathlib.Algebra.BigOperators.Group.Finset.Basic
import Mathlib.Data.Finset.Sort
import Mathlib.Data.List.Sort
import Kanat.InsertionOrderDict

/-! # Values collected under their keys, and listed in key order

The dictionary the collecting leaves is told by the values alone: whatever order they came in, the listing is the
sorted keys, each with the values that came with it. -/
namespace Kanat.KeyedCollections
open InsertionOrderDict
open scoped List

variable {K V : Type}

section
variable [DecidableEq K]

/-- `setdefault(k, []).append(v)` -/
def add (d : Dict K (List V)) (entry : K × V) : Dict K (List V) := d.put entry.1 ((d.get entry.1).getD [] ++ [entry.2])

def collect (l : List (K × V)) : Dict K (List V) := l.foldl add []

def valuesOf (k : K) (l : List (K × V)) : List V := (l.filter fun entry => entry.1 = k).map Prod.snd

variable {l l' : List (K × V)} {d : Dict K V} {k : K} {v : V}

theorem valuesOf_append (k : K) (l l' : List (K × V)) : valuesOf k (l ++ l') = valuesOf k l ++ valuesOf k l' := by
  rw [valuesOf, List.filter_append, List.map_append, valuesOf, valuesOf]

theorem valuesOf_singleton (k : K) (entry : K × V) : valuesOf k [entry] = if entry.1 = k then [entry.2] else [] := by
  by_cases h : entry.1 = k <;> simp [valuesOf, h]

theorem valuesOf_eq_nil : valuesOf k l = [] ↔ k ∉ l.map Prod.fst := by
  simp only [valuesOf, List.map_eq_nil_iff, List.filter_eq_nil_iff, decide_eq_true_eq, List.mem_map, not_exists, not_and]

theorem valuesOf_map {W : Type} (f : K × V → W) (k : K) (l : List (K × V)) :
    valuesOf k (l.map fun entry => (entry.1, f entry)) = (valuesOf k l).map fun v => f (k, v) := by
  induction l with
  | nil => rfl
  | cons entry l ih =>
    by_cases h : entry.1 = k
    · subst h
      simpa [valuesOf] using ih
    · simpa [valuesOf, h] using ih

theorem valuesOf_perm (h : l ~ l') (k : K) : valuesOf k l ~ valuesOf k l' := (h.filter _).map _

theorem length_valuesOf (k : K) (l : List (K × V)) : (valuesOf k l).length = l.countP fun entry => entry.1 = k := by
  rw [valuesOf, List.length_map, List.countP_eq_length_filter]

theorem collect_append (l : List (K × V)) (entry : K × V) : collect (l ++ [entry]) = add (collect l) entry := by
  rw [collect, List.foldl_append]
  rfl

theorem nodup_collect (l : List (K × V)) : (collect l).keys.Nodup := by
  induction l using List.reverseRecOn with
  | nil => exact List.nodup_nil
  | append_singleton l entry ih =>
    rw [collect_append]
    exact Dict.nodup_put ih

theorem get_collect (l : List (K × V)) (k : K) :
    (collect l).get k = if k ∈ l.map Prod.fst then some (valuesOf k l) else none := by
  induction l using List.reverseRecOn with
  | nil => rfl
  | append_singleton l entry ih =>
    rw [collect_append, add, valuesOf_append, valuesOf_singleton]
    by_cases h : entry.1 = k
    · subst h
      rw [Dict.get_put_self, ih, if_pos rfl, if_pos (List.mem_map_of_mem (List.mem_append_right _ List.mem_cons_self))]
      split
      · rfl
      next hk => rw [valuesOf_eq_nil.mpr hk, Option.getD_none]
    · have hm : k ∈ (l ++ [entry]).map Prod.fst ↔ k ∈ l.map Prod.fst := by simp [Ne.symm h]
      rw [Dict.get_put_of_ne h, ih, if_neg h, List.append_nil]
      simp only [hm]

private theorem mem_keys_collect : k ∈ (collect l).keys ↔ k ∈ l.map Prod.fst := by
  have h := get_collect l k
  by_cases hk : k ∈ l.map Prod.fst
  · rw [if_pos hk] at h
    exact iff_of_true (not_not.mp fun hn => by rw [Dict.get_eq_none.mpr hn] at h; cases h) hk
  · rw [if_neg hk] at h
    exact iff_of_false (Dict.get_eq_none.mp h) hk

end

variable [LinearOrder K]

/-- `sorted(d.items())`: no two entries share a key, so the values are never compared. -/
def sorted (d : Dict K V) : Dict K V := d.insertionSort fun a b => a.1 ≤ b.1

def keysOf (l : List (K × V)) : List K := (l.map Prod.fst).toFinset.sort (· ≤ ·)

variable {l l' : List (K × V)} {d : Dict K V} {k : K} {v : V}

theorem mem_keysOf : k ∈ keysOf l ↔ k ∈ l.map Prod.fst := by rw [keysOf, Finset.mem_sort, List.mem_toFinset]

theorem nodup_keysOf (l : List (K × V)) : (keysOf l).Nodup := Finset.sort_nodup _ _

theorem keysOf_congr (h : ∀ k, k ∈ l.map Prod.fst ↔ k ∈ l'.map Prod.fst) : keysOf l = keysOf l' := by
  rw [keysOf, keysOf]
  congr 1
  ext k
  rw [List.mem_toFinset, List.mem_toFinset, h k]

theorem keysOf_perm (h : l ~ l') : keysOf l = keysOf l' := keysOf_congr fun _ => (h.map _).mem_iff

/-- Every value is listed once. -/
theorem sum_length_valuesOf (l : List (K × V)) : ((keysOf l).map fun k => (valuesOf k l).length).sum = l.length := by
  have hc (k : K) : (valuesOf k l).length = (l.map Prod.fst).count k := by
    rw [length_valuesOf, List.count, List.countP_map]
    exact List.countP_congr fun _ _ => by simp
  simp only [hc]
  rw [← List.sum_toFinset _ (nodup_keysOf l), keysOf, Finset.sort_toFinset, List.sum_toFinset_count_eq_length,
    List.length_map]

theorem sorted_perm (d : Dict K V) : sorted d ~ d := List.perm_insertionSort _ d

private theorem keys_sorted (d : Dict K V) : (sorted d).keys.Pairwise (· ≤ ·) := by
  let r : K × V → K × V → Prop := fun a b => a.1 ≤ b.1
  have : Std.Total r := ⟨fun a b => le_total a.1 b.1⟩
  have : IsTrans (K × V) r := ⟨fun a b c => le_trans⟩
  exact List.pairwise_map.mpr (List.pairwise_insertionSort r d)

private theorem keys_sorted_collect (l : List (K × V)) : (sorted (collect l)).keys = keysOf l := by
  have hp : (sorted (collect l)).keys ~ (collect l).keys := (sorted_perm _).map _
  refine List.Perm.eq_of_pairwise' (r := (· ≤ ·)) (keys_sorted _) (Finset.pairwise_sort _ _) ?_
  refine (List.perm_ext_iff_of_nodup (hp.nodup_iff.mpr (nodup_collect l)) (nodup_keysOf l)).mpr fun k => ?_
  rw [hp.mem_iff, mem_keys_collect, mem_keysOf]

/-- The listing, from the values themselves. -/
theorem sorted_collect (l : List (K × V)) : sorted (collect l) = (keysOf l).map fun k => (k, valuesOf k l) := by
  rw [← keys_sorted_collect, Dict.keys, List.map_map]
  conv_lhs => rw [← List.map_id (sorted (collect l))]
  refine List.map_congr_left fun entry he => ?_
  have hm : (entry.1, entry.2) ∈ collect l := (sorted_perm _).mem_iff.mp he
  have hg := Dict.get_of_mem (nodup_collect l) hm
  rw [get_collect] at hg
  split at hg
  · exact Prod.ext rfl (Option.some.inj hg).symm
  · cases hg

end Kanat.KeyedCollections
