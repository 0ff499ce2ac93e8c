import Kanat.InterleavedThreads
import Mathlib.Data.List.Perm.Subperm
import Mathlib.Data.List.Perm.Lattice

/-! # What the calls of a trace say, altogether and thread by thread

For any threads and any log: what a trace says, the part that one thread says of it, and how the two are counted. -/
namespace Kanat.ThreadLogs
open InterleavedThreads

variable {Op : Type} {Ans : Op → Type} {World Req X : Type}

/-- What a call says, if anything. -/
abbrev Pick (Ans : Op → Type) (X : Type) := (o : Op) → Ans o → Option X

/-- Newest first, as the trace is. -/
def logged (pick : Pick Ans X) (trace : List (Call Ans World Req)) : List X :=
  trace.filterMap fun c => pick c.op c.answer

def loggedBy (pick : Pick Ans X) (i : ℕ) (trace : List (Call Ans World Req)) : List X :=
  trace.filterMap fun c => if c.thread = i then pick c.op c.answer else none

/-- The same with the thread it is from. -/
def keyed (pick : Pick Ans X) (trace : List (Call Ans World Req)) : List (ℕ × X) :=
  trace.filterMap fun c => (pick c.op c.answer).map fun x => (c.thread, x)

section
variable {pick pick' : Pick Ans X} {trace : List (Call Ans World Req)} {c : Call Ans World Req}
  {i : ℕ} {x : X}

theorem logged_cons : logged pick (c :: trace) = (pick c.op c.answer).toList ++ logged pick trace := by
  rw [logged, List.filterMap_cons]
  cases pick c.op c.answer <;> rfl

theorem loggedBy_cons_self (h : c.thread = i) :
    loggedBy pick i (c :: trace) = (pick c.op c.answer).toList ++ loggedBy pick i trace := by
  rw [loggedBy, List.filterMap_cons, if_pos h]
  cases pick c.op c.answer <;> rfl

theorem loggedBy_cons_of_ne (h : c.thread ≠ i) :
    loggedBy pick i (c :: trace) = loggedBy pick i trace := by
  rw [loggedBy, List.filterMap_cons, if_neg h]
  rfl

theorem loggedBy_of_forall_ne (h : ∀ c ∈ trace, c.thread ≠ i) : loggedBy pick i trace = [] :=
  List.filterMap_eq_nil_iff.mpr fun c hc => if_neg (h c hc)

theorem map_keyed : (keyed pick trace).map Prod.snd = logged pick trace := by
  induction trace with
  | nil => rfl
  | cons c trace ih =>
    rw [logged_cons, keyed, List.filterMap_cons]
    cases pick c.op c.answer with
    | none => exact ih
    | some x => exact congrArg (x :: ·) ih

theorem count_keyed [DecidableEq X] :
    (keyed pick trace).count (i, x) = (loggedBy pick i trace).count x := by
  induction trace with
  | nil => rfl
  | cons c trace ih =>
    rw [keyed, List.filterMap_cons]
    by_cases hi : c.thread = i
    · rw [loggedBy_cons_self hi]
      cases pick c.op c.answer with
      | none => exact ih
      | some y =>
        change ((c.thread, y) :: keyed pick trace).count (i, x) = (y :: loggedBy pick i trace).count x
        rw [List.count_cons, List.count_cons, ih, hi]
        simp
    · rw [loggedBy_cons_of_ne hi]
      cases pick c.op c.answer with
      | none => exact ih
      | some y =>
        change ((c.thread, y) :: keyed pick trace).count (i, x) = _
        rw [List.count_cons, ih]
        simp [hi]

/-- What holds thread by thread holds altogether. -/
theorem logged_subperm (h : ∀ i, (loggedBy pick i trace).Subperm (loggedBy pick' i trace)) :
    (logged pick trace).Subperm (logged pick' trace) := by
  classical
  have hkeyed : (keyed pick trace).Subperm (keyed pick' trace) := by
    rw [List.subperm_ext_iff]
    intro p _
    obtain ⟨i, x⟩ := p
    rw [count_keyed, count_keyed]
    exact (h i).count_le x
  rw [← map_keyed, ← map_keyed]
  obtain ⟨entries, hperm, hsub⟩ := hkeyed
  exact ⟨entries.map Prod.snd, hperm.map Prod.snd, hsub.map Prod.snd⟩

theorem logged_perm (h : ∀ i, (loggedBy pick i trace).Perm (loggedBy pick' i trace)) :
    (logged pick trace).Perm (logged pick' trace) :=
  (logged_subperm fun i => (h i).subperm).antisymm (logged_subperm fun i => (h i).symm.subperm)

end

/-- What either says; they never both do. -/
def either (pick pick' : Pick Ans X) : Pick Ans X :=
  fun o r => (pick o r).or (pick' o r)

def Apart (pick pick' : Pick Ans X) : Prop :=
  ∀ o r, pick o r = none ∨ pick' o r = none

section
variable {pick pick' : Pick Ans X} {trace : List (Call Ans World Req)} {i : ℕ}

theorem toList_either (h : Apart pick pick') (o : Op) (r : Ans o) :
    (either pick pick' o r).toList = (pick o r).toList ++ (pick' o r).toList := by
  rw [either]
  rcases h o r with h | h
  · rw [h]
    rfl
  · rw [h, Option.or_none, Option.toList_none, List.append_nil]

theorem logged_either (h : Apart pick pick') :
    (logged (either pick pick') trace).Perm (logged pick trace ++ logged pick' trace) := by
  induction trace with
  | nil => exact List.Perm.refl _
  | cons c trace ih =>
    rw [logged_cons, logged_cons, logged_cons, toList_either h]
    refine (ih.append_left _).trans ?_
    simp only [List.append_assoc]
    refine List.Perm.append_left _ ?_
    rw [← List.append_assoc, ← List.append_assoc]
    exact List.perm_append_comm.append_right _

theorem loggedBy_either (h : Apart pick pick') :
    (loggedBy (either pick pick') i trace).Perm (loggedBy pick i trace ++ loggedBy pick' i trace) := by
  induction trace with
  | nil => exact List.Perm.refl _
  | cons c trace ih =>
    by_cases hi : c.thread = i
    · rw [loggedBy_cons_self hi, loggedBy_cons_self hi, loggedBy_cons_self hi, toList_either h]
      refine (ih.append_left _).trans ?_
      simp only [List.append_assoc]
      refine List.Perm.append_left _ ?_
      rw [← List.append_assoc, ← List.append_assoc]
      exact List.perm_append_comm.append_right _
    · rwa [loggedBy_cons_of_ne hi, loggedBy_cons_of_ne hi, loggedBy_cons_of_ne hi]

end

end Kanat.ThreadLogs
