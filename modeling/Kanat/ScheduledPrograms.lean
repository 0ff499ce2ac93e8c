import Kanat.ResumptionPrograms

/-! # Programs run from end to end

The program runs alone: each call is answered as soon as it is made, by a function of the world. -/
namespace Kanat.ScheduledPrograms
open ResumptionPrograms

variable {Op : Type} {Ans : Op → Type} {ε α β γ World : Type}

def run (answer : World → (o : Op) → Ans o × World) : Prog Ans ε α → World → Except ε α × World
  | .ret a, w => (.ok a, w)
  | .raise e, w => (.error e, w)
  | .call o k, w => run answer (k (answer w o).1) (answer w o).2

variable {answer : World → (o : Op) → Ans o × World}

@[simp] theorem run_ret {a : α} {w : World} :
    run answer (.ret a : Prog Ans ε α) w = (.ok a, w) := rfl

@[simp] theorem run_raise {e : ε} {w : World} :
    run answer (.raise e : Prog Ans ε α) w = (.error e, w) := rfl

@[simp] theorem run_call {o : Op} {k : Ans o → Prog Ans ε α} {w : World} :
    run answer (.call o k) w = run answer (k (answer w o).1) (answer w o).2 := rfl

theorem run_bind {p : Prog Ans ε α} {f : α → Prog Ans ε β} {w : World} :
    run answer (p.bind f) w =
      match run answer p w with
      | (.ok a, w') => run answer (f a) w'
      | (.error e, w') => (.error e, w') := by
  induction p generalizing w with
  | ret a => rfl
  | raise e => rfl
  | call o k ih => exact ih _

private theorem run_tryCatch {p : Prog Ans ε α} {handler : ε → Prog Ans ε α} {w : World} :
    run answer (p.tryCatch handler) w =
      match run answer p w with
      | (.ok a, w') => (.ok a, w')
      | (.error e, w') => run answer (handler e) w' := by
  induction p generalizing w with
  | ret a => rfl
  | raise e => rfl
  | call o k ih => exact ih _

@[simp] theorem run_ofExcept {x : Except ε α} {w : World} :
    run answer (Prog.ofExcept x : Prog Ans ε α) w = (x, w) := by
  cases x with
  | ok a => rfl
  | error e => rfl

/-- The rounds a loop enters when a failing one is its last. -/
def attempted (ok : γ → Bool) : List γ → List γ
  | [] => []
  | x :: xs => x :: if ok x then attempted ok xs else []

section
variable {ok : γ → Bool} {x : γ} {xs : List γ}

theorem attempted_sublist : (attempted ok xs).Sublist xs := by
  induction xs with
  | nil => exact List.Sublist.refl _
  | cons x xs ih =>
    rw [attempted]
    cases ok x with
    | true => exact ih.cons_cons x
    | false => exact (List.nil_sublist xs).cons_cons x

theorem attempted_of_all (h : xs.all ok) : attempted ok xs = xs := by
  induction xs with
  | nil => rfl
  | cons x xs ih =>
    rw [List.all_cons, Bool.and_eq_true] at h
    rw [attempted, if_pos h.1, ih h.2]

end

/-- A loop each of whose rounds is settled: `I` may know which rounds are still to come. -/
theorem run_forM {body : γ → Prog Ans ε PUnit} {ok : γ → Bool} {after : World → γ → World}
    (I : List γ → World → Prop) {xs : List γ} {w : World}
    (hround : ∀ x xs w, I (x :: xs) w →
      (run answer (body x) w).2 = after w x ∧
        ((run answer (body x) w).1 = .ok ⟨⟩ ↔ ok x) ∧ I xs (after w x))
    (h : I xs w) :
    (run answer (xs.forM body) w).2 = (attempted ok xs).foldl after w ∧
      ((run answer (xs.forM body) w).1 = .ok ⟨⟩ ↔ xs.all ok) := by
  induction xs generalizing w with
  | nil => exact ⟨rfl, iff_of_true rfl rfl⟩
  | cons x xs ih =>
    obtain ⟨hw, hok, hI⟩ := hround x xs w h
    rw [show (x :: xs).forM body = (body x).bind fun _ => xs.forM body from rfl, run_bind, attempted,
      List.foldl_cons, List.all_cons]
    generalize run answer (body x) w = r at hw hok
    obtain ⟨r, w'⟩ := r
    cases hw
    cases r with
    | ok u =>
      rw [if_pos (hok.mp rfl), hok.mp rfl, Bool.true_and]
      exact ih hI
    | error e =>
      have hx : ok x = false := Bool.eq_false_iff.mpr fun h => nomatch hok.mpr h
      rw [hx, if_neg Bool.false_ne_true, Bool.false_and]
      exact ⟨rfl, iff_of_false (fun h => nomatch h) Bool.false_ne_true⟩

/-- Its exceptions caught outside it. -/
theorem run_block {body : γ → Prog Ans ε PUnit} {ok : γ → Bool} {after : World → γ → World}
    (I : List γ → World → Prop) {xs : List γ} {w : World}
    (hround : ∀ x xs w, I (x :: xs) w →
      (run answer (body x) w).2 = after w x ∧
        ((run answer (body x) w).1 = .ok ⟨⟩ ↔ ok x) ∧ I xs (after w x))
    (h : I xs w) :
    run answer ((xs.forM body).tryCatch fun _ => .ret ⟨⟩) w =
      (.ok ⟨⟩, (attempted ok xs).foldl after w) := by
  have hloop := (run_forM I hround h).1
  rw [run_tryCatch]
  generalize run answer (xs.forM body) w = r at hloop
  obtain ⟨r, w'⟩ := r
  cases hloop
  cases r with
  | ok u => rfl
  | error e => rfl

/-- A monitor that only tells which calls may be made. -/
def watch (Ans : Op → Type) (P : Op → Prop) : Monitor Ans Unit where
  allowed _ := P
  possible _ _ := True
  next l _ _ := l

/-- Every call the program may make is one of these. -/
def Watched (P : Op → Prop) (p : Prog Ans ε α) : Prop :=
  Obeys (watch Ans P) (fun _ _ => True) (fun _ _ => True) p ()

section
variable {P : Op → Prop}

theorem watched_ret {a : α} : Watched P (.ret a : Prog Ans ε α) := trivial

theorem watched_raise {e : ε} : Watched P (.raise e : Prog Ans ε α) := trivial

theorem watched_perform {o : Op} (h : P o) : Watched P (Prog.perform o : Prog Ans ε (Ans o)) :=
  obeys_perform.mpr ⟨h, fun _ _ => trivial⟩

theorem watched_ofExcept {x : Except ε α} : Watched P (Prog.ofExcept x : Prog Ans ε α) :=
  obeys_ofExcept.mpr ⟨fun _ _ => trivial, fun _ _ => trivial⟩

theorem watched_bind {p : Prog Ans ε α} {f : α → Prog Ans ε β} (hp : Watched P p)
    (hf : ∀ a, Watched P (f a)) : Watched P (p.bind f) :=
  obeys_bind.mpr (hp.mono (fun _ a _ => hf a) fun _ _ h => h)

theorem watched_tryCatch {p : Prog Ans ε α} {handler : ε → Prog Ans ε α} (hp : Watched P p)
    (hhandler : ∀ e, Watched P (handler e)) : Watched P (p.tryCatch handler) :=
  obeys_tryCatch.mpr (hp.mono (fun _ _ h => h) fun _ e _ => hhandler e)

theorem watched_forM {body : γ → Prog Ans ε PUnit} {xs : List γ}
    (h : ∀ x ∈ xs, Watched P (body x)) : Watched P (xs.forM body) := by
  induction xs with
  | nil => trivial
  | cons x xs ih =>
    exact watched_bind (h x List.mem_cons_self) fun _ => ih fun y hy => h y (List.mem_cons_of_mem _ hy)

theorem watched_block {body : γ → Prog Ans ε PUnit} {xs : List γ} (h : ∀ x ∈ xs, Watched P (body x)) :
    Watched P ((xs.forM body).tryCatch fun _ => .ret ⟨⟩) :=
  watched_tryCatch (watched_forM h) fun _ => watched_ret

/-- Under a monitor that each of these calls leaves where it stands. -/
theorem Watched.obeys {L : Type} {M : Monitor Ans L} {l : L} {p : Prog Ans ε α} (hp : Watched P p)
    (h : ∀ o, P o → M.allowed l o ∧ ∀ r, M.next l o r = l) :
    Obeys M (fun l' _ => l' = l) (fun l' _ => l' = l) p l := by
  induction p with
  | ret a => rfl
  | raise e => rfl
  | call o k ih =>
    obtain ⟨hallowed, hnext⟩ := h o hp.1
    refine ⟨hallowed, fun r _ => ?_⟩
    rw [hnext r]
    exact ih r (hp.2 r trivial)

/-- What each of these calls keeps, the program keeps. -/
theorem run_watched {I : World → Prop} (hanswer : ∀ w o, P o → I w → I (answer w o).2)
    {p : Prog Ans ε α} (hp : Watched P p) {w : World} (hI : I w) : I (run answer p w).2 := by
  induction p generalizing w with
  | ret a => exact hI
  | raise e => exact hI
  | call o k ih => exact ih _ (hp.2 _ trivial) (hanswer w o hp.1 hI)

/-- Run in another world, whose calls are answered as in this one. -/
theorem run_map {World' : Type} {answer' : World' → (o : Op) → Ans o × World'} {f : World → World'}
    (hanswer : ∀ w o, P o → answer' (f w) o = ((answer w o).1, f (answer w o).2)) {p : Prog Ans ε α}
    (hp : Watched P p) (w : World) : run answer' p (f w) = ((run answer p w).1, f (run answer p w).2) := by
  induction p generalizing w with
  | ret a => rfl
  | raise e => rfl
  | call o k ih =>
    rw [run_call, hanswer w o hp.1]
    exact ih _ (hp.2 _ trivial) (answer w o).2

end

end Kanat.ScheduledPrograms
