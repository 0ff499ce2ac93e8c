import Mathlib.Logic.Basic

/-! # Programs that stop at every call they make

A program is the calls it makes, each answered by whatever it runs in, and what it does with the
answer. A caller may be interrupted at any call and nowhere else.
-/
namespace Kanat.ResumptionPrograms

/-- Calls `Op`, answered in `Ans`; ends with a value or an exception. -/
inductive Prog {Op : Type} (Ans : Op → Type) (ε α : Type) where
  | ret (a : α)
  | raise (e : ε)
  | call (o : Op) (k : Ans o → Prog Ans ε α)

variable {Op : Type} {Ans : Op → Type} {ε α β : Type}

namespace Prog

def bind : Prog Ans ε α → (α → Prog Ans ε β) → Prog Ans ε β
  | ret a, f => f a
  | raise e, _ => raise e
  | call o k, f => call o fun r => (k r).bind f

def tryCatch : Prog Ans ε α → (ε → Prog Ans ε α) → Prog Ans ε α
  | ret a, _ => ret a
  | raise e, handler => handler e
  | call o k, handler => call o fun r => (k r).tryCatch handler

instance : Monad (Prog Ans ε) where
  pure := ret
  bind := bind

instance : MonadExceptOf ε (Prog Ans ε) where
  throw := raise
  tryCatch := tryCatch

/-- One call, its answer returned. -/
def perform (o : Op) : Prog Ans ε (Ans o) :=
  call o ret

/-- Raises the exception an answer holds. -/
def ofExcept : Except ε α → Prog Ans ε α
  | .ok a => ret a
  | .error e => raise e

@[simp] theorem pure_eq (a : α) : (pure a : Prog Ans ε α) = ret a := rfl
@[simp] theorem throw_eq (e : ε) : (throw e : Prog Ans ε α) = raise e := rfl
@[simp] theorem bind_eq (p : Prog Ans ε α) (f : α → Prog Ans ε β) : p >>= f = p.bind f := rfl
@[simp] theorem map_eq (f : α → β) (p : Prog Ans ε α) :
    f <$> p = p.bind fun a => ret (f a) := rfl
@[simp] theorem tryCatch_eq (p : Prog Ans ε α) (f : ε → Prog Ans ε α) :
    MonadExceptOf.tryCatch p f = p.tryCatch f := rfl

@[simp] theorem ret_bind (a : α) (f : α → Prog Ans ε β) : (ret a).bind f = f a := rfl
@[simp] theorem raise_bind (e : ε) (f : α → Prog Ans ε β) : (raise e).bind f = raise e := rfl
@[simp] theorem call_bind (o : Op) (k : Ans o → Prog Ans ε α) (f : α → Prog Ans ε β) :
    (call o k).bind f = call o fun r => (k r).bind f := rfl

end Prog

/-- What one program is watched for: a state of its own calls so far, the calls it may make in each,
and the answers it may be given. -/
structure Monitor (Ans : Op → Type) (L : Type) where
  allowed : L → Op → Prop
  possible : (o : Op) → Ans o → Prop
  next : L → (o : Op) → Ans o → L

variable {L : Type}

/-- Whatever it may be answered, the program makes only allowed calls, and ends as `Q` or `E` say. -/
def Obeys (M : Monitor Ans L) (Q : L → α → Prop) (E : L → ε → Prop) :
    Prog Ans ε α → L → Prop
  | .ret a, l => Q l a
  | .raise e, l => E l e
  | .call o k, l => M.allowed l o ∧ ∀ r, M.possible o r → Obeys M Q E (k r) (M.next l o r)

variable {M : Monitor Ans L} {Q Q' : L → α → Prop} {E E' : L → ε → Prop} {l : L}

@[simp] theorem obeys_ret {a : α} : Obeys M Q E (.ret a) l ↔ Q l a := Iff.rfl
@[simp] theorem obeys_raise {e : ε} : Obeys M Q E (.raise e) l ↔ E l e := Iff.rfl

theorem Obeys.mono {p : Prog Ans ε α} (h : Obeys M Q E p l) (hQ : ∀ l a, Q l a → Q' l a)
    (hE : ∀ l e, E l e → E' l e) : Obeys M Q' E' p l := by
  induction p generalizing l with
  | ret a => exact hQ l a h
  | raise e => exact hE l e h
  | call o k ih => exact ⟨h.1, fun r hr => ih r (h.2 r hr)⟩

theorem obeys_bind {p : Prog Ans ε α} {f : α → Prog Ans ε β} {R : L → β → Prop} :
    Obeys M R E (p.bind f) l ↔ Obeys M (fun l a => Obeys M R E (f a) l) E p l := by
  induction p generalizing l with
  | ret a => exact Iff.rfl
  | raise e => exact Iff.rfl
  | call o k ih => exact and_congr_right fun _ => forall₂_congr fun r _ => ih r

theorem obeys_tryCatch {p : Prog Ans ε α} {handler : ε → Prog Ans ε α} :
    Obeys M Q E (p.tryCatch handler) l ↔
      Obeys M Q (fun l e => Obeys M Q E (handler e) l) p l := by
  induction p generalizing l with
  | ret a => exact Iff.rfl
  | raise e => exact Iff.rfl
  | call o k ih => exact and_congr_right fun _ => forall₂_congr fun r _ => ih r

theorem obeys_perform {o : Op} {Q : L → Ans o → Prop} :
    Obeys M Q E (Prog.perform o) l ↔
      M.allowed l o ∧ ∀ r, M.possible o r → Q (M.next l o r) r := Iff.rfl

/-- A call that any answer may come to. -/
theorem obeys_call {o : Op} {Q : L → Ans o → Prop} (hallowed : M.allowed l o)
    (h : ∀ r, Q (M.next l o r) r) : Obeys M Q E (Prog.perform o) l :=
  obeys_perform.mpr ⟨hallowed, fun r _ => h r⟩

theorem obeys_ofExcept {x : Except ε α} :
    Obeys M Q E (Prog.ofExcept x) l ↔ (∀ a, x = .ok a → Q l a) ∧ ∀ e, x = .error e → E l e := by
  cases x with
  | ok a => simp [Prog.ofExcept]
  | error e => simp [Prog.ofExcept]

/-- A loop keeps what each of its rounds keeps. -/
theorem obeys_forM {γ : Type} {xs : List γ} {body : γ → Prog Ans ε PUnit} {I : L → Prop}
    (hbody : ∀ x ∈ xs, ∀ l, I l → Obeys M (fun l _ => I l) E (body x) l) (hl : I l) :
    Obeys M (fun l _ => I l) E (xs.forM body) l := by
  induction xs generalizing l with
  | nil => exact hl
  | cons x xs ih =>
    refine obeys_bind.mpr ((hbody x List.mem_cons_self l hl).mono (fun l' _ hl' => ?_) fun _ _ h => h)
    exact ih (fun y hy => hbody y (List.mem_cons_of_mem _ hy)) hl'

section
variable {Op' : Type} {Ans' : Op' → Type}

/-- The answers to calls of either kind. -/
abbrev Either (Ans : Op → Type) (Ans' : Op' → Type) : Op ⊕ Op' → Type
  | .inl o => Ans o
  | .inr o => Ans' o

/-- The program where more calls can be made. -/
def Prog.widen : Prog Ans ε α → Prog (Either Ans Ans') ε α
  | ret a => ret a
  | raise e => raise e
  | call o k => call (.inl o) fun r => (k r).widen

/-- What a monitor of either kind of calls says of the first kind. -/
def Monitor.left (M : Monitor (Either Ans Ans') L) : Monitor Ans L where
  allowed l o := M.allowed l (.inl o)
  possible o r := M.possible (.inl o) r
  next l o r := M.next l (.inl o) r

theorem obeys_widen {M : Monitor (Either Ans Ans') L} {p : Prog Ans ε α} :
    Obeys M Q E p.widen l ↔ Obeys M.left Q E p l := by
  induction p generalizing l with
  | ret a => exact Iff.rfl
  | raise e => exact Iff.rfl
  | call o k ih => exact and_congr_right fun _ => forall₂_congr fun r _ => ih r

end

end Kanat.ResumptionPrograms
