import Kanat.ResumptionPrograms
import Mathlib.Data.List.Basic

/-! # Threads that take turns, one call at a time

Each request that arrives is a thread of its own, running the program of that request. Threads share
a world, which answers their calls one at a time, in any order, and may change by itself between.
-/
namespace Kanat.InterleavedThreads
open ResumptionPrograms

variable {Op : Type} {Ans : Op → Type} {ε World Req Choice : Type}

/-- What runs. A program that ends with a request goes on as that request's program; a `Choice` is
what an answer or a change of the world leaves open. -/
structure System {Op : Type} (Ans : Op → Type) (ε World Req Choice : Type) where
  program : Req → Prog Ans ε (Option Req)
  answer : World → (o : Op) → Choice → Option (Ans o × World)
  drift : World → Choice → Option World

/-- A call that was answered, and the worlds before its answer and after. -/
structure Call {Op : Type} (Ans : Op → Type) (World Req : Type) where
  thread : ℕ
  request : Req
  op : Op
  answer : Ans op
  before : World
  after : World

structure Thread {Op : Type} (Ans : Op → Type) (ε Req : Type) where
  request : Req
  rest : Prog Ans ε (Option Req)

/-- The trace holds the newest call first. -/
structure Config {Op : Type} (Ans : Op → Type) (ε World Req : Type) where
  world : World
  threads : List (Thread Ans ε Req)
  trace : List (Call Ans World Req)

inductive Event (Req Choice : Type) where
  | arrive (r : Req)
  | drift (choice : Choice)
  | again (thread : ℕ)
  | answer (thread : ℕ) (choice : Choice)

/-- Thread `i` goes on with `rest`, its call answered. -/
def Config.answered (c : Config Ans ε World Req) (i : ℕ) (request : Req) (o : Op) (r : Ans o)
    (w : World) (rest : Prog Ans ε (Option Req)) : Config Ans ε World Req :=
  { world := w
    threads := c.threads.set i ⟨request, rest⟩
    trace := ⟨i, request, o, r, c.world, w⟩ :: c.trace }

namespace System
variable (S : System Ans ε World Req Choice)

def arrive (c : Config Ans ε World Req) (r : Req) : Config Ans ε World Req :=
  { c with threads := c.threads ++ [⟨r, S.program r⟩] }

def step (c : Config Ans ε World Req) : Event Req Choice → Option (Config Ans ε World Req)
  | .arrive r => some (S.arrive c r)
  | .drift choice => (S.drift c.world choice).map fun w => { c with world := w }
  | .again i =>
      match c.threads[i]? with
      | some ⟨request, .ret (some r)⟩ =>
          some { c with threads := c.threads.set i ⟨request, S.program r⟩ }
      | _ => none
  | .answer i choice =>
      match c.threads[i]? with
      | some ⟨request, .call o k⟩ =>
          (S.answer c.world o choice).map fun rw =>
            c.answered i request o rw.1 rw.2 (k rw.1)
      | _ => none

def run (c : Config Ans ε World Req) : List (Event Req Choice) → Option (Config Ans ε World Req)
  | [] => some c
  | e :: events => (S.step c e).bind fun c' => run c' events

def initial (w : World) (requests : List Req) : Config Ans ε World Req :=
  { world := w
    threads := requests.map fun r => ⟨r, S.program r⟩
    trace := [] }

/-- A run evaluated to its end. -/
theorem exists_run {c : Config Ans ε World Req} {events : List (Event Req Choice)}
    {P : Config Ans ε World Req → Prop} (hruns : (S.run c events).isSome)
    (hend : ∀ c' ∈ S.run c events, P c') : ∃ c', S.run c events = some c' ∧ P c' := by
  obtain ⟨c', hrun⟩ := Option.isSome_iff_exists.mp hruns
  exact ⟨c', hrun, hend c' hrun⟩

end System

/-- What a request's program is held to: `Ready` names the standings in which a request may be gone
on with, `Returned` and `Raised` what one that ends for good leaves. -/
structure Contract (Ans : Op → Type) (Req L : Type) extends Monitor Ans L where
  start : Req → L
  Ready : L → Req → Prop
  Returned : L → Prop
  Raised : L → Prop

def Contract.Holds {L : Type} (C : Contract Ans Req L) (p : Prog Ans ε (Option Req)) (l : L) :
    Prop :=
  Obeys C.toMonitor (fun l next => (∀ r ∈ next, C.Ready l r) ∧ (next = none → C.Returned l))
    (fun l _ => C.Raised l) p l

/-- Where a thread stands with its monitor after its calls in the trace. -/
def standing {L : Type} (C : Contract Ans Req L) (i : ℕ) (request : Req) :
    List (Call Ans World Req) → L
  | [] => C.start request
  | c :: trace =>
      if c.thread = i then C.next (standing C i request trace) c.op c.answer
      else standing C i request trace

section
variable {L : Type} {C : Contract Ans Req L} {i : ℕ} {request : Req}

@[simp] theorem standing_nil : standing C i request ([] : List (Call Ans World Req)) =
    C.start request := rfl

@[simp] theorem standing_cons_self {request' : Req} {o : Op} {r : Ans o} {w w' : World}
    {trace : List (Call Ans World Req)} :
    standing C i request (⟨i, request', o, r, w, w'⟩ :: trace) =
      C.next (standing C i request trace) o r := if_pos rfl

theorem standing_cons_of_ne {c : Call Ans World Req} {trace : List (Call Ans World Req)}
    (h : c.thread ≠ i) : standing C i request (c :: trace) =
      standing C i request trace := if_neg h

private theorem standing_of_forall_ne {trace : List (Call Ans World Req)}
    (h : ∀ c ∈ trace, c.thread ≠ i) : standing C i request trace = C.start request := by
  induction trace with
  | nil => rfl
  | cons c trace ih =>
    rw [standing_cons_of_ne (h c List.mem_cons_self)]
    exact ih fun c' hc' => h c' (List.mem_cons_of_mem _ hc')

end

structure Follows (S : System Ans ε World Req Choice) {L : Type} (C : Contract Ans Req L) :
    Prop where
  ready : ∀ r, C.Ready (C.start r) r
  holds : ∀ l r, C.Ready l r → C.Holds (S.program r) l
  possible : ∀ w o choice r w', S.answer w o choice = some (r, w') → C.possible o r

/-- Each thread's program still keeps to its monitor, and each call in the trace is of a thread that
is there, under its request. -/
structure Kept {L : Type} (C : Contract Ans Req L) (c : Config Ans ε World Req) : Prop where
  holds : ∀ i t, c.threads[i]? = some t → C.Holds t.rest (standing C i t.request c.trace)
  owned : ∀ call ∈ c.trace, ∃ t, c.threads[call.thread]? = some t ∧ t.request = call.request

section
variable {S : System Ans ε World Req Choice} {L : Type} {C : Contract Ans Req L}
  {c c' : Config Ans ε World Req}

theorem kept_initial (hS : Follows S C) (w : World) (requests : List Req) :
    Kept C (S.initial w requests) where
  holds i t ht := by
    obtain ⟨r, _, rfl⟩ := List.mem_map.mp (List.mem_of_getElem? ht)
    exact hS.holds _ _ (hS.ready r)
  owned call h := nomatch h

private theorem kept_arrive (hS : Follows S C) (h : Kept C c)
    (r : Req) : Kept C (S.arrive c r) where
  holds i t ht := by
    rw [System.arrive] at ht
    rcases Nat.lt_or_ge i c.threads.length with hi | hi
    · rw [List.getElem?_append_left hi] at ht
      exact h.holds i t ht
    · rw [List.getElem?_append_right hi, List.getElem?_singleton] at ht
      split_ifs at ht with hlen
      cases ht
      have hnew : ∀ call ∈ c.trace, call.thread ≠ i := by
        intro call hcall heq
        obtain ⟨t, ht, _⟩ := h.owned call hcall
        have := (List.getElem?_eq_some_iff.mp ht).1
        omega
      rw [show (S.arrive c r).trace = c.trace from rfl, standing_of_forall_ne hnew]
      exact hS.holds _ _ (hS.ready r)
  owned call hcall := by
    obtain ⟨t, ht, hr⟩ := h.owned call hcall
    exact ⟨t, by rw [System.arrive, List.getElem?_append_left (List.getElem?_eq_some_iff.mp ht).1, ht],
      hr⟩

/-- Replacing one thread's program. -/
theorem owned_set {i : ℕ} {t : Thread Ans ε Req} {rest : Prog Ans ε (Option Req)}
    {call : Call Ans World Req} (ht : c.threads[i]? = some t)
    (h : ∃ t', c.threads[call.thread]? = some t' ∧ t'.request = call.request) :
    ∃ t', (c.threads.set i ⟨t.request, rest⟩)[call.thread]? = some t' ∧
      t'.request = call.request := by
  obtain ⟨t', ht', hr⟩ := h
  by_cases hi : i = call.thread
  · rw [← hi] at ht' ⊢
    have := (List.getElem?_eq_some_iff.mp ht).1
    rw [List.getElem?_set_self this]
    exact ⟨_, rfl, by rw [← hr, Option.some.inj (ht.symm.trans ht')]⟩
  · exact ⟨t', by rw [List.getElem?_set_ne hi, ht'], hr⟩

private theorem kept_again (hS : Follows S C) (h : Kept C c)
    {i : ℕ} {request r : Req} (ht : c.threads[i]? = some ⟨request, .ret (some r)⟩) :
    Kept C { c with threads := c.threads.set i ⟨request, S.program r⟩ } where
  holds j t hj := by
    by_cases hij : i = j
    · subst hij
      have hlt := (List.getElem?_eq_some_iff.mp ht).1
      rw [List.getElem?_set_self hlt] at hj
      cases hj
      exact hS.holds _ _ ((h.holds i _ ht).1 r rfl)
    · rw [List.getElem?_set_ne hij] at hj
      exact h.holds j t hj
  owned call hcall := owned_set (t := ⟨request, .ret (some r)⟩) ht (h.owned call hcall)

private theorem kept_answered (h : Kept C c) {i : ℕ} {request : Req} {o : Op}
    {k : Ans o → Prog Ans ε (Option Req)} (ht : c.threads[i]? = some ⟨request, .call o k⟩)
    {r : Ans o} (hr : C.possible o r) (w : World) :
    Kept C (c.answered i request o r w (k r)) where
  holds j t hj := by
    rw [Config.answered] at hj ⊢
    by_cases hij : i = j
    · subst hij
      have hlt := (List.getElem?_eq_some_iff.mp ht).1
      rw [List.getElem?_set_self hlt] at hj
      cases hj
      dsimp only
      rw [standing_cons_self]
      exact (h.holds i _ ht).2 r hr
    · rw [List.getElem?_set_ne hij] at hj
      dsimp only
      rw [standing_cons_of_ne hij]
      exact h.holds j t hj
  owned call hcall := by
    rw [Config.answered] at hcall ⊢
    rcases List.mem_cons.mp hcall with rfl | hcall
    · have hlt := (List.getElem?_eq_some_iff.mp ht).1
      exact ⟨⟨request, k r⟩, List.getElem?_set_self hlt, rfl⟩
    · exact owned_set ht (h.owned call hcall)

/-- Every call of the thread so far is this request's. -/
def Owns (trace : List (Call Ans World Req)) (i : ℕ) (request : Req) : Prop :=
  ∀ call ∈ trace, call.thread = i → call.request = request

/-- What one answer may rely on: the thread's monitor allows the call, and its calls so far are its
own request's. -/
structure Answered (S : System Ans ε World Req Choice) (C : Contract Ans Req L)
    (w : World) (trace : List (Call Ans World Req)) (i : ℕ) (request : Req) (o : Op) (r : Ans o)
    (w' : World) : Prop where
  allowed : C.allowed (standing C i request trace) o
  owned : Owns trace i request
  answer : ∃ choice, S.answer w o choice = some (r, w')

/-- Where answers leave nothing open. -/
theorem Answered.eq_answer {w w' : World} {trace : List (Call Ans World Req)} {i : ℕ} {request : Req} {o : Op}
    {r : Ans o} {answer : World → (o : Op) → Ans o × World}
    (h : ∀ w o choice, S.answer w o choice = some (answer w o))
    (ha : Answered S C w trace i request o r w') : r = (answer w o).1 ∧ w' = (answer w o).2 := by
  obtain ⟨choice, hanswer⟩ := ha.answer
  rw [h, Option.some.injEq] at hanswer
  rw [hanswer]
  exact ⟨rfl, rfl⟩

theorem Owns.tail {call : Call Ans World Req} {trace : List (Call Ans World Req)} {i : ℕ}
    {request : Req} (h : Owns (call :: trace) i request) : Owns trace i request :=
  fun c hc => h c (List.mem_cons_of_mem _ hc)

theorem Owns.head {call : Call Ans World Req} {trace : List (Call Ans World Req)} {i : ℕ}
    {request : Req} (h : Owns (call :: trace) i request) (hi : call.thread = i) :
    call.request = request :=
  h call List.mem_cons_self hi

/-- A thread that is not there has made no call. -/
theorem Kept.no_call (h : Kept C c) {i : ℕ} (hi : c.threads[i]? = none) :
    ∀ call ∈ c.trace, call.thread ≠ i := by
  intro call hcall heq
  obtain ⟨t, ht, _⟩ := h.owned call hcall
  rw [heq, hi] at ht
  cases ht

/-- What the contract knows of a thread is known of its own request. -/
theorem Kept.owns (h : Kept C c) {i : ℕ} {t : Thread Ans ε Req} (ht : c.threads[i]? = some t) :
    Owns c.trace i t.request := by
  intro call hcall hi
  obtain ⟨t', ht', hr⟩ := h.owned call hcall
  rw [hi, ht] at ht'
  cases ht'
  exact hr.symm

/-- What every arrival, change of the world and answered call keeps, every run keeps. `A` says which
thread may be which request's. -/
theorem run_keeps (hS : Follows S C)
    {I : World → List (Call Ans World Req) → Prop} {A : ℕ → Req → Prop}
    (hdrift : ∀ w trace choice w', I w trace → S.drift w choice = some w' → I w' trace)
    (hanswer : ∀ w trace i request o r w', I w trace → A i request →
      Answered S C w trace i request o r w' → I w' (⟨i, request, o, r, w, w'⟩ :: trace))
    {events : List (Event Req Choice)}
    (harrive : ∀ r, .arrive r ∈ events → ∀ i, c.threads.length ≤ i → A i r)
    (hkept : Kept C c) (hthreads : ∀ i t, c.threads[i]? = some t → A i t.request)
    (hI : I c.world c.trace) (hrun : S.run c events = some c') :
    I c'.world c'.trace ∧ Kept C c' := by
  induction events generalizing c with
  | nil =>
    cases hrun
    exact ⟨hI, hkept⟩
  | cons e events ih =>
    have harrive' : ∀ r, .arrive r ∈ events → ∀ i, c.threads.length ≤ i → A i r := fun r hr =>
      harrive r (List.mem_cons_of_mem _ hr)
    have hset : ∀ {i request rest}, A i request → ∀ j (t : Thread Ans ε Req),
        (c.threads.set i ⟨request, rest⟩)[j]? = some t → A j t.request := by
      intro i request rest hi j t ht
      rw [List.getElem?_set] at ht
      split_ifs at ht with hij
      · cases ht
        exact hij ▸ hi
      · exact hthreads j t ht
    obtain ⟨d, hd, hrun⟩ := Option.bind_eq_some_iff.mp hrun
    cases e with
    | arrive r =>
      cases hd
      refine ih (fun r' hr' i hi => harrive' r' hr' i ?_) (kept_arrive hS hkept r)
        (fun i t ht => ?_) hI hrun
      · rw [System.arrive, List.length_append] at hi
        exact Nat.le_of_add_right_le hi
      · rw [System.arrive] at ht
        rcases Nat.lt_or_ge i c.threads.length with hi | hi
        · rw [List.getElem?_append_left hi] at ht
          exact hthreads i t ht
        · rw [List.getElem?_append_right hi, List.getElem?_singleton] at ht
          split_ifs at ht
          cases ht
          exact harrive r List.mem_cons_self i hi
    | drift choice =>
      obtain ⟨w, hw, rfl⟩ := Option.map_eq_some_iff.mp hd
      exact ih (c := { c with world := w }) harrive' ⟨hkept.holds, hkept.owned⟩ hthreads
        (hdrift _ _ _ _ hI hw) hrun
    | again i =>
      rw [System.step] at hd
      split at hd
      · next request r ht =>
        cases hd
        refine ih (fun r' hr' j hj => harrive' r' hr' j ?_) (kept_again hS hkept ht)
          (hset (hthreads i _ ht)) hI hrun
        rwa [List.length_set] at hj
      · cases hd
    | answer i choice =>
      rw [System.step] at hd
      split at hd
      · next request o k ht =>
        obtain ⟨⟨r, w⟩, hw, rfl⟩ := Option.map_eq_some_iff.mp hd
        have hreq : A i request := hthreads i _ ht
        refine ih (fun r' hr' j hj => harrive' r' hr' j ?_)
          (kept_answered hkept ht (hS.possible _ _ _ _ _ hw) w) (hset hreq) ?_ hrun
        · rwa [Config.answered, List.length_set] at hj
        · exact hanswer _ _ _ _ _ _ _ hI hreq ⟨(hkept.holds i _ ht).1, hkept.owns ht, choice, hw⟩
      · cases hd

end

/-- The thread has nothing left to do. -/
def Thread.Finished (t : Thread Ans ε Req) : Prop :=
  match t.rest with
  | .ret none => True
  | .raise _ => True
  | _ => False

instance : (t : Thread Ans ε Req) → Decidable t.Finished
  | ⟨_, .ret none⟩ => .isTrue trivial
  | ⟨_, .raise _⟩ => .isTrue trivial
  | ⟨_, .ret (some _)⟩ => .isFalse id
  | ⟨_, .call _ _⟩ => .isFalse id

/-- A finished thread of a kept run has come to one of its contract's ends. -/
theorem Kept.finished {L : Type} {C : Contract Ans Req L} {c : Config Ans ε World Req}
    (h : Kept C c) {i : ℕ} {t : Thread Ans ε Req} (ht : c.threads[i]? = some t)
    (hf : t.Finished) : C.Returned (standing C i t.request c.trace) ∨
      C.Raised (standing C i t.request c.trace) := by
  have hholds := h.holds i t ht
  obtain ⟨request, rest⟩ := t
  cases rest with
  | ret next =>
    cases next with
    | none => exact Or.inl (hholds.2 rfl)
    | some r => cases hf
  | raise e => exact Or.inr hholds
  | call o k => cases hf

/-- A thread whose every allowed call can be answered comes to its end by answers to its calls alone. -/
theorem finishes_alone {S : System Ans ε World Req Choice} {L : Type} {C : Contract Ans Req L}
    {J : L → World → Prop}
    (hanswer : ∀ l w o, J l w → C.allowed l o → ∃ choice r w',
      S.answer w o choice = some (r, w') ∧ C.possible o r ∧ J (C.next l o r) w')
    (hready : ∀ l w r, J l w → ¬C.Ready l r) {c : Config Ans ε World Req} {i : ℕ}
    {t : Thread Ans ε Req} (ht : c.threads[i]? = some t) {l : L} (hholds : C.Holds t.rest l)
    (hJ : J l c.world) :
    ∃ (choices : List Choice) (c' : Config Ans ε World Req),
      S.run c (choices.map fun choice => .answer i choice) = some c' ∧
      ∃ t', c'.threads[i]? = some t' ∧ t'.Finished := by
  obtain ⟨request, rest⟩ := t
  induction rest generalizing c l with
  | ret next =>
    cases next with
    | none => exact ⟨[], c, rfl, _, ht, trivial⟩
    | some r => exact absurd (hholds.1 r rfl) (hready l c.world r hJ)
  | raise e => exact ⟨[], c, rfl, _, ht, trivial⟩
  | call o k ih =>
    obtain ⟨hallowed, hk⟩ := hholds
    obtain ⟨choice, r, w, hw, hr, hJ'⟩ := hanswer l c.world o hJ hallowed
    have hlt := (List.getElem?_eq_some_iff.mp ht).1
    obtain ⟨choices, c', hrun, hend⟩ := ih r (c := c.answered i request o r w (k r))
      hJ' (List.getElem?_set_self hlt) (hk r hr)
    refine ⟨choice :: choices, c', ?_, hend⟩
    have hstep : S.step c (.answer i choice) = some (c.answered i request o r w (k r)) := by
      rw [System.step, ht]
      simp only [hw, Option.map_some]
    rw [List.map_cons, System.run, hstep]
    exact hrun

/-- `P` held of each call when it was answered, the earlier ones with it. -/
def EachCall (P : Call Ans World Req → List (Call Ans World Req) → Prop) :
    List (Call Ans World Req) → Prop
  | [] => True
  | c :: trace => P c trace ∧ EachCall P trace

instance decidableEachCall (P : Call Ans World Req → List (Call Ans World Req) → Prop)
    [∀ c earlier, Decidable (P c earlier)] : ∀ trace, Decidable (EachCall P trace)
  | [] => .isTrue trivial
  | _ :: trace =>
      have := decidableEachCall P trace
      inferInstanceAs (Decidable (_ ∧ _))

theorem eachCall_mono {P P' : Call Ans World Req → List (Call Ans World Req) → Prop}
    (h : ∀ c earlier, P c earlier → P' c earlier) {trace : List (Call Ans World Req)}
    (htrace : EachCall P trace) : EachCall P' trace := by
  induction trace with
  | nil => trivial
  | cons c trace ih => exact ⟨h c trace htrace.1, ih htrace.2⟩

end Kanat.InterleavedThreads
