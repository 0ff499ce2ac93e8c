import Mathlib.Data.List.ReduceOption
import Kanat.WebAppPublisher

/-! # What becomes of the values published

The worker is a state machine over the answers of its POSTs. What each step does with the value in hand is said once,
and the invariants are kept step by step; a truncated error answer is the step that ends it. -/
namespace Kanat.WebApp
open Bullets

variable {Value Key Seen : Type}

/-- The value in hand, and how many POSTs of it have begun. -/
def Worker.inHand : Worker Value → List (Value × ℕ)
  | .getting | .ended => []
  | .checking value n | .starting value n => [(value, n - 1)]
  | .posting value n | .waiting value n | .died value n => [(value, n)]

section
variable {value : Value} {n : ℕ}

@[simp] theorem inHand_getting : (.getting : Worker Value).inHand = [] := rfl

@[simp] theorem inHand_ended : (.ended : Worker Value).inHand = [] := rfl

@[simp] theorem inHand_checking : (Worker.checking value n).inHand = [(value, n - 1)] := rfl

@[simp] theorem inHand_starting : (Worker.starting value n).inHand = [(value, n - 1)] := rfl

@[simp] theorem inHand_posting : (Worker.posting value n).inHand = [(value, n)] := rfl

@[simp] theorem inHand_waiting : (Worker.waiting value n).inHand = [(value, n)] := rfl

@[simp] theorem inHand_died : (Worker.died value n).inHand = [(value, n)] := rfl

end

/-- Attempts are numbered from 1, and only one that another follows is waited after. -/
def Worker.Proper : Worker Value → Prop
  | .getting | .ended => True
  | .checking _ n | .starting _ n | .posting _ n | .died _ n => 1 ≤ n ∧ n ≤ attempts
  | .waiting _ n => 1 ≤ n ∧ n < attempts

/-- A value ends settled or given up after all its attempts; only a worker told to stop leaves it. -/
def Ending.Due : Ending → ℕ → Bool → Prop
  | .posted, made, _ | .refused, made, _ => 1 ≤ made ∧ made ≤ attempts
  | .gaveUp, made, _ => made = attempts
  | .notPosted, made, stop => made ≤ attempts ∧ stop

namespace Publisher
variable (key : Value → Key) (seen : Value → Seen) (p : Publisher Value Key Seen)

/-- How many POSTs the worker began after it had been told to stop. -/
def toldPosts : ℕ := p.posts.countP (·.told)

structure Inv : Prop where
  carried : p.published = p.ends.map (·.value) ++ p.worker.inHand.map (·.1) ++ p.queue.reduceOption
  posts : p.posts.map (·.data) = p.ends.flatMap (fun e => List.replicate e.made (payload key seen e.value)) ++
    p.worker.inHand.flatMap fun c => List.replicate c.2 (payload key seen c.1)
  proper : p.worker.Proper
  due : ∀ e ∈ p.ends, e.ending.Due e.made p.stop
  told : p.toldPosts ≤ 1
  untold : p.stop = false → p.toldPosts = 0
  starting : ∀ value n, p.worker = .starting value n → p.toldPosts = 0
  unleft : p.left = false → none ∉ p.queue ∧ p.worker ≠ .ended
  left : p.left = true → p.worker ≠ .ended → ∃ values, p.queue = values ++ [none] ∧ none ∉ values
  ended : p.worker = .ended → p.queue = []

variable {key seen p} {p' : Publisher Value Key Seen} {value : Value} {n : ℕ}

theorem inv_entered : (entered : Publisher Value Key Seen).Inv key seen where
  carried := rfl
  posts := rfl
  proper := trivial
  due _ h := by cases h
  told := Nat.zero_le _
  untold _ := rfl
  starting _ _ h := by cases h
  unleft _ := ⟨List.not_mem_nil, by simp [entered]⟩
  left h := by cases h
  ended h := by cases h

private theorem due_told {ending : Ending} {stop : Bool} (h : ending.Due n stop) : ending.Due n true := by
  cases ending with
  | posted | refused | gaveUp => exact h
  | notPosted => exact ⟨h.1, rfl⟩

theorem not_ended (h : p.worker.inHand ≠ []) : p.worker ≠ .ended := by
  rintro he
  rw [he] at h
  exact h rfl

/-- The worker moves on with the value in hand. -/
theorem Inv.move {worker : Worker Value} (h : p.Inv key seen) (hin : worker.inHand = p.worker.inHand)
    (hhand : worker.inHand ≠ []) (hproper : worker.Proper)
    (hstarting : ∀ value n, worker = .starting value n → p.stop = false) :
    ({ p with worker } : Publisher Value Key Seen).Inv key seen where
  carried := by rw [h.carried, hin]
  posts := by rw [h.posts, hin]
  proper := hproper
  due := h.due
  told := h.told
  untold := h.untold
  starting value n hw := h.untold (hstarting value n hw)
  unleft hl := ⟨(h.unleft hl).1, not_ended (p := { p with worker }) hhand⟩
  left hl _ := h.left hl (not_ended (hin ▸ hhand))
  ended hw := absurd hw (not_ended (p := { p with worker }) hhand)

/-- The worker is done with it. -/
theorem Inv.finish {ending : Ending} (h : p.Inv key seen) (hin : p.worker.inHand = [(value, n)])
    (hdue : ending.Due n p.stop) :
    (p.finish value ending n).Inv key seen where
  carried := by
    simp [Publisher.finish, h.carried, hin]
  posts := by
    simp [Publisher.finish, h.posts, hin]
  proper := trivial
  due e he := by
    rcases List.mem_append.mp he with he | he
    · exact h.due e he
    · rw [List.mem_singleton.mp he]
      exact hdue
  told := h.told
  untold := h.untold
  starting _ _ hw := by cases hw
  unleft hl := ⟨(h.unleft hl).1, by simp [Publisher.finish]⟩
  left hl _ := h.left hl (not_ended (by simp [hin]))
  ended hw := by cases hw

theorem inv_publish (h : p.Inv key seen) (hstep : p.step key seen (.publish value) = some p') :
    p'.Inv key seen := by
  rw [step] at hstep
  split_ifs at hstep with hl
  cases hstep
  have hleft : p.left = false := by simpa using hl
  refine ⟨?_, h.posts, h.proper, h.due, h.told, h.untold, h.starting, fun _ => ?_, ?_, fun he => ?_⟩
  · simp [h.carried, List.reduceOption_append, List.append_assoc]
  · simpa using h.unleft hleft
  · exact fun hl' => absurd hl' hl
  · exact absurd he (h.unleft hleft).2

private theorem inv_leave (h : p.Inv key seen) (hstep : p.step key seen .leave = some p') : p'.Inv key seen := by
  rw [step] at hstep
  split_ifs at hstep with hl
  cases hstep
  obtain ⟨hnone, hended⟩ := h.unleft (by simpa using hl)
  refine ⟨?_, h.posts, h.proper, h.due, h.told, h.untold, h.starting, fun hl' => ?_, ?_, fun he => ?_⟩
  · simp [h.carried, List.reduceOption_append]
  · cases hl'
  · exact fun _ _ => ⟨p.queue, rfl, hnone⟩
  · exact absurd he hended

private theorem inv_get (h : p.Inv key seen) (hstep : p.step key seen .get = some p') : p'.Inv key seen := by
  rw [step] at hstep
  split at hstep
  · next value queue hworker hqueue =>
    cases hstep
    refine ⟨?_, ?_, ?_, h.due, h.told, h.untold, fun _ _ hw => ?_, fun hl => ?_, fun hl _ => ?_, fun he => ?_⟩
    · simp [h.carried, hworker, hqueue]
    · simp [h.posts, hworker]
    · exact ⟨Nat.le_refl 1, by decide⟩
    · cases hw
    · have hnone := (h.unleft hl).1
      rw [hqueue] at hnone
      exact ⟨fun hn => hnone (List.mem_cons_of_mem _ hn), by simp⟩
    · obtain ⟨values, hvalues, hnone⟩ := h.left hl (by simp [hworker])
      rw [hqueue] at hvalues
      cases values with
      | nil => cases hvalues
      | cons v values =>
        cases hvalues
        exact ⟨values, rfl, fun hn => hnone (List.mem_cons_of_mem _ hn)⟩
    · cases he
  · next queue hworker hqueue =>
    cases hstep
    have hleft : p.left = true := by
      by_contra hl
      have hnone := (h.unleft (by simpa using hl)).1
      rw [hqueue] at hnone
      exact hnone List.mem_cons_self
    refine ⟨?_, ?_, trivial, h.due, h.told, h.untold, fun _ _ hw => ?_, fun hl => ?_, fun _ he => ?_, fun _ => ?_⟩
    · simp [h.carried, hworker, hqueue]
    · simp [h.posts, hworker]
    · cases hw
    · exact absurd (hleft.symm.trans hl) nofun
    · exact absurd rfl he
    · obtain ⟨values, hvalues, hnone⟩ := h.left hleft (by simp [hworker])
      rw [hqueue] at hvalues
      cases values with
      | nil => exact (List.cons.inj hvalues).2
      | cons v values =>
        rw [(List.cons.inj hvalues).1] at hnone
        exact absurd List.mem_cons_self hnone
  · cases hstep

private theorem inv_check (h : p.Inv key seen) (hstep : p.step key seen .check = some p') : p'.Inv key seen := by
  rw [step] at hstep
  split at hstep
  · next value n hworker =>
    have hproper := h.proper
    rw [hworker] at hproper
    cases hstep
    split_ifs with hstop
    · refine h.finish (by rw [hworker]; rfl) ⟨?_, hstop⟩
      have := hproper.2
      omega
    · refine h.move (by rw [hworker]; rfl) ?_ hproper fun _ _ _ => by simpa using hstop
      simp
  · cases hstep

theorem inv_start (h : p.Inv key seen) (hstep : p.step key seen .start = some p') : p'.Inv key seen := by
  rw [step] at hstep
  split at hstep
  · next value n hworker =>
    have hproper := h.proper
    have htold := h.starting value n hworker
    rw [hworker] at hproper
    cases hstep
    have hcount : ({ p with
        worker := .posting value n, posts := p.posts ++ [⟨payload key seen value, p.stop⟩] } :
        Publisher Value Key Seen).toldPosts = if p.stop then 1 else 0 := by
      simpa [toldPosts, List.countP_append, List.countP_singleton] using htold
    refine ⟨?_, ?_, hproper, h.due, ?_, fun hstop => ?_, fun _ _ hw => ?_, fun hl => ?_, fun hl _ => ?_,
      fun hw => ?_⟩
    · simp [h.carried, hworker]
    · obtain ⟨k, rfl⟩ : ∃ k, n = k + 1 := ⟨n - 1, by have := hproper.1; omega⟩
      simp [h.posts, hworker, Worker.inHand, List.replicate_succ']
    · rw [hcount]
      split_ifs <;> omega
    · rw [hcount, if_neg (by simpa using hstop)]
    · cases hw
    · exact ⟨(h.unleft hl).1, by simp⟩
    · exact h.left hl (by simp [hworker])
    · cases hw
  · cases hstep

private theorem inv_outcome {o : Outcome} (h : p.Inv key seen)
    (hstep : p.step key seen (.outcome o) = some p') : p'.Inv key seen := by
  rw [step] at hstep
  split at hstep
  · next value n hworker =>
    have hproper := h.proper
    rw [hworker] at hproper
    have hin : p.worker.inHand = [(value, n)] := by rw [hworker]; rfl
    split at hstep
    · cases hstep
      exact h.move hin.symm (by simp) hproper nofun
    · cases hstep
      refine h.finish hin ?_
      cases o with
      | response | httpError | exception => exact hproper
    · cases hstep
      split_ifs with hn
      · exact h.move hin.symm (by simp) ⟨hproper.1, hn⟩ nofun
      · exact h.finish hin (Nat.le_antisymm hproper.2 (Nat.le_of_not_lt hn))
  · cases hstep

theorem inv_step {a : Act Value} (h : p.Inv key seen) (hstep : p.step key seen a = some p') :
    p'.Inv key seen := by
  cases a with
  | publish value => exact inv_publish h hstep
  | leave => exact inv_leave h hstep
  | timeOut =>
    rw [step] at hstep
    split_ifs at hstep
    cases hstep
    exact ⟨h.carried, h.posts, h.proper, fun e he => due_told (h.due e he), h.told, nofun, h.starting,
      h.unleft, h.left, h.ended⟩
  | get => exact inv_get h hstep
  | check => exact inv_check h hstep
  | start => exact inv_start h hstep
  | outcome o => exact inv_outcome h hstep
  | wake =>
    rw [step] at hstep
    split at hstep
    · next value n hworker =>
      have hproper := h.proper
      rw [hworker] at hproper
      cases hstep
      refine h.move (by rw [hworker]; rfl) (by simp) ⟨?_, ?_⟩ nofun
      · omega
      · exact hproper.2
    · cases hstep

theorem inv_run {acts : List (Act Value)} (h : p.Inv key seen) (hrun : p.run key seen acts = some p') :
    p'.Inv key seen := by
  induction acts generalizing p with
  | nil => cases hrun; exact h
  | cons a acts ih =>
    obtain ⟨q, hstep, hrun⟩ := Option.bind_eq_some_iff.mp hrun
    exact ih (inv_step h hstep) hrun

/-- An HTTP error answer whose body cannot be read to its end. -/
def Unread : Act Value → Prop
  | .outcome (.httpError _ false) => True
  | _ => False

def OfWorker : Act Value → Prop
  | .get | .check | .start | .outcome _ | .wake => True
  | _ => False

def Dead (p : Publisher Value Key Seen) : Prop := ∃ value n, p.worker = .died value n

theorem attempt_eq_error {o : Outcome} {e : Unit} :
    attempt o = .error e ↔ Unread (.outcome o : Act Value) := by
  cases o with
  | response status => simp [attempt, Unread]
  | exception => simp [attempt, Unread]
  | httpError code bodyReads => cases bodyReads <;> simp [attempt, Unread]

/-- Nothing but such an answer ends the worker's thread, and nothing revives it. -/
theorem dead_step {a : Act Value} (hstep : p.step key seen a = some p') :
    p'.Dead ↔ p.Dead ∨ Unread a := by
  cases a with
  | publish | leave | timeOut =>
    rw [step] at hstep
    split_ifs at hstep
    cases hstep
    simp [Dead, Unread]
  | get | start | wake =>
    rw [step] at hstep
    split at hstep <;> cases hstep <;> simp_all [Dead, Unread]
  | check =>
    rw [step] at hstep
    split at hstep <;> cases hstep
    split_ifs <;> simp_all [Dead, Unread, Publisher.finish]
  | outcome o =>
    rw [step] at hstep
    split at hstep
    · next value n hworker =>
      have hp : ¬ p.Dead := by simp [Dead, hworker]
      cases ho : attempt o with
      | error e =>
        rw [ho] at hstep
        cases hstep
        exact iff_of_true ⟨value, n, rfl⟩ (.inr (attempt_eq_error.mp ho))
      | ok settled =>
        have hread : ¬ Unread (.outcome o : Act Value) := by
          rw [← attempt_eq_error (e := ()), ho]
          exact nofun
        rw [ho] at hstep
        refine iff_of_false ?_ (not_or.mpr ⟨hp, hread⟩)
        cases settled <;> cases hstep
        · split_ifs <;> simp [Dead, Publisher.finish]
        · simp [Dead, Publisher.finish]
    · cases hstep

private theorem dead_run {acts : List (Act Value)} (hrun : p.run key seen acts = some p') :
    p'.Dead ↔ p.Dead ∨ ∃ a ∈ acts, Unread a := by
  induction acts generalizing p with
  | nil => cases hrun; simp
  | cons a acts ih =>
    obtain ⟨q, hstep, hrun⟩ := Option.bind_eq_some_iff.mp hrun
    rw [ih hrun, dead_step hstep, or_assoc, List.exists_mem_cons_iff]

/-- How many acts of the worker's are to come at most, were nothing else published. -/
def Worker.rank : Worker Value → ℕ
  | .getting | .ended | .died .. => 0
  | .checking _ n => 4 * (attempts + 1 - n)
  | .starting _ n => 4 * (attempts + 1 - n) - 1
  | .posting _ n => 4 * (attempts + 1 - n) - 2
  | .waiting _ n => 4 * (attempts + 1 - n) - 3

def rank (p : Publisher Value Key Seen) : ℕ :=
  Worker.rank p.worker + p.queue.length * (4 * attempts + 1)

private theorem rank_step {a : Act Value} (h : p.Inv key seen) (ha : OfWorker a)
    (hstep : p.step key seen a = some p') : p'.rank < p.rank := by
  have hproper := h.proper
  cases a with
  | publish | leave | timeOut => exact ha.elim
  | get =>
    rw [step] at hstep
    split at hstep
    · next value queue hworker hqueue =>
      cases hstep
      simp only [rank, hworker, hqueue, Worker.rank, List.length_cons, Nat.succ_mul]
      omega
    · next queue hworker hqueue =>
      cases hstep
      simp only [rank, hworker, hqueue, Worker.rank, List.length_cons, Nat.succ_mul]
      omega
    · cases hstep
  | check =>
    rw [step] at hstep
    split at hstep <;> cases hstep
    next value n hworker =>
    rw [hworker] at hproper
    have hn := hproper.2
    split_ifs
    · simp only [rank, Publisher.finish, hworker, Worker.rank]
      omega
    · simp only [rank, hworker, Worker.rank]
      omega
  | start =>
    rw [step] at hstep
    split at hstep <;> cases hstep
    next value n hworker =>
    rw [hworker] at hproper
    have hn := hproper.2
    simp only [rank, hworker, Worker.rank]
    omega
  | outcome o =>
    rw [step] at hstep
    split at hstep
    · next value n hworker =>
      rw [hworker] at hproper
      have hn := hproper.2
      split at hstep <;> cases hstep
      · simp only [rank, hworker, Worker.rank]
        omega
      · simp only [rank, Publisher.finish, hworker, Worker.rank]
        omega
      · split_ifs
        · simp only [rank, hworker, Worker.rank]
          omega
        · simp only [rank, Publisher.finish, hworker, Worker.rank]
          omega
    · cases hstep
  | wake =>
    rw [step] at hstep
    split at hstep <;> cases hstep
    next value n hworker =>
    rw [hworker] at hproper
    have hn := hproper.2
    simp only [rank, hworker, Worker.rank]
    omega

private theorem rank_run {acts : List (Act Value)} (h : p.Inv key seen) (hacts : ∀ a ∈ acts, OfWorker a)
    (hrun : p.run key seen acts = some p') : acts.length + p'.rank ≤ p.rank := by
  induction acts generalizing p with
  | nil => cases hrun; simp
  | cons a acts ih =>
    obtain ⟨q, hstep, hrun⟩ := Option.bind_eq_some_iff.mp hrun
    have hlt := rank_step h (hacts a List.mem_cons_self) hstep
    have hle := ih (inv_step h hstep) (fun b hb => hacts b (List.mem_cons_of_mem _ hb)) hrun
    rw [List.length_cons]
    omega

variable (key seen) in
/-- The worker carries on: it never ends before the sentinel, and comes to it once the Run has left; up to
a drain that times out, each value it is done with was settled, or given up after all its attempts, and at
the sentinel that is every value published. -/
structure CarriesOn (p : Publisher Value Key Seen) : Prop where
  lives : ¬ p.Dead
  goesOn : p.left → p.worker ≠ .ended → ∃ a, OfWorker a ∧ (p.step key seen a).isSome
  arrives : ∀ acts, (∀ a ∈ acts, OfWorker a) → (p.run key seen acts).isSome → acts.length ≤ p.rank
  ends : p.stop = false → ∀ e ∈ p.ends,
    (e.ending = .posted ∨ e.ending = .refused) ∧ 1 ≤ e.made ∨ e.ending = .gaveUp ∧ e.made = attempts
  all : p.worker = .ended → p.ends.map (·.value) = p.published
  made : p.posts.map (·.data) = p.ends.flatMap (fun e => List.replicate e.made (payload key seen e.value)) ++
    p.worker.inHand.flatMap fun c => List.replicate c.2 (payload key seen c.1)

private theorem goesOn_of_not_dead (h : p.Inv key seen) (hdead : ¬ p.Dead) (hleft : p.left)
    (hended : p.worker ≠ .ended) : ∃ a, OfWorker a ∧ (p.step key seen a).isSome := by
  cases hworker : p.worker with
  | getting =>
    obtain ⟨values, hvalues, -⟩ := h.left hleft hended
    refine ⟨.get, trivial, ?_⟩
    rw [step, hworker, hvalues]
    cases values with
    | nil => rfl
    | cons v values => cases v <;> rfl
  | checking value n => exact ⟨.check, trivial, by rw [step, hworker]; rfl⟩
  | starting value n => exact ⟨.start, trivial, by rw [step, hworker]; rfl⟩
  | posting value n => exact ⟨.outcome .exception, trivial, by rw [step, hworker]; rfl⟩
  | waiting value n => exact ⟨.wake, trivial, by rw [step, hworker]; rfl⟩
  | ended => exact absurd hworker hended
  | died value n => exact absurd ⟨value, n, hworker⟩ hdead

private theorem carriesOn_of_not_dead (h : p.Inv key seen) (hdead : ¬ p.Dead) : p.CarriesOn key seen where
  lives := hdead
  goesOn := goesOn_of_not_dead h hdead
  arrives acts hacts hrun := by
    obtain ⟨p', hp'⟩ := Option.isSome_iff_exists.mp hrun
    have := rank_run h hacts hp'
    omega
  ends hstop e he := by
    have hdue := h.due e he
    cases hending : e.ending with
    | posted => exact .inl ⟨.inl rfl, by rw [hending] at hdue; exact hdue.1⟩
    | refused => exact .inl ⟨.inr rfl, by rw [hending] at hdue; exact hdue.1⟩
    | gaveUp => exact .inr ⟨rfl, by rw [hending] at hdue; exact hdue⟩
    | notPosted =>
      rw [hending, hstop] at hdue
      exact absurd hdue.2 nofun
  all hended := by
    rw [h.carried, hended, h.ended hended]
    simp
  made := h.posts

/-- The worker carries on exactly as long as the body of each error answer can be read. -/
theorem carriesOn_iff {acts : List (Act Value)} (hrun : entered.run key seen acts = some p) :
    p.CarriesOn key seen ↔ ∀ a ∈ acts, ¬ Unread a := by
  have hdead : p.Dead ↔ ∃ a ∈ acts, Unread a := by
    rw [dead_run hrun]
    exact or_iff_right fun ⟨_, _, h⟩ => nomatch h
  have hlives : ¬ p.Dead ↔ ∀ a ∈ acts, ¬ Unread a := by
    rw [hdead]
    push Not
    rfl
  rw [← hlives]
  exact ⟨CarriesOn.lives, carriesOn_of_not_dead (inv_run inv_entered hrun)⟩

/-- A value refused, and one posted at its second attempt. -/
theorem carriesOn_iff_retried : ∃ p : Publisher ℕ ℕ ℕ,
    entered.run id id [.publish 3, .publish 4, .get, .check, .start, .outcome (.httpError 409 true), .get,
      .check, .start, .outcome .exception, .leave, .wake, .check, .start, .outcome (.response 201),
      .get] = some p ∧ p.CarriesOn id id :=
  ⟨_, rfl, (carriesOn_iff (show entered.run id id [.publish 3, .publish 4, .get, .check, .start,
    .outcome (.httpError 409 true), .get, .check, .start, .outcome .exception, .leave, .wake, .check,
    .start, .outcome (.response 201), .get] = some _ from rfl)).mpr (by simp [Unread])⟩

/-- A truncated error answer to the first value ends the thread: the second is never taken. -/
theorem truncated_answer_ends_worker : ∃ p : Publisher ℕ ℕ ℕ,
    entered.run id id [.publish 3, .publish 4, .get, .check, .start, .outcome (.httpError 500 false),
      .leave] = some p ∧ p.stop = false ∧ p.queue = [some 4, none] ∧ p.alive = false ∧
      ¬ p.CarriesOn id id :=
  ⟨_, rfl, rfl, rfl, rfl, fun h => h.lives ⟨3, 1, rfl⟩⟩

end Publisher
end Kanat.WebApp
