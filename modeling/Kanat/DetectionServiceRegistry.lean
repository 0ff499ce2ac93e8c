import Kanat.DetectionServiceRuns
import Mathlib.Data.List.InsertIdx
import Mathlib.Data.List.Nodup

/-! # One Run at a time, and what each call may answer

`Slot` says who works on which Run, and that the current one is the only one that has not finished. It is kept by each
operation, the creation of a Run apart, and by every run. -/
namespace Kanat.DetectionService
open ResumptionPrograms InterleavedThreads

variable {Id View : Type}

abbrev Call (Id View : Type) := InterleavedThreads.Call (Ans Id View) (World Id View) (Request Id)

/-- The Run the call creates. -/
def creates (c : Call Id View) : Option ℕ :=
  match c.op, c.answer with
  | .claim .., .ok run => if c.before.current = none then some run else none
  | _, _ => none

/-- The Run the call's thread was started for. -/
def begins (c : Call Id View) : Option ℕ :=
  match c.op, c.answer with
  | .begin, (run, _) => some run
  | _, _ => none

def begun (run : ℕ) (trace : List (Call Id View)) : Bool :=
  trace.any fun c => begins c = some run

/-- The Run's publisher has been entered, and not left. -/
def publisherOpen (run : ℕ) : List (Call Id View) → Bool
  | [] => false
  | c :: earlier =>
      match c.op, c.answer with
      | .openPublisher i, .ok _ => i = run || publisherOpen run earlier
      | .closePublisher i, _ => i ≠ run && publisherOpen run earlier
      | _, _ => publisherOpen run earlier

/-- The Run whose publisher the call leaves; one that never entered any is done at its release. -/
def leaves (c : Call Id View) (earlier : List (Call Id View)) : Option ℕ :=
  match c.op with
  | .closePublisher run => some run
  | .release run => if publisherOpen run earlier then none else some run
  | _ => none

/-- The Runs between their creation and their worker's leaving the publisher. -/
def inPlace : List (Call Id View) → List ℕ
  | [] => []
  | c :: earlier =>
      match creates c with
      | some run => run :: inPlace earlier
      | none => (inPlace earlier).filter fun run => leaves c earlier ≠ some run

/-- The worker has taken the Run out of the registry. -/
def released (run : ℕ) (trace : List (Call Id View)) : Bool :=
  trace.any fun c =>
    match c.op with
    | .release i => i = run
    | _ => false

/-- The worker has done its last. -/
def workerDone (run : ℕ) (trace : List (Call Id View)) : Bool :=
  trace.any fun c =>
    match c.op with
    | .setEnded i => i = run
    | _ => false

def askedWhileStarting (run : ℕ) (trace : List (Call Id View)) : Bool :=
  trace.any fun c =>
    match c.op, c.answer with
    | .enterEnding i, was => i = run && was = .starting
    | _, _ => false

/-- The Run whose worker alone makes the call, once its Stream has opened, but to stop its loop. -/
def workerOp : Op Id View → Option ℕ
  | .openPublisher run | .baseline run | .enterWatching run _ _ | .looks run | .closePublisher run
  | .fail run _ | .release run | .setReady run | .setEnded run => some run
  | _ => none

/-- The Run a thread's call has started or found. -/
def holds (thread : ℕ) : List (Call Id View) → Option ℕ
  | [] => none
  | c :: earlier =>
      if c.thread = thread then
        match c.op, c.answer with
        | .claim .., .ok run => some run
        | .find, some (run, _) => some run
        | _, _ => holds thread earlier
      else holds thread earlier

/-- What holds of the registry, and of who works on what. -/
structure Slot (w : World Id View) (trace : List (Call Id View)) : Prop where
  current : ∀ i, w.current = some i → i < w.runs.length ∧ released i trace = false
  inPlace : ∀ i ∈ inPlace trace, w.current = some i
  one : (DetectionService.inPlace trace).length ≤ 1
  threads : ∀ t ∈ w.threads, t.1 < w.runs.length
  threadsNodup : (w.threads.map Prod.fst).Nodup
  begun : ∀ i, begun i trace = true → i < w.runs.length ∧ i ∉ w.threads.map Prod.fst
  works : ∀ j request, Owns trace j request → ∀ i,
    (standing contract j request trace).works = some i → DetectionService.begun i trace = true
  unique : ∀ j request, Owns trace j request → ∀ k request', Owns trace k request' → ∀ i,
    (standing contract j request trace).works = some i →
    (standing contract k request' trace).works = some i → j = k
  unbegun : ∀ i, DetectionService.begun i trace = false →
    publisherOpen i trace = false ∧ released i trace = false
  publishing : ∀ j request, Owns trace j request → ∀ i,
    (standing contract j request trace).works = some i →
    (standing contract j request trace).publishing = publisherOpen i trace ∧
    (standing contract j request trace).released = released i trace
  closed : ∀ i, released i trace = true → publisherOpen i trace = false
  free : ∀ j request, Owns trace j request →
    (standing contract j request trace).found ≠ none →
    (standing contract j request trace).works = none
  fresh : ∀ j request, Owns trace j request →
    (standing contract j request trace).works = none → (standing contract j request trace).Fresh
  begins : ∀ call ∈ trace, ∀ i, begins call = some i → ∀ request, Owns trace call.thread request →
    (standing contract call.thread request trace).works = some i

section
variable [DecidableEq Id] {w w' : World Id View} {trace : List (Call Id View)} {t : ℕ}
  {request : Request Id} {o : Op Id View} {a : Ans Id View o} {i : ℕ}

omit [DecidableEq Id] in
theorem publisherOpen_cons_of_ne {c : Call Id View} (h : workerOp c.op ≠ some i) :
    publisherOpen i (c :: trace) = publisherOpen i trace := by
  rcases c with ⟨t, request, o, a, w, w'⟩
  cases o with
  | openPublisher run =>
    have hrun : run ≠ i := fun hrun => h (congrArg some hrun)
    cases a <;> simp [publisherOpen, hrun]
  | closePublisher run =>
    have hrun : run ≠ i := fun hrun => h (congrArg some hrun)
    simp [publisherOpen, hrun]
  | _ => rfl

omit [DecidableEq Id] in
theorem released_cons_of_ne {c : Call Id View} (h : c.op ≠ .release i) :
    released i (c :: trace) = released i trace := by
  rcases c with ⟨t, request, o, a, w, w'⟩
  cases o with
  | release run =>
    have hrun : run ≠ i := fun hrun => h (congrArg Op.release hrun)
    simp [released, hrun]
  | _ => rfl

omit [DecidableEq Id] in
theorem begun_cons {c : Call Id View} : begun i (c :: trace) = true ↔
    begins c = some i ∨ begun i trace = true := by
  simp only [begun, List.any_cons, Bool.or_eq_true, decide_eq_true_eq]

/-- Who makes a worker's call works on that Run. -/
theorem works_of_workerOp (h : Answered service contract w trace t request o a w')
    (ho : workerOp o = some i) : (standing contract t request trace).Works i := by
  have hallowed : (standing contract t request trace).Allows o := h.allowed
  cases o <;> cases ho <;> first | exact hallowed | exact hallowed.1

theorem length_le (h : Answered service contract w trace t request o a w') :
    w.runs.length ≤ w'.runs.length := by
  obtain ⟨choice, ha⟩ : ∃ choice, answer w o choice = some (a, w') := h.answer
  rcases Nat.eq_zero_or_pos w.runs.length with hzero | hpos
  · omega
  · obtain ⟨r, hr⟩ : ∃ r, w.runs[w.runs.length - 1]? = some r :=
      ⟨_, List.getElem?_eq_getElem (by omega)⟩
    have := (List.getElem?_eq_some_iff.mp (run_after ha hr)).1
    omega

theorem answer_begin {choice : Choice View} {begun : ℕ × String}
    (h : answer w .begin choice = some (begun, w')) :
    ∃ k, w.threads[k]? = some begun ∧ w' = { w with threads := w.threads.eraseIdx k } := by
  cases choice with
  | thread k =>
    obtain ⟨_, hk, h⟩ := Option.map_eq_some_iff.mp h
    cases h
    exact ⟨k, hk, rfl⟩
  | _ => cases h

theorem answer_release {choice : Choice View} {run : ℕ} {u : Unit}
    (h : answer w (.release run) choice = some (u, w')) : w' = w.release run := by
  cases choice <;> simp only [answer] at h <;> cases h
  rfl

omit [DecidableEq Id] in
theorem current_release {run : ℕ} : (w.release run).current =
    if w.current = some run then none else w.current := by
  unfold World.release
  split_ifs <;> rfl

private theorem current_step (hI : Slot w trace)
    (h : Answered service contract w trace t request o a w') (hcurrent : w'.current = some i) :
    i < w'.runs.length ∧ released i (⟨t, request, o, a, w, w'⟩ :: trace) = false := by
  obtain ⟨choice, ha⟩ : ∃ choice, answer w o choice = some (a, w') := h.answer
  have hsame : o ≠ .release i → w.current = some i →
      i < w'.runs.length ∧ released i (⟨t, request, o, a, w, w'⟩ :: trace) = false := by
    intro ho hcurrent
    obtain ⟨hlt, hreleased⟩ := hI.current i hcurrent
    exact ⟨Nat.lt_of_lt_of_le hlt (length_le h), (released_cons_of_ne ho).trans hreleased⟩
  cases o with
  | claim session url =>
    rcases answer_claim ha with ⟨_, _, rfl⟩ | ⟨run, _, _, _, rfl, _⟩
    · -- a Run nothing has heard of yet
      obtain rfl : w.runs.length = i := Option.some.inj hcurrent
      have hbegun : begun w.runs.length trace = false := by
        rw [← Bool.not_eq_true]
        exact fun hbegun => Nat.lt_irrefl _ (hI.begun _ hbegun).1
      exact ⟨by simp [World.create], (hI.unbegun _ hbegun).2⟩
    · exact hsame (by simp) hcurrent
  | release run =>
    rw [answer_release ha, current_release] at hcurrent
    split_ifs at hcurrent with hrun
    refine hsame ?_ hcurrent
    rintro ⟨⟩
    exact hrun hcurrent
  | _ =>
    rw [current_of_answer ha (by simp) (by simp)] at hcurrent
    exact hsame (by simp) hcurrent

theorem inPlace_step (hI : Slot w trace)
    (h : Answered service contract w trace t request o a w') :
    (∀ i ∈ inPlace (⟨t, request, o, a, w, w'⟩ :: trace), w'.current = some i) ∧
      (inPlace (⟨t, request, o, a, w, w'⟩ :: trace)).length ≤ 1 := by
  obtain ⟨choice, ha⟩ : ∃ choice, answer w o choice = some (a, w') := h.answer
  have hkept : creates ⟨t, request, o, a, w, w'⟩ = none →
      (∀ i, w.current = some i → leaves ⟨t, request, o, a, w, w'⟩ trace ≠ some i →
        w'.current = some i) →
      (∀ i ∈ inPlace (⟨t, request, o, a, w, w'⟩ :: trace), w'.current = some i) ∧
        (inPlace (⟨t, request, o, a, w, w'⟩ :: trace)).length ≤ 1 := by
    intro hcreates hcurrent
    simp only [inPlace, hcreates]
    constructor
    · intro i hi
      obtain ⟨hi, hleaves⟩ := List.mem_filter.mp hi
      exact hcurrent i (hI.inPlace i hi) (of_decide_eq_true hleaves)
    · exact Nat.le_trans (List.length_filter_le _ _) hI.one
  cases o with
  | claim session url =>
    rcases answer_claim ha with ⟨hcurrent, rfl, rfl⟩ | ⟨run, holder, hcurrent, _, rfl, _⟩
    · -- no Run was in place
      have hnil : inPlace trace = [] := by
        rw [List.eq_nil_iff_forall_not_mem]
        intro i hi
        rw [hI.inPlace i hi] at hcurrent
        cases hcurrent
      have hcreates : creates ⟨t, request, .claim session url, .ok w.runs.length, w,
          w.create session url⟩ = some w.runs.length := if_pos hcurrent
      simp only [inPlace, hcreates, hnil]
      refine ⟨fun i hi => ?_, Nat.le_refl _⟩
      rw [List.mem_singleton.mp hi]
      rfl
    · refine hkept ?_ fun _ hi _ => hi
      rw [creates]
      split
      · rw [if_neg (by rw [hcurrent]; nofun)]
      · rfl
  | release run =>
    refine hkept rfl fun i hi hleaves => ?_
    obtain ⟨hworks, hclosed⟩ : (standing contract t request trace).Works run ∧ _ := h.allowed
    have hopen := (hI.publishing t request h.owned run hworks.works).1
    rw [answer_release ha, current_release, if_neg, hi]
    rintro hrun
    rw [hi] at hrun
    refine hleaves ?_
    change (if publisherOpen run trace = true then none else some run) = some i
    rw [← hopen, hclosed, hrun]
    rfl
  | _ => exact hkept rfl fun i hi _ => (current_of_answer ha (by simp) (by simp)).trans hi

theorem threads_step (hI : Slot w trace)
    (h : Answered service contract w trace t request o a w') :
    (∀ t ∈ w'.threads, t.1 < w'.runs.length) ∧ (w'.threads.map Prod.fst).Nodup ∧
      ∀ i, begun i (⟨t, request, o, a, w, w'⟩ :: trace) = true →
        i < w'.runs.length ∧ i ∉ w'.threads.map Prod.fst := by
  obtain ⟨choice, ha⟩ : ∃ choice, answer w o choice = some (a, w') := h.answer
  have hle := length_le h
  have hsame : w'.threads = w.threads → begins ⟨t, request, o, a, w, w'⟩ = none →
      (∀ t ∈ w'.threads, t.1 < w'.runs.length) ∧ (w'.threads.map Prod.fst).Nodup ∧
        ∀ i, begun i (⟨t, request, o, a, w, w'⟩ :: trace) = true →
          i < w'.runs.length ∧ i ∉ w'.threads.map Prod.fst := by
    intro hthreads hbegins
    rw [hthreads]
    refine ⟨fun t ht => Nat.lt_of_lt_of_le (hI.threads t ht) hle, hI.threadsNodup, fun i hi => ?_⟩
    rcases begun_cons.mp hi with hi | hi
    · rw [hbegins] at hi
      cases hi
    · exact ⟨Nat.lt_of_lt_of_le (hI.begun i hi).1 hle, (hI.begun i hi).2⟩
  cases o with
  | claim session url =>
    rcases answer_claim ha with ⟨_, _, rfl⟩ | ⟨_, _, _, _, rfl, _⟩
    · have hnew : w.runs.length ∉ w.threads.map Prod.fst := by
        intro hmem
        obtain ⟨t, ht, heq⟩ := List.mem_map.mp hmem
        have := hI.threads t ht
        omega
      simp only [World.create, List.map_append, List.map_cons, List.map_nil]
      refine ⟨fun t ht => ?_, ?_, fun i hi => ?_⟩
      · rw [List.length_append, List.length_singleton]
        rcases List.mem_append.mp ht with ht | ht
        · exact Nat.lt_succ_of_lt (hI.threads t ht)
        · rw [List.mem_singleton.mp ht]
          exact Nat.lt_succ_self _
      · refine List.nodup_append.mpr ⟨hI.threadsNodup, List.nodup_singleton _, ?_⟩
        intro x hx y hy heq
        rw [List.mem_singleton.mp hy] at heq
        exact hnew (heq ▸ hx)
      · have hi := (begun_cons.mp hi).resolve_left (by simp [begins])
        obtain ⟨hlt, hnot⟩ := hI.begun i hi
        rw [List.length_append, List.length_singleton]
        refine ⟨Nat.lt_succ_of_lt hlt, fun hmem => ?_⟩
        rcases List.mem_append.mp hmem with hmem | hmem
        · exact hnot hmem
        · rw [List.mem_singleton.mp hmem] at hlt
          exact Nat.lt_irrefl _ hlt
    · exact hsame rfl rfl
  | begin =>
    obtain ⟨k, hk, rfl⟩ := answer_begin ha
    have hmap : (w.threads.eraseIdx k).map Prod.fst = (w.threads.map Prod.fst).eraseIdx k :=
      (List.eraseIdx_map Prod.fst w.threads k).symm
    dsimp only
    rw [hmap]
    refine ⟨fun t ht => hI.threads t (List.mem_of_mem_eraseIdx ht),
      hI.threadsNodup.eraseIdx k, fun i hi => ?_⟩
    rcases begun_cons.mp hi with hi | hi
    · obtain rfl : a.1 = i := Option.some.inj hi
      refine ⟨hI.threads a (List.mem_of_getElem? hk), fun hmem => ?_⟩
      -- the thread was in the list once
      obtain ⟨k', hne, hk'⟩ := List.mem_eraseIdx_iff_getElem?.mp hmem
      have hk₁ : (w.threads.map Prod.fst)[k]? = some a.1 := by rw [List.getElem?_map, hk]; rfl
      obtain ⟨hlt, _⟩ := List.getElem?_eq_some_iff.mp hk'
      exact hne ((List.getElem?_inj hlt hI.threadsNodup).mp (hk'.trans hk₁.symm))
    · exact ⟨(hI.begun i hi).1, fun hmem => (hI.begun i hi).2 (List.mem_of_mem_eraseIdx hmem)⟩
  | _ => exact hsame (threads_of_answer ha (by simp) (by simp)) rfl

omit [DecidableEq Id] in
theorem works_cases {j : ℕ} {request' : Request Id}
    (hworks : (standing contract j request' (⟨t, request, o, a, w, w'⟩ :: trace)).works = some i) :
    t = j ∧ begins ⟨t, request, o, a, w, w'⟩ = some i ∨
      (t = j → o ≠ .begin) ∧ (standing contract j request' trace).works = some i := by
  by_cases hj : t = j
  · subst hj
    rw [standing_cons_self] at hworks
    by_cases ho : o = .begin
    · subst ho
      exact Or.inl ⟨rfl, hworks⟩
    · rw [next_works ho] at hworks
      exact Or.inr ⟨fun _ => ho, hworks⟩
  · rw [standing_cons_of_ne hj] at hworks
    exact Or.inr ⟨fun h => absurd h hj, hworks⟩

omit [DecidableEq Id] in
private theorem works_step (hI : Slot w trace) (j : ℕ) (request' : Request Id)
    (hown : Owns (⟨t, request, o, a, w, w'⟩ :: trace) j request')
    (hworks : (standing contract j request' (⟨t, request, o, a, w, w'⟩ :: trace)).works = some i) :
    begun i (⟨t, request, o, a, w, w'⟩ :: trace) = true := by
  rcases works_cases hworks with ⟨_, hbegins⟩ | ⟨_, hworks⟩
  · exact begun_cons.mpr (Or.inl hbegins)
  · exact begun_cons.mpr (Or.inr (hI.works j request' hown.tail i hworks))

/-- The Run a thread begins is nobody's yet. -/
theorem not_begun_of_begins (hI : Slot w trace)
    (h : Answered service contract w trace t request o a w')
    (hbegins : begins ⟨t, request, o, a, w, w'⟩ = some i) : begun i trace = false := by
  obtain ⟨choice, ha⟩ : ∃ choice, answer w o choice = some (a, w') := h.answer
  cases o with
  | begin =>
    obtain ⟨k, hk, _⟩ := answer_begin ha
    obtain rfl : a.1 = i := Option.some.inj hbegins
    rw [← Bool.not_eq_true]
    intro hbegun
    exact (hI.begun _ hbegun).2 (List.mem_map.mpr ⟨a, List.mem_of_getElem? hk, rfl⟩)
  | _ => cases hbegins

private theorem unique_step (hI : Slot w trace)
    (h : Answered service contract w trace t request o a w') (j : ℕ) (request₁ : Request Id)
    (hown₁ : Owns (⟨t, request, o, a, w, w'⟩ :: trace) j request₁) (k : ℕ) (request₂ : Request Id)
    (hown₂ : Owns (⟨t, request, o, a, w, w'⟩ :: trace) k request₂)
    (h₁ : (standing contract j request₁ (⟨t, request, o, a, w, w'⟩ :: trace)).works = some i)
    (h₂ : (standing contract k request₂ (⟨t, request, o, a, w, w'⟩ :: trace)).works = some i) :
    j = k := by
  have hnew : ∀ {k request}, Owns trace k request →
      (standing contract k request trace).works = some i →
      begins ⟨t, request, o, a, w, w'⟩ = some i → False := by
    intro k request' hown hworks hbegins
    have hbegun := hI.works k request' hown i hworks
    rw [not_begun_of_begins hI h hbegins] at hbegun
    cases hbegun
  rcases works_cases h₁ with ⟨rfl, hb₁⟩ | ⟨_, h₁⟩
  · rcases works_cases h₂ with ⟨rfl, _⟩ | ⟨_, h₂⟩
    · rfl
    · exact (hnew hown₂.tail h₂ hb₁).elim
  · rcases works_cases h₂ with ⟨rfl, hb₂⟩ | ⟨_, h₂⟩
    · exact (hnew hown₁.tail h₁ hb₂).elim
    · exact hI.unique j request₁ hown₁.tail k request₂ hown₂.tail i h₁ h₂

private theorem unbegun_step (hI : Slot w trace)
    (h : Answered service contract w trace t request o a w')
    (hbegun : begun i (⟨t, request, o, a, w, w'⟩ :: trace) = false) :
    publisherOpen i (⟨t, request, o, a, w, w'⟩ :: trace) = false ∧
      released i (⟨t, request, o, a, w, w'⟩ :: trace) = false := by
  have hbefore : begun i trace = false := by
    rw [← Bool.not_eq_true] at hbegun ⊢
    exact fun hb => hbegun (begun_cons.mpr (Or.inr hb))
  have hother : workerOp o ≠ some i := by
    intro ho
    have hb := hI.works t request h.owned i (works_of_workerOp h ho).works
    rw [hbefore] at hb
    cases hb
  obtain ⟨hopen, hreleased⟩ := hI.unbegun i hbefore
  rw [publisherOpen_cons_of_ne hother, released_cons_of_ne]
  · exact ⟨hopen, hreleased⟩
  · rintro ⟨⟩
    exact hother rfl

/-- Another thread's call is about another Run. -/
theorem workerOp_ne (hI : Slot w trace)
    (h : Answered service contract w trace t request o a w') {j : ℕ} (hj : t ≠ j)
    {request' : Request Id} (hown : Owns trace j request')
    (hworks : (standing contract j request' trace).works = some i) : workerOp o ≠ some i :=
  fun ho => hj (hI.unique t request h.owned j request' hown i (works_of_workerOp h ho).works hworks)

private theorem publishing_step (hI : Slot w trace)
    (h : Answered service contract w trace t request o a w') (j : ℕ) (request' : Request Id)
    (hown : Owns (⟨t, request, o, a, w, w'⟩ :: trace) j request')
    (hworks : (standing contract j request' (⟨t, request, o, a, w, w'⟩ :: trace)).works = some i) :
    (standing contract j request' (⟨t, request, o, a, w, w'⟩ :: trace)).publishing =
        publisherOpen i (⟨t, request, o, a, w, w'⟩ :: trace) ∧
      (standing contract j request' (⟨t, request, o, a, w, w'⟩ :: trace)).released =
        released i (⟨t, request, o, a, w, w'⟩ :: trace) := by
  rcases works_cases hworks with ⟨rfl, hbegins⟩ | ⟨hnot, hworks⟩
  · -- it has only just begun
    obtain rfl : request = request' := hown.head rfl
    have hquiet := hI.unbegun i (not_begun_of_begins hI h hbegins)
    have hfresh := hI.fresh t request hown.tail
    rw [standing_cons_self]
    cases o with
    | begin =>
      have hfresh := hfresh h.allowed.1
      exact ⟨hfresh.publishing.trans hquiet.1.symm, hfresh.released.trans hquiet.2.symm⟩
    | _ => cases hbegins
  · obtain ⟨hpublishing, hreleased⟩ := hI.publishing j request' hown.tail i hworks
    by_cases hj : t = j
    · subst hj
      obtain rfl : request = request' := hown.head rfl
      rw [standing_cons_self]
      have hrun : ∀ run, workerOp o = some run → run = i := fun run ho =>
        Option.some.inj ((works_of_workerOp h ho).works.symm.trans hworks)
      cases o with
      | begin => exact absurd rfl (hnot rfl)
      | openPublisher run =>
        obtain rfl := hrun run rfl
        have hclosed := h.allowed.2.2.1
        rw [hclosed] at hpublishing
        refine ⟨?_, hreleased⟩
        cases a with
        | ok u => simp [contract, Local.next, publisherOpen, Except.isOk, Except.toBool]
        | error e => simpa [contract, Local.next, publisherOpen, Except.isOk, Except.toBool]
            using hpublishing
      | closePublisher run =>
        obtain rfl := hrun run rfl
        exact ⟨by simp [contract, Local.next, publisherOpen], hreleased⟩
      | release run =>
        obtain rfl := hrun run rfl
        exact ⟨hpublishing, by simp [contract, Local.next, released]⟩
      | claim => cases a <;> exact ⟨hpublishing, hreleased⟩
      | find => cases a <;> exact ⟨hpublishing, hreleased⟩
      | _ => exact ⟨hpublishing, hreleased⟩
    · have hother := workerOp_ne hI h hj hown.tail hworks
      rw [standing_cons_of_ne hj, publisherOpen_cons_of_ne hother, released_cons_of_ne]
      · exact ⟨hpublishing, hreleased⟩
      · rintro ⟨⟩
        exact hother rfl

private theorem closed_step (hI : Slot w trace)
    (h : Answered service contract w trace t request o a w')
    (hreleased : released i (⟨t, request, o, a, w, w'⟩ :: trace) = true) :
    publisherOpen i (⟨t, request, o, a, w, w'⟩ :: trace) = false := by
  by_cases ho : workerOp o = some i
  · have hworks := works_of_workerOp h ho
    obtain ⟨hpublishing, hrel⟩ := hI.publishing t request h.owned i hworks.works
    have hbefore : o ≠ .release i → released i trace = true := fun ho => by
      rwa [released_cons_of_ne ho] at hreleased
    cases o <;> cases ho
    · -- a worker that has released its Run opens no publisher
      have hnot := h.allowed.2.2.2
      rw [hrel, hbefore nofun] at hnot
      cases hnot
    · exact hI.closed i (hbefore nofun)
    · exact hI.closed i (hbefore nofun)
    · exact hI.closed i (hbefore nofun)
    · simp [publisherOpen]
    · exact hI.closed i (hbefore nofun)
    · exact hpublishing.symm.trans h.allowed.2
    · exact hI.closed i (hbefore nofun)
    · exact hI.closed i (hbefore nofun)
  · rw [publisherOpen_cons_of_ne ho]
    refine hI.closed i ?_
    rwa [released_cons_of_ne] at hreleased
    rintro ⟨⟩
    exact ho rfl

private theorem free_step (hI : Slot w trace)
    (h : Answered service contract w trace t request o a w') (j : ℕ) (request' : Request Id)
    (hown : Owns (⟨t, request, o, a, w, w'⟩ :: trace) j request')
    (hfound : (standing contract j request' (⟨t, request, o, a, w, w'⟩ :: trace)).found ≠ none) :
    (standing contract j request' (⟨t, request, o, a, w, w'⟩ :: trace)).works = none := by
  have hbefore := hI.free j request' hown.tail
  by_cases hj : t = j
  · subst hj
    obtain rfl : request = request' := hown.head rfl
    rw [standing_cons_self] at hfound ⊢
    cases o with
    | begin => exact absurd h.allowed.2 hfound
    | claim s u => cases a <;> exact h.allowed.1
    | find => cases a <;> exact h.allowed.1
    | _ => exact hbefore hfound
  · rw [standing_cons_of_ne hj] at hfound ⊢
    exact hbefore hfound

private theorem fresh_step (hI : Slot w trace)
    (h : Answered service contract w trace t request o a w') (j : ℕ) (request' : Request Id)
    (hown : Owns (⟨t, request, o, a, w, w'⟩ :: trace) j request')
    (hworks : (standing contract j request' (⟨t, request, o, a, w, w'⟩ :: trace)).works = none) :
    (standing contract j request' (⟨t, request, o, a, w, w'⟩ :: trace)).Fresh := by
  have hbefore := hI.fresh j request' hown.tail
  by_cases hj : t = j
  · subst hj
    obtain rfl : request = request' := hown.head rfl
    rw [standing_cons_self] at hworks ⊢
    have hnot : ∀ {run}, o ≠ .begin → (standing contract t request trace).Works run → False := by
      intro run ho hrun
      rw [next_works ho, hrun.works] at hworks
      cases hworks
    have hsame : ∀ {l : Local Id View}, l.Fresh → (contract.next l o a).publishing = l.publishing →
        (contract.next l o a).released = l.released → (contract.next l o a).readied = l.readied →
        (contract.next l o a).looped = l.looped → (contract.next l o a).ended = l.ended →
        (contract.next l o a).Fresh := fun hl h₁ h₂ h₃ h₄ h₅ =>
      ⟨h₁.trans hl.publishing, h₂.trans hl.released, h₃.trans hl.readied, h₄.trans hl.looped,
        h₅.trans hl.ended⟩
    cases o with
    | begin => cases hworks
    | openPublisher run | publishLoop run | release run | setEnded run =>
      exact (hnot nofun h.allowed.1).elim
    | closePublisher run | setReady run => exact (hnot nofun h.allowed).elim
    | claim => cases a <;> exact hsame (hbefore hworks) rfl rfl rfl rfl rfl
    | find => cases a <;> exact hsame (hbefore hworks) rfl rfl rfl rfl rfl
    | _ => exact hsame (hbefore hworks) rfl rfl rfl rfl rfl
  · rw [standing_cons_of_ne hj] at hworks ⊢
    exact hbefore hworks

private theorem begins_step (hI : Slot w trace)
    (h : Answered service contract w trace t request o a w') (call : Call Id View)
    (hcall : call ∈ (⟨t, request, o, a, w, w'⟩ :: trace : List (Call Id View)))
    (hbegins : begins call = some i) (request' : Request Id)
    (hown : Owns (⟨t, request, o, a, w, w'⟩ :: trace) call.thread request') :
    (standing contract call.thread request' (⟨t, request, o, a, w, w'⟩ :: trace)).works =
      some i := by
  rcases List.mem_cons.mp hcall with rfl | hcall
  · rw [standing_cons_self]
    cases o with
    | begin => exact hbegins
    | _ => cases hbegins
  · have hbefore := hI.begins call hcall i hbegins request' hown.tail
    by_cases hj : t = call.thread
    · subst hj
      obtain rfl : request = request' := hown.head rfl
      rw [standing_cons_self, next_works]
      · exact hbefore
      · -- a thread begins once
        rintro rfl
        rw [h.allowed.1] at hbefore
        cases hbefore
    · rw [standing_cons_of_ne hj]
      exact hbefore

theorem slot_step (hI : Slot w trace)
    (h : Answered service contract w trace t request o a w') :
    Slot w' (⟨t, request, o, a, w, w'⟩ :: trace) where
  current _ hi := current_step hI h hi
  inPlace := (inPlace_step hI h).1
  one := (inPlace_step hI h).2
  threads := (threads_step hI h).1
  threadsNodup := (threads_step hI h).2.1
  begun := (threads_step hI h).2.2
  works j request hown _ hworks := works_step hI j request hown hworks
  unique j request hown k request' hown' _ := unique_step hI h j request hown k request' hown'
  unbegun _ hi := unbegun_step hI h hi
  publishing j request hown _ hworks := publishing_step hI h j request hown hworks
  closed _ hi := closed_step hI h hi
  free := free_step hI h
  fresh := fresh_step hI h
  begins call hcall _ hbegins := begins_step hI h call hcall hbegins

end

end Kanat.DetectionService
