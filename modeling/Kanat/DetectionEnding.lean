import Kanat.DetectionWarnings

/-! # One Session's end, and the ticks and the watch that run beside it

`Ending` is the invariant of one end's block, first for the calls of the block's own thread, then for those of ticks
and of the watch. What follows for what the Session is left to is assembled at the end, with the interleaving that
goes wrong. -/
namespace Kanat.DetectionSync
open ResumptionPrograms InterleavedThreads

variable {Id : Type} [DecidableEq Id]

/-- The first `_set` of an `ending` block. -/
def firstSet (session : Id) (c : Call Id) : Bool :=
  match c.op with
  | .set s detection none => s = session && detection = .ending
  | _ => false

/-- Between the first `_set` of an `ending` block and its last. -/
def blockUnderWay (session : Id) : List (Call Id) → Bool
  | [] => false
  | c :: earlier => firstSet session c || !finalSet session c && blockUnderWay session earlier

def begun (session : Id) (trace : List (Call Id)) : Bool :=
  trace.any (firstSet session)

def blockOver (session : Id) (trace : List (Call Id)) : Bool :=
  trace.any (finalSet session)

/-- A tick's change of the Session, made only from the state it has seen. -/
def compareAndSet (session : Id) (c : Call Id) : Bool :=
  match c.op with
  | .set s _ (some [current]) => s = session && current ∈ idle
  | _ => false

/-- The thread tried one while `held` was the case. -/
def tried (session : Id) (held : List (Call Id) → Bool) (i : ℕ) : List (Call Id) → Bool
  | [] => false
  | c :: earlier => c.thread = i && compareAndSet session c && held earlier ||
      tried session held i earlier

def startsRun (session : Id) (c : Call Id) : Bool :=
  match c.op with
  | .startRun s _ => s = session
  | _ => false

def endsRun (session : Id) (c : Call Id) : Bool :=
  match c.op with
  | .endRun s => s = session
  | _ => false

def Db.Listed (db : Db Id) (session : Id) : Prop :=
  session ∈ db.listActive.map Session.id

instance (db : Db Id) (session : Id) : Decidable (db.Listed session) :=
  inferInstanceAs (Decidable (session ∈ db.listActive.map Session.id))

/-- The thread read the active Sessions while this was one of them. -/
def readActive (session : Id) (i : ℕ) (trace : List (Call Id)) : Bool :=
  trace.any fun c => c.thread = i &&
    match c.op, c.answer with
    | .listActive, .ok _ => c.before.db.Listed session
    | _, _ => false

/-- The Session was no longer active after some step. -/
def gone (session : Id) (trace : List (Call Id)) : Bool :=
  trace.any fun c => ¬c.after.db.Listed session

/-- A start of the Session's Run is answered. -/
def answersStart (session : Id) (c : Call Id) : Bool :=
  match c.op, c.answer with
  | .startRun s _, .ok _ => s = session
  | _, _ => false

/-- What comes of a start that was answered: the Session is set `watching`, its Run is ended, or it is
seen to read neither `ending` nor `none`. -/
def attends (session : Id) (c : Call Id) : Bool :=
  setWatching session c || endsRun session c ||
    match c.op, c.answer with
    | .stateOf s, detection => s = session && detection.state ∉ [DetectionState.ending, .none]
    | _, _ => false

def unattended (session : Id) (i : ℕ) : List (Call Id) → Bool
  | [] => false
  | c :: earlier => c.thread = i && answersStart session c ||
      !(c.thread = i && attends session c) && unattended session i earlier

/-- Does a status read, once the Session is no longer active, report a Run of its own that is not
ending? -/
def reportsGone (session : Id) (c : Call Id) : Option Bool :=
  match c.op, c.answer with
  | .status, .ok run => some (¬c.before.db.Listed session ∧
      ∃ r ∈ run, r.session = session ∧ r.state ≠ .ending)
  | _, _ => none

def reportedGone (session : Id) (i : ℕ) : List (Call Id) → Bool
  | [] => false
  | c :: earlier =>
      match if c.thread = i then reportsGone session c else none with
      | some reported => reported
      | none => reportedGone session i earlier

/-- Since its status read, the thread has called for the end of the Session's Run. -/
def endsSince (session : Id) (i : ℕ) : List (Call Id) → Bool
  | [] => false
  | c :: earlier =>
      c.thread = i && endsRun session c ||
        !(c.thread = i && (reportsGone session c).isSome) && endsSince session i earlier

/-- One block ends Sessions; all else is a tick or the watch of a creation. -/
def OneEnd (block : Request Id) (i : ℕ) (request : Request Id) : Prop :=
  i = 0 ∧ request = block ∨ request = .tick ∨ ∃ s aliasName, request = .watch s aliasName

/-- What holds of the memory and the threads while the block is under way, and after. -/
structure Ending (session : Id) (block : Request Id) (w : World Id) (trace : List (Call Id)) :
    Prop where
  reads : blockUnderWay session trace = true → (w.memory.stateOf session).state = .ending
  began : (w.memory.stateOf session).state = .ending → begun session trace = true
  past : blockOver session trace = true → blockUnderWay session trace = false
  entered : ∀ i request, Owns trace i request →
    (standing contract i request trace).entered ≠ none →
    i = 0 ∧ request = block ∧ (standing contract i request trace).asked = true
  left : ∀ i request, Owns trace i request → blockOver session trace = true →
    (standing contract i request trace).entered ≠ some session
  asked : Owns trace 0 block → blockOver session trace = true →
    (standing contract 0 block trace).asked = true
  lastRead : ∀ i request, Owns trace i request →
    (standing contract i request trace).lastRead = some (session, .ending) →
    begun session trace = true
  showed : ∀ i request, Owns trace i request →
    (standing contract i request trace).showed = some (session, .ending) →
    blockOver session trace = true
  gaveUp : ∀ i request, Owns trace i request →
    tried session (blockUnderWay session) i trace = true →
    session ∈ (standing contract i request trace).gaveUp

/-- What the database, which no request makes active again, and the lists read of it tell. -/
structure Gone (session : Id) (w : World Id) (trace : List (Call Id)) : Prop where
  gone : gone session trace = true → ¬w.db.Listed session
  reported : ∀ i, reportedGone session i trace = true → ¬w.db.Listed session
  unlisted : ∀ i request, Owns trace i request → reportedGone session i trace = true →
    ∀ ids ∈ (standing contract i request trace).activeIds, session ∉ ids
  listed : ∀ i request, Owns trace i request →
    ∀ ids ∈ (standing contract i request trace).activeIds, session ∈ ids →
    readActive session i trace = true

section
variable {w w' : World Id} {trace : List (Call Id)} {i : ℕ} {request : Request Id} {o : Op Id}
  {r : Ans Id o} {session : Id} {block : Request Id}

private theorem mem_started {j : ℕ} (h : unattended session j trace = true) :
    session ∈ (standing contract j request trace).started := by
  induction trace with
  | nil => cases h
  | cons c trace ih =>
    rcases c with ⟨i, request', o, r, w, w'⟩
    rw [unattended, Bool.or_eq_true] at h
    by_cases hij : i = j
    · subst hij
      rw [standing_cons_self]
      rcases h with h | h
      · -- just started
        cases o with
        | startRun s aliasName =>
          cases r with
          | error e => simp [answersStart] at h
          | ok run =>
            obtain rfl : s = session := by simpa [answersStart] using h
            exact List.mem_cons_self
        | _ => simp [answersStart] at h
      · simp only [decide_true, Bool.true_and, Bool.and_eq_true, Bool.not_eq_true'] at h
        obtain ⟨hnot, hbefore⟩ := h
        have hin := ih hbefore
        cases o with
        | startRun s aliasName =>
          cases r with
          | error e => exact hin
          | ok run => exact List.mem_cons_of_mem _ hin
        | endRun s =>
          have hs : s ≠ session := by simpa [attends, setWatching, endsRun] using hnot
          exact List.mem_filter.mpr ⟨hin, by simpa using Ne.symm hs⟩
        | set s d f =>
          simp only [contract, Local.next, Local.afterSet]
          split_ifs with hset
          · refine List.mem_filter.mpr ⟨hin, ?_⟩
            have hs : s ≠ session := by simpa [attends, setWatching, endsRun, hset] using hnot
            simpa using Ne.symm hs
          · exact hin
        | stateOf s =>
          simp only [contract, Local.next]
          split_ifs with hstate
          · exact hin
          · refine List.mem_filter.mpr ⟨hin, ?_⟩
            have hs : s ≠ session := by
              rintro rfl
              simp only [List.mem_cons, List.not_mem_nil, or_false, not_or] at hstate
              simp [attends, setWatching, endsRun, hstate] at hnot
            simpa using Ne.symm hs
        | _ =>
          rw [next_frame.started (by simp) (by simp) (by simp) (by simp)]
          exact hin
    · rw [standing_cons_of_ne hij]
      refine ih ?_
      simpa [hij] using h

private theorem endsSince_of_mem {j : ℕ} (h : session ∈ (standing contract j request trace).ends) :
    endsSince session j trace = true := by
  induction trace with
  | nil => cases h
  | cons c trace ih =>
    rcases c with ⟨i, request', o, r, w, w'⟩
    rw [endsSince]
    by_cases hij : i = j
    · subst hij
      rw [standing_cons_self] at h
      cases o with
      | endRun s =>
        rcases List.mem_cons.mp h with rfl | h
        · simp [endsRun]
        · simp [reportsGone, ih h]
      | status =>
        cases r with
        | error e => simp [reportsGone, ih h]
        | ok run => cases h
      | _ =>
        rw [next_frame.ends] at h
        · simp [reportsGone, ih h]
        · nofun
        · nofun
    · rw [standing_cons_of_ne hij] at h
      simp [hij, ih h]

private theorem reported_of_reportedGone {j : ℕ} (h : reportedGone session j trace = true) :
    ∃ run ∈ (standing contract j request trace).reported,
      run.session = session ∧ run.state ≠ .ending := by
  induction trace with
  | nil => cases h
  | cons c trace ih =>
    rcases c with ⟨i, request', o, r, w, w'⟩
    rw [reportedGone] at h
    by_cases hij : i = j
    · subst hij
      rw [standing_cons_self]
      rw [if_pos rfl] at h
      cases o with
      | status =>
        cases r with
        | error e => exact ih h
        | ok run => exact (of_decide_eq_true h).2
      | _ =>
        rw [next_frame.reported]
        · exact ih h
        · nofun
    · rw [standing_cons_of_ne hij]
      rw [if_neg hij] at h
      exact ih h

private theorem begun_cases (h : begun session trace = true) :
    blockUnderWay session trace = true ∨ blockOver session trace = true := by
  induction trace with
  | nil => cases h
  | cons c trace ih =>
    simp only [begun, blockOver, List.any_cons, Bool.or_eq_true, blockUnderWay, Bool.and_eq_true,
      Bool.not_eq_true'] at h ih ⊢
    rcases h with h | h
    · exact Or.inl (Or.inl h)
    · cases hfinal : finalSet session c with
      | true => exact Or.inr (Or.inl rfl)
      | false => exact (ih h).imp (fun h => Or.inr ⟨rfl, h⟩) Or.inr

theorem begun_cons {c : Call Id} (h : begun session trace = true) :
    begun session (c :: trace) = true := by
  simp only [begun, List.any_cons, Bool.or_eq_true] at h ⊢
  exact Or.inr h

theorem blockOver_cons {c : Call Id} : blockOver session (c :: trace) = true ↔
    finalSet session c = true ∨ blockOver session trace = true := by
  simp only [blockOver, List.any_cons, Bool.or_eq_true]

private theorem firstSet_of_finalSet {c : Call Id} (h : finalSet session c = true) :
    firstSet session c = false := by
  rcases c with ⟨i, request, o, r, w, w'⟩
  cases o with
  | set s d f =>
    cases f with
    | none =>
      obtain ⟨_, rfl | rfl⟩ := of_decide_eq_true h
      · simp [firstSet, Detection.none, Detection.ending]
      · simp [firstSet, Detection.endUnconfirmed, Detection.ending]
    | some states => rfl
  | _ => rfl

private theorem answer_stateOf {s : Id} {choice : Choice Id} {r : Detection}
    (h : answer w (.stateOf s) choice = some (r, w')) : r = w.memory.stateOf s ∧ w' = w := by
  cases choice <;> simp only [answer] at h <;> cases h
  exact ⟨rfl, rfl⟩

/-- The request that ends the Sessions is not one that creates or reopens any. -/
def EndsSession (block : Request Id) : Prop :=
  ∃ s, block = .update s (some .completed) ∨ block = .delete s

omit [DecidableEq Id] in
theorem OneEnd.not_create (hA : OneEnd block i request) (hblock : EndsSession block)
    (camera : Option Id) : request ≠ .create camera := by
  rintro rfl
  obtain ⟨s, hblock⟩ := hblock
  rcases hA with ⟨_, h⟩ | h | ⟨_, _, h⟩
  · rw [← h] at hblock
    rcases hblock with hblock | hblock <;> cases hblock
  · cases h
  · cases h

omit [DecidableEq Id] in
theorem OneEnd.not_reopening (hA : OneEnd block i request) (hblock : EndsSession block) (s : Id) :
    request ≠ .update s (some .active) := by
  rintro rfl
  obtain ⟨s', hblock⟩ := hblock
  rcases hA with ⟨_, h⟩ | h | ⟨_, _, h⟩
  · rw [← h] at hblock
    rcases hblock with hblock | hblock <;> cases hblock
  · cases h
  · cases h

/-- A change made from any state is the block's own. -/
theorem set_of_block (hA : OneEnd block i request) (hblock : EndsSession block) {s : Id}
    {d : Detection} {r : Bool}
    (h : Answered backend contract w trace i request (.set s d none) r w') :
    (standing contract i request trace).entered = some s ∧
      (d = .ending ∨ d = .none ∨ d = .endUnconfirmed) := by
  have hallowed : (standing contract i request trace).MaySet s d := h.allowed
  rcases hallowed with ⟨⟨camera, hcreate⟩, _⟩ | ⟨hin, hmay⟩
  · exact absurd (standing_request.symm.trans hcreate) (hA.not_create hblock camera)
  · exact ⟨hin, hmay.imp_right (Or.imp And.left And.left)⟩

private theorem reads_ending_step (hA : OneEnd block i request) (hblock : EndsSession block)
    (hI : Ending session block w trace)
    (h : Answered backend contract w trace i request o r w')
    (hunder : blockUnderWay session (⟨i, request, o, r, w, w'⟩ :: trace) = true) :
    (w'.memory.stateOf session).state = .ending := by
  obtain ⟨choice, ha⟩ : ∃ choice, answer w o choice = some (r, w') := h.answer
  have hsame : firstSet session ⟨i, request, o, r, w, w'⟩ = false →
      (w.memory.stateOf session).state = .ending := by
    intro hfirst
    simp only [blockUnderWay, hfirst, Bool.false_or, Bool.and_eq_true] at hunder
    exact hI.reads hunder.2
  cases o with
  | set s d f =>
    obtain ⟨_, hm, _⟩ := answer_set ha
    rw [hm]
    by_cases hs : s = session
    · subst hs
      cases f with
      | none =>
        rw [Memory.set_of_admits rfl, Memory.state_change_self]
        obtain ⟨_, rfl | rfl | rfl⟩ := set_of_block hA hblock h
        · rfl
        · simp [blockUnderWay, firstSet, finalSet, Detection.none, Detection.ending] at hunder
        · simp [blockUnderWay, firstSet, finalSet, Detection.endUnconfirmed,
            Detection.ending] at hunder
      | some states =>
        have hbefore := hsame rfl
        cases hadmits : admits (some states) (w.memory.stateOf s).state with
        | false => rwa [Memory.set_of_not_admits hadmits]
        | true =>
          -- only a tick that had put `ending` back may, and none can have yet
          rw [hbefore] at hadmits
          have hshowed := h.allowed.fromEnding (of_decide_eq_true hadmits)
          have hpast := hI.past (hI.showed i request h.owned hshowed)
          simp [blockUnderWay, firstSet, finalSet, hpast] at hunder
    · rw [Memory.stateOf_set_of_ne hs]
      refine hsame ?_
      cases f with
      | none => simp [firstSet, hs]
      | some states => rfl
  | discardWatched s =>
    rw [(answer_discard ha).1]
    exact hsame rfl
  | _ =>
    rw [memory_of_answer ha (by simp) (by simp)]
    exact hsame rfl

private theorem began_step (hA : OneEnd block i request) (hblock : EndsSession block)
    (hI : Ending session block w trace)
    (h : Answered backend contract w trace i request o r w')
    (hstate : (w'.memory.stateOf session).state = .ending) :
    begun session (⟨i, request, o, r, w, w'⟩ :: trace) = true := by
  obtain ⟨choice, ha⟩ : ∃ choice, answer w o choice = some (r, w') := h.answer
  cases o with
  | set s d f =>
    obtain ⟨_, hm, _⟩ := answer_set ha
    rw [hm] at hstate
    by_cases hs : s = session
    · subst hs
      have hset : (w.memory.set w.clock s d f).2 = w.memory ∧ _ ∨ _ := Memory.set_self
      rcases hset with ⟨heq, _⟩ | ⟨_, hreads, _⟩
      · rw [heq] at hstate
        exact begun_cons (hI.began hstate)
      · have hd : d.state = .ending := by
          have hreads' : (w.memory.readAs s d).state = d.state ∨ _ := Memory.state_readAs
          rw [← hreads, hstate] at hreads'
          rcases hreads' with hd | ⟨hd, _⟩
          · exact hd.symm
          · cases hd
        cases f with
        | none =>
          obtain ⟨_, rfl | rfl | rfl⟩ := set_of_block hA hblock h
          · simp [begun, firstSet]
          · cases hd
          · cases hd
        | some states =>
          rcases h.allowed.toWarning (Or.inr hd) with ⟨rfl, _⟩ | ⟨_, hread⟩
          · cases hd
          · rw [hd] at hread
            exact begun_cons (hI.lastRead i request h.owned hread)
    · rw [Memory.stateOf_set_of_ne hs] at hstate
      exact begun_cons (hI.began hstate)
  | discardWatched s =>
    rw [(answer_discard ha).1] at hstate
    exact begun_cons (hI.began hstate)
  | _ =>
    rw [memory_of_answer ha (by simp) (by simp)] at hstate
    exact begun_cons (hI.began hstate)

/-- Who calls the first or the last `_set` of a block is in it. -/
theorem entered_of_blockSet (hA : OneEnd block i request) (hblock : EndsSession block)
    (h : Answered backend contract w trace i request o r w')
    (hset : firstSet session ⟨i, request, o, r, w, w'⟩ = true ∨
      finalSet session ⟨i, request, o, r, w, w'⟩ = true) :
    (standing contract i request trace).entered = some session := by
  cases o with
  | set s d f =>
    cases f with
    | none =>
      have hs : s = session := by
        rcases hset with hset | hset
        · exact (Bool.and_eq_true _ _ ▸ hset : _ ∧ _).1 |> of_decide_eq_true
        · exact (of_decide_eq_true hset).1
      exact hs ▸ (set_of_block hA hblock h).1
    | some states => rcases hset with hset | hset <;> cases hset
  | _ => rcases hset with hset | hset <;> cases hset

private theorem past_step (hA : OneEnd block i request) (hblock : EndsSession block)
    (hI : Ending session block w trace)
    (h : Answered backend contract w trace i request o r w')
    (hover : blockOver session (⟨i, request, o, r, w, w'⟩ :: trace) = true) :
    blockUnderWay session (⟨i, request, o, r, w, w'⟩ :: trace) = false := by
  cases hfinal : finalSet session ⟨i, request, o, r, w, w'⟩ with
  | true => simp [blockUnderWay, firstSet_of_finalSet hfinal, hfinal]
  | false =>
    have hbefore : blockOver session trace = true :=
      (blockOver_cons.mp hover).resolve_left (by rw [hfinal]; exact Bool.false_ne_true)
    cases hfirst : firstSet session ⟨i, request, o, r, w, w'⟩ with
    | true =>
      exact absurd (entered_of_blockSet hA hblock h (Or.inl hfirst))
        (hI.left i request h.owned hbefore)
    | false => simp [blockUnderWay, hfirst, hfinal, hI.past hbefore]

private theorem entered_ending_step (hA : OneEnd block i request) (hI : Ending session block w trace)
    (h : Answered backend contract w trace i request o r w') (j : ℕ) (request' : Request Id)
    (hown : Owns (⟨i, request, o, r, w, w'⟩ :: trace) j request')
    (hin : (standing contract j request' (⟨i, request, o, r, w, w'⟩ :: trace)).entered ≠ none) :
    j = 0 ∧ request' = block ∧
      (standing contract j request' (⟨i, request, o, r, w, w'⟩ :: trace)).asked = true := by
  by_cases hij : i = j
  · subst hij
    obtain rfl : request = request' := hown.head rfl
    rw [standing_cons_self] at hin ⊢
    have hbefore := hI.entered i request hown.tail
    cases o with
    | getSession s =>
      obtain ⟨_, hends⟩ : _ ∧ _ := h.allowed
      rw [standing_request] at hends
      have hask : ((standing contract i request trace).next (.getSession s) r).asked = true := by
        rcases r with e | _ | row
        · rfl
        · rfl
        · simp only [Local.next]
          split_ifs <;> rfl
      rcases hA with ⟨hi, hrequest⟩ | rfl | ⟨_, _, rfl⟩
      · exact ⟨hi, hrequest, hask⟩
      · rcases hends with hends | hends <;> cases hends
      · rcases hends with hends | hends <;> cases hends
    | inStates s =>
      cases r with
      | true => exact hbefore hin
      | false => exact absurd rfl hin
    | set s d f =>
      simp only [contract, Local.next, Local.afterSet] at hin
      split_ifs at hin
      · exact absurd rfl hin
      · exact hbefore hin
    | _ =>
      rw [next_frame.entered (by simp) (by simp) (by simp)] at hin
      rw [next_frame.asked (by simp)]
      exact hbefore hin
  · rw [standing_cons_of_ne hij] at hin ⊢
    exact hI.entered j request' hown.tail hin

private theorem left_step (hA : OneEnd block i request) (hblock : EndsSession block)
    (hI : Ending session block w trace)
    (h : Answered backend contract w trace i request o r w') (j : ℕ) (request' : Request Id)
    (hown : Owns (⟨i, request, o, r, w, w'⟩ :: trace) j request')
    (hover : blockOver session (⟨i, request, o, r, w, w'⟩ :: trace) = true) :
    (standing contract j request' (⟨i, request, o, r, w, w'⟩ :: trace)).entered ≠ some session := by
  intro hin
  by_cases hij : i = j
  · subst hij
    obtain rfl : request = request' := hown.head rfl
    have hbefore : finalSet session ⟨i, request, o, r, w, w'⟩ = false →
        (standing contract i request trace).entered ≠ some session := fun hfinal =>
      hI.left i request hown.tail ((blockOver_cons.mp hover).resolve_left (by rw [hfinal]; exact Bool.false_ne_true))
    rw [standing_cons_self] at hin
    cases o with
    | getSession s =>
      -- the block's one read was before its last `_set`
      have hpast : blockOver session trace = true := (blockOver_cons.mp hover).resolve_left Bool.false_ne_true
      obtain ⟨hask, hends⟩ : _ ∧ _ := h.allowed
      rw [standing_request] at hends
      rcases hA with ⟨rfl, rfl⟩ | rfl | ⟨_, _, rfl⟩
      · rw [hI.asked hown.tail hpast] at hask
        cases hask
      · rcases hends with hends | hends <;> cases hends
      · rcases hends with hends | hends <;> cases hends
    | inStates s =>
      cases r with
      | true => exact hbefore rfl hin
      | false => cases hin
    | set s d f =>
      simp only [contract, Local.next, Local.afterSet] at hin
      split_ifs at hin with hfinal
      refine hbefore ?_ hin
      cases f with
      | none => exact decide_eq_false fun hn => hfinal ⟨rfl, hn.2⟩
      | some states => rfl
    | _ =>
      rw [next_frame.entered (by simp) (by simp) (by simp)] at hin
      exact hbefore rfl hin
  · rw [standing_cons_of_ne hij] at hin
    rcases blockOver_cons.mp hover with hfinal | hover
    · have hi := (hI.entered i request h.owned (by
        rw [entered_of_blockSet hA hblock h (Or.inr hfinal)]; exact Option.some_ne_none _)).1
      have hj := (hI.entered j request' hown.tail (by rw [hin]; exact Option.some_ne_none _)).1
      exact hij (hi.trans hj.symm)
    · exact hI.left j request' hown.tail hover hin

theorem asked_step (hA : OneEnd block i request) (hblock : EndsSession block)
    (hI : Ending session block w trace)
    (h : Answered backend contract w trace i request o r w')
    (hown : Owns (⟨i, request, o, r, w, w'⟩ :: trace) 0 block)
    (hover : blockOver session (⟨i, request, o, r, w, w'⟩ :: trace) = true) :
    (standing contract 0 block (⟨i, request, o, r, w, w'⟩ :: trace)).asked = true := by
  have hfinal : finalSet session ⟨i, request, o, r, w, w'⟩ = true →
      i = 0 ∧ request = block ∧ (standing contract i request trace).asked = true := fun hfinal =>
    hI.entered i request h.owned (by
      rw [entered_of_blockSet hA hblock h (Or.inr hfinal)]; exact Option.some_ne_none _)
  by_cases hi : i = 0
  · subst hi
    obtain rfl : request = block := hown.head rfl
    have hbefore : (standing contract 0 request trace).asked = true := by
      rcases blockOver_cons.mp hover with h | h
      · exact (hfinal h).2.2
      · exact hI.asked hown.tail h
    rw [standing_cons_self]
    cases o with
    | getSession s =>
      rcases r with e | _ | row
      · rfl
      · rfl
      · simp only [contract, Local.next]
        split_ifs <;> rfl
    | _ =>
      rw [next_frame.asked (by simp)]
      exact hbefore
  · rw [standing_cons_of_ne hi]
    exact hI.asked hown.tail ((blockOver_cons.mp hover).resolve_left fun h => hi (hfinal h).1)

private theorem lastRead_step (hI : Ending session block w trace)
    (h : Answered backend contract w trace i request o r w') (j : ℕ) (request' : Request Id)
    (hown : Owns (⟨i, request, o, r, w, w'⟩ :: trace) j request')
    (hread : (standing contract j request' (⟨i, request, o, r, w, w'⟩ :: trace)).lastRead =
      some (session, .ending)) :
    begun session (⟨i, request, o, r, w, w'⟩ :: trace) = true := by
  apply begun_cons
  have hbefore := hI.lastRead j request' hown.tail
  by_cases hij : i = j
  · subst hij
    rw [standing_cons_self] at hread
    cases o with
    | stateOf s =>
      obtain ⟨choice, ha⟩ : ∃ choice, answer w (.stateOf s) choice = some (r, w') := h.answer
      obtain ⟨rfl, hstate⟩ := Prod.mk.inj (Option.some.inj hread)
      rw [(answer_stateOf ha).1] at hstate
      exact hI.began hstate
    | _ =>
      rw [next_frame.lastRead] at hread
      · exact hbefore hread
      · nofun
  · rw [standing_cons_of_ne hij] at hread
    exact hbefore hread

private theorem showed_ending_step (hI : Ending session block w trace)
    (h : Answered backend contract w trace i request o r w') (j : ℕ) (request' : Request Id)
    (hown : Owns (⟨i, request, o, r, w, w'⟩ :: trace) j request')
    (hshowed : (standing contract j request' (⟨i, request, o, r, w, w'⟩ :: trace)).showed =
      some (session, .ending)) :
    blockOver session (⟨i, request, o, r, w, w'⟩ :: trace) = true := by
  apply blockOver_cons.mpr
  right
  have hbefore := hI.showed j request' hown.tail
  by_cases hij : i = j
  · subst hij
    obtain rfl : request = request' := hown.head rfl
    rw [standing_cons_self] at hshowed
    cases o with
    | set s d f =>
      obtain ⟨choice, ha⟩ : ∃ choice, answer w (.set s d f) choice = some (r, w') := h.answer
      simp only [contract, Local.next, Local.afterSet] at hshowed
      split_ifs at hshowed with hputs
      · obtain ⟨rfl, hd⟩ := Prod.mk.inj (Option.some.inj hshowed)
        obtain ⟨hr, rfl, _⟩ := hputs
        obtain ⟨hr', _, _⟩ := answer_set ha
        rw [hr, Memory.set_fst] at hr'
        have hcurrent : (w.memory.stateOf s).state = .notWatching := by
          simpa [admits] using hr'.symm
        have hlast : (standing contract i request trace).lastRead = some (s, .ending) := by
          rcases h.allowed.toWarning (Or.inr hd) with ⟨rfl, _⟩ | ⟨_, hread⟩
          · cases hd
          · rwa [hd] at hread
        -- the block has begun, and does not hold the Session any more
        rcases begun_cases (hI.lastRead i request h.owned hlast) with hunder | hover
        · rw [hI.reads hunder] at hcurrent
          cases hcurrent
        · exact hover
      · exact hbefore hshowed
    | _ =>
      rw [next_frame.showed (by simp)] at hshowed
      exact hbefore hshowed
  · rw [standing_cons_of_ne hij] at hshowed
    exact hbefore hshowed

private theorem gaveUp_step (hI : Ending session block w trace)
    (h : Answered backend contract w trace i request o r w') (j : ℕ) (request' : Request Id)
    (hown : Owns (⟨i, request, o, r, w, w'⟩ :: trace) j request')
    (htried : tried session (blockUnderWay session) j
      (⟨i, request, o, r, w, w'⟩ :: trace) = true) :
    session ∈ (standing contract j request' (⟨i, request, o, r, w, w'⟩ :: trace)).gaveUp := by
  have hbefore := hI.gaveUp j request' hown.tail
  simp only [tried, Bool.or_eq_true, Bool.and_eq_true, decide_eq_true_eq] at htried
  by_cases hij : i = j
  · subst hij
    rw [standing_cons_self]
    cases o with
    | set s d f =>
      obtain ⟨choice, ha⟩ : ∃ choice, answer w (.set s d f) choice = some (r, w') := h.answer
      simp only [contract, Local.next, Local.afterSet]
      rcases htried with ⟨⟨_, hcas⟩, hunder⟩ | htried
      · -- the Session reads `ending`, which is not idle
        rcases f with _ | _ | ⟨current, _ | _⟩
        · cases hcas
        · cases hcas
        · simp only [compareAndSet, Bool.and_eq_true, decide_eq_true_eq] at hcas
          obtain ⟨rfl, hidle⟩ := hcas
          have hr := (answer_set ha).1
          rw [Memory.set_fst, hI.reads hunder] at hr
          have hr : r = false := by
            rw [hr]
            refine decide_eq_false fun hn => ?_
            rw [← List.mem_singleton.mp hn] at hidle
            simp [idle] at hidle
          rw [if_pos ⟨hr, current, hidle, rfl⟩]
          exact List.mem_cons_self
        · cases hcas
      · split_ifs
        · exact List.mem_cons_of_mem _ (hbefore htried)
        · exact hbefore htried
    | _ =>
      rw [next_frame.gaveUp (by simp)]
      refine hbefore (htried.resolve_left fun hn => ?_)
      simp [compareAndSet] at hn
  · rw [standing_cons_of_ne hij]
    exact hbefore (htried.resolve_left fun hn => hij hn.1.1)

private theorem ending_step (hA : OneEnd block i request) (hblock : EndsSession block)
    (hI : Ending session block w trace)
    (h : Answered backend contract w trace i request o r w') :
    Ending session block w' (⟨i, request, o, r, w, w'⟩ :: trace) where
  reads := reads_ending_step hA hblock hI h
  began := began_step hA hblock hI h
  past := past_step hA hblock hI h
  entered := entered_ending_step hA hI h
  left := left_step hA hblock hI h
  asked := asked_step hA hblock hI h
  lastRead := lastRead_step hI h
  showed := showed_ending_step hI h
  gaveUp := gaveUp_step hI h

omit [DecidableEq Id] in
theorem Db.listed_iff {db : Db Id} : db.Listed session ↔
    ∃ row ∈ db.sessions, row.id = session ∧ row.status = .active := by
  simp only [Db.Listed, Db.listActive, List.mem_map, List.mem_filter, decide_eq_true_eq]
  exact ⟨fun ⟨row, ⟨hrow, hactive⟩, hid⟩ => ⟨row, hrow, hid, hactive⟩,
    fun ⟨row, hrow, hid, hactive⟩ => ⟨row, ⟨hrow, hactive⟩, hid⟩⟩

theorem Db.listed_of_save {db db' : Db Id} {id : Id} {status : Option Status}
    (h : db.save id status = .ok db') (hstatus : status ≠ some .active)
    (hlisted : db'.Listed session) : db.Listed session := by
  obtain ⟨row', hrow', hid, hactive⟩ := Db.listed_iff.mp hlisted
  unfold save at h
  split at h
  · cases h
  · split_ifs at h
    cases h
    obtain ⟨row, hrow, rfl⟩ := List.mem_map.mp hrow'
    refine Db.listed_iff.mpr ⟨row, hrow, ?_⟩
    split_ifs at hid hactive
    · refine ⟨hid, ?_⟩
      rcases status with _ | _ | _
      · exact hactive
      · exact absurd rfl hstatus
      · cases hactive
    · exact ⟨hid, hactive⟩

theorem Db.listed_of_delete {db db' : Db Id} {id : Id} (h : db.delete id = .ok db')
    (hlisted : db'.Listed session) : db.Listed session := by
  obtain ⟨row, hrow, hid⟩ := Db.listed_iff.mp hlisted
  unfold delete at h
  split at h
  · cases h
  · cases h
    exact Db.listed_iff.mpr ⟨row, List.mem_of_mem_filter hrow, hid⟩

theorem listed_of_drift {choice : Choice Id} (h : drift w choice = some w') :
    w'.db.Listed session ↔ w.db.Listed session := by
  cases choice <;> simp only [drift] at h <;> try cases h
  · split_ifs at h
    cases h
    rfl
  · rfl
  · simp only [Db.listed_iff, List.mem_map]
    constructor
    · rintro ⟨_, ⟨row, hrow, rfl⟩, hid, hactive⟩
      refine ⟨row, hrow, ?_⟩
      split_ifs at hid hactive <;> exact ⟨hid, hactive⟩
    · rintro ⟨row, hrow, hid, hactive⟩
      refine ⟨_, ⟨row, hrow, rfl⟩, ?_⟩
      split_ifs <;> exact ⟨hid, hactive⟩

/-- No request of this interleaving makes a Session active. -/
theorem listed_of_answered (hA : OneEnd block i request) (hblock : EndsSession block)
    (h : Answered backend contract w trace i request o r w') (hlisted : w'.db.Listed session) :
    w.db.Listed session := by
  obtain ⟨choice, ha⟩ : ∃ choice, answer w o choice = some (r, w') := h.answer
  cases o with
  | addSession camera =>
    have hcreate : (standing contract i request trace).request = .create camera := h.allowed
    exact absurd (standing_request.symm.trans hcreate) (hA.not_create hblock camera)
  | saveSession s status =>
    rcases (write_world ha).2 with ⟨hdb, _⟩ | hsave
    · rwa [hdb] at hlisted
    · refine Db.listed_of_save hsave ?_ hlisted
      rintro rfl
      have hreopen : (standing contract i request trace).request = .update s (some .active) :=
        h.allowed
      exact hA.not_reopening hblock s (standing_request.symm.trans hreopen)
  | deleteSession s =>
    rcases (write_world ha).2 with ⟨hdb, _⟩ | hdelete
    · rwa [hdb] at hlisted
    · exact Db.listed_of_delete hdelete hlisted
  | _ => rwa [db_of_answer ha (by simp) (by simp) (by simp)] at hlisted

private theorem gone_cons {c : Call Id} : gone session (c :: trace) = true ↔
    ¬c.after.db.Listed session ∨ gone session trace = true := by
  simp only [gone, List.any_cons, Bool.or_eq_true, decide_eq_true_eq]

theorem reportedGone_cons {c : Call Id} {j : ℕ} (h : reportedGone session j (c :: trace) = true) :
    c.thread = j ∧ reportsGone session c = some true ∨
      (c.thread = j → reportsGone session c = none) ∧ reportedGone session j trace = true := by
  rw [reportedGone] at h
  by_cases hj : c.thread = j
  · rw [if_pos hj] at h
    cases hreports : reportsGone session c with
    | none =>
      rw [hreports] at h
      exact Or.inr ⟨fun _ => rfl, h⟩
    | some reported =>
      rw [hreports] at h
      exact Or.inl ⟨hj, by rw [← h]⟩
  · rw [if_neg hj] at h
    exact Or.inr ⟨fun h => absurd h hj, h⟩

private theorem not_listed_of_reportsGone {c : Call Id} (h : reportsGone session c = some true) :
    ¬c.before.db.Listed session := by
  rcases c with ⟨i, request, o, r, w, w'⟩
  cases o with
  | status =>
    cases r with
    | error e => cases h
    | ok run => exact (of_decide_eq_true (Option.some.inj h)).1
  | _ => cases h

private theorem unlisted_ending_step (hI : Gone session w trace)
    (h : Answered backend contract w trace i request o r w') (j : ℕ) (request' : Request Id)
    (hown : Owns (⟨i, request, o, r, w, w'⟩ :: trace) j request')
    (hgone : reportedGone session j (⟨i, request, o, r, w, w'⟩ :: trace) = true) (ids : List Id)
    (hids : ids ∈ (standing contract j request'
      (⟨i, request, o, r, w, w'⟩ :: trace)).activeIds) : session ∉ ids := by
  rcases reportedGone_cons hgone with ⟨rfl, hreports⟩ | ⟨hnone, hbefore⟩
  · -- the status read was the last call: no list is read yet
    rw [standing_cons_self] at hids
    cases o with
    | status =>
      cases r with
      | error e => cases hreports
      | ok run => cases hids
    | _ => cases hreports
  · by_cases hij : i = j
    · subst hij
      rw [standing_cons_self] at hids
      cases o with
      | status =>
        cases r with
        | error e => exact hI.unlisted i request' hown.tail hbefore ids hids
        | ok run => cases hnone rfl
      | listActive =>
        obtain ⟨choice, ha⟩ : ∃ choice, answer w .listActive choice = some (r, w') := h.answer
        cases r with
        | error e => exact hI.unlisted i request' hown.tail hbefore ids hids
        | ok rows =>
          obtain rfl := (read_world ha).2 rows rfl
          obtain rfl := Option.some.inj hids
          exact hI.reported i hbefore
      | _ =>
        rw [next_frame.activeIds] at hids
        · exact hI.unlisted i request' hown.tail hbefore ids hids
        · nofun
        · nofun
    · rw [standing_cons_of_ne hij] at hids
      exact hI.unlisted j request' hown.tail hbefore ids hids

theorem readActive_cons {c : Call Id} {j : ℕ} (h : readActive session j trace = true) :
    readActive session j (c :: trace) = true := by
  simp only [readActive, List.any_cons, Bool.or_eq_true] at h ⊢
  exact Or.inr h

private theorem listed_step (hI : Gone session w trace)
    (h : Answered backend contract w trace i request o r w') (j : ℕ) (request' : Request Id)
    (hown : Owns (⟨i, request, o, r, w, w'⟩ :: trace) j request') (ids : List Id)
    (hids : ids ∈ (standing contract j request'
      (⟨i, request, o, r, w, w'⟩ :: trace)).activeIds) (hin : session ∈ ids) :
    readActive session j (⟨i, request, o, r, w, w'⟩ :: trace) = true := by
  have hbefore := hI.listed j request' hown.tail ids
  by_cases hij : i = j
  · subst hij
    rw [standing_cons_self] at hids
    cases o with
    | status =>
      cases r with
      | error e => exact readActive_cons (hbefore hids hin)
      | ok run => cases hids
    | listActive =>
      obtain ⟨choice, ha⟩ : ∃ choice, answer w .listActive choice = some (r, w') := h.answer
      cases r with
      | error e => exact readActive_cons (hbefore hids hin)
      | ok rows =>
        obtain rfl := (read_world ha).2 rows rfl
        obtain rfl := Option.some.inj hids
        have hlisted : w.db.Listed session := hin
        simp [readActive, hlisted]
    | _ =>
      rw [next_frame.activeIds] at hids
      · exact readActive_cons (hbefore hids hin)
      · nofun
      · nofun
  · rw [standing_cons_of_ne hij] at hids
    exact readActive_cons (hbefore hids hin)

private theorem gone_step (hA : OneEnd block i request) (hblock : EndsSession block)
    (hI : Gone session w trace) (h : Answered backend contract w trace i request o r w') :
    Gone session w' (⟨i, request, o, r, w, w'⟩ :: trace) where
  gone hgone hlisted := by
    rcases gone_cons.mp hgone with hnot | hbefore
    · exact hnot hlisted
    · exact hI.gone hbefore (listed_of_answered hA hblock h hlisted)
  reported j hgone hlisted := by
    have hlisted := listed_of_answered hA hblock h hlisted
    rcases reportedGone_cons hgone with ⟨_, hreports⟩ | ⟨_, hbefore⟩
    · exact not_listed_of_reportsGone hreports hlisted
    · exact hI.reported j hbefore hlisted
  unlisted := unlisted_ending_step hI h
  listed := listed_step hI h

/-- A tick that starts a Run for the Session has read it active, and was not refused it by its end. -/
def StartsKnowing (session : Id) (c : Call Id) (earlier : List (Call Id)) : Prop :=
  startsRun session c = true → c.request = .tick →
    tried session (blockUnderWay session) c.thread earlier = false ∧
    readActive session c.thread earlier = true

private theorem started_step (hI : Ending session block w trace) (hG : Gone session w trace)
    (h : Answered backend contract w trace i request o r w') :
    StartsKnowing session ⟨i, request, o, r, w, w'⟩ trace := by
  intro hstarts htick
  cases o with
  | startRun s aliasName =>
    obtain rfl : s = session := of_decide_eq_true hstarts
    have hallowed : (standing contract i request trace).request = .tick → _ := h.allowed
    obtain ⟨_, ⟨ids, hids, hin⟩, hnot⟩ := hallowed (standing_request.trans htick)
    constructor
    · rw [← Bool.not_eq_true]
      exact fun htried => hnot (hI.gaveUp i request h.owned htried)
    · exact hG.listed i request h.owned ids hids hin
  | _ => cases hstarts

end

/-- What one Session's end is left to, whatever ticks and the watch of its creation do beside it. -/
structure LeftToItsEnd (session : Id) (c : Config (Ans Id) (Exn Id) (World Id) (Request Id)) :
    Prop where
  /-- Nothing changes its state while its block is under way. -/
  keeps : blockUnderWay session c.trace = true → (c.world.memory.stateOf session).state = .ending
  /-- A tick that tried to change its state in that time starts no Run for it. -/
  untried : EachCall (fun call earlier => startsRun session call = true → call.request = .tick →
    tried session (blockUnderWay session) call.thread earlier = false) c.trace
  /-- A tick that starts a Run for it has read it active. -/
  known : EachCall (fun call earlier => startsRun session call = true → call.request = .tick →
    readActive session call.thread earlier = true) c.trace
  stays : gone session c.trace = true → ¬c.world.db.Listed session
  /-- A start that was answered is looked after by its own thread. -/
  attended : ∀ i t, c.threads[i]? = some t → t.Finished → unattended session i c.trace = false
  /-- A tick told of its Run, once it is not active, ends it. -/
  ended : ∀ i t, c.threads[i]? = some t → t.rest = .ret none →
    reportedGone session i c.trace = true → endsSince session i c.trace = true

/-- In every interleaving of one `ending` block for the Session with the watch of its creation and any
number of ticks, the Session is left to its end. -/
theorem ending_leftToItsEnd (session : Id) (aliasName : String) (block : Request Id)
    (hblock : block = .update session (some .completed) ∨ block = .delete session) (w : World Id)
    (hstate : (w.memory.stateOf session).state ≠ .ending)
    (events : List (Event (Request Id) (Choice Id))) (hticks : ∀ r, .arrive r ∈ events → r = .tick)
    (c : Config (Ans Id) (Exn Id) (World Id) (Request Id))
    (hrun : backend.run (backend.initial w [block, .watch session aliasName]) events = some c) :
    LeftToItsEnd session c := by
  have hends : EndsSession block := ⟨session, hblock⟩
  have hthreads : ∀ i t, (backend.initial w [block, .watch session aliasName]).threads[i]? = some t →
      OneEnd block i t.request := by
    intro i t ht
    match i with
    | 0 =>
      cases ht
      exact Or.inl ⟨rfl, rfl⟩
    | 1 =>
      cases ht
      exact Or.inr (Or.inr ⟨session, aliasName, rfl⟩)
    | i + 2 => cases ht
  have hE : Ending session block w [] :=
    { reads := nofun
      began := fun h => absurd h hstate
      past := nofun
      entered := fun _ _ _ h => absurd rfl h
      left := nofun
      asked := nofun
      lastRead := fun _ _ _ h => by cases h
      showed := fun _ _ _ h => by cases h
      gaveUp := fun _ _ _ h => by cases h }
  have hG : Gone session w [] :=
    { gone := nofun
      reported := nofun
      unlisted := fun _ _ _ h => by cases h
      listed := fun _ _ _ _ h => by cases h }
  have hinv := run_keeps
    (I := fun w trace => Ending session block w trace ∧ Gone session w trace ∧
      EachCall (StartsKnowing session) trace) (A := OneEnd block) follows
    (fun w trace choice w' ⟨hI, hG, hS⟩ hd => ⟨
      { hI with
        reads := fun h => by
          rw [memory_of_drift hd]
          exact hI.reads h
        began := fun h => by
          rw [memory_of_drift hd] at h
          exact hI.began h },
      { hG with
        gone := fun h hl => hG.gone h ((listed_of_drift hd).mp hl)
        reported := fun i h hl => hG.reported i h ((listed_of_drift hd).mp hl) }, hS⟩)
    (fun w trace i request o r w' ⟨hI, hG, hS⟩ hA h =>
      ⟨ending_step hA hends hI h, gone_step hA hends hG h, started_step hI hG h, hS⟩)
    (fun r hr i _ => Or.inr (Or.inl (hticks r hr))) (kept_initial follows w _) hthreads
    ⟨hE, hG, trivial⟩ hrun
  obtain ⟨⟨hI, hG, hstarted⟩, hkept⟩ := hinv
  exact
    { keeps := hI.reads
      untried := eachCall_mono (fun _ _ h hs ht => (h hs ht).1) hstarted
      known := eachCall_mono (fun _ _ h hs ht => (h hs ht).2) hstarted
      stays := hG.gone
      attended := fun i t ht hf => by
        rw [← Bool.not_eq_true]
        intro h
        have hover : (standing contract i t.request c.trace).Over :=
          (hkept.finished ht hf).elim Local.Done.toOver id
        have hin : session ∈ (standing contract i t.request c.trace).started := mem_started h
        rw [hover.started] at hin
        cases hin
      ended := fun i t ht hret hgone => by
        have hholds := hkept.holds i t ht
        rw [hret] at hholds
        obtain ⟨run, hreported, rfl, hending⟩ :
            ∃ run ∈ (standing contract i t.request c.trace).reported, _ ∧ _ :=
          reported_of_reportedGone hgone
        obtain ⟨ids, hids, hin⟩ := (hholds.2 rfl).ended run hreported hending
        rcases hin with hin | hin
        · exact absurd hin (hG.unlisted i t.request (hkept.owns ht) hgone ids hids)
        · exact endsSince_of_mem hin }

def rangeStarting : World ℕ :=
  { rangeOpen with memory := { Memory.empty with states := [(0, .starting)], since := [(0, 0)] } }

def endedBeside (events : List (Event (Request ℕ) (Choice ℕ))) :
    Option (Config (Ans ℕ) (Exn ℕ) (World ℕ) (Request ℕ)) :=
  backend.run (backend.initial rangeStarting
    [.update 0 (some .completed), .watch 0 "lane1"]) events

/-- The block finds no Run to end, a start is answered beside it, and its thread ends that Run. -/
def watchOutlived : List (Event (Request ℕ) (Choice ℕ)) :=
  answers 0 [.done, .done, .run none] ++
  answers 1 [.run (some ⟨0, .watching⟩), .done, .done, .done, .run (some ⟨0, .ended⟩), .done,
    .done] ++
  .arrive .tick :: answers 2 [.run none, .done, .done, .done, .done] ++
  answers 0 [.done, .done, .done] ++
  .arrive .tick :: answers 3 [.run (some ⟨0, .watching⟩), .done, .done, .done,
    .run (some ⟨0, .ended⟩), .done, .done]

theorem ending_leftToItsEnd_watchOutlived :
    ∃ c, endedBeside watchOutlived = some c ∧ LeftToItsEnd 0 c := by
  have hrun : (endedBeside watchOutlived).any (fun c => ∀ t ∈ c.threads, t.Finished) = true := by
    decide
  obtain ⟨c, hc, _⟩ := (Option.any_eq_true _ _).mp hrun
  have hticks : ∀ r, .arrive r ∈ watchOutlived → r = .tick := by
    intro r hr
    simpa [watchOutlived, answers] using hr
  exact ⟨c, hc, ending_leftToItsEnd 0 "lane1" _ (Or.inl rfl) rangeStarting (by decide) watchOutlived
    hticks c hc⟩

/-- A tick has read the Session active; its end is confirmed and committed; the tick then finds it
reads `none` and starts a Run, of which the next tick is told nothing. -/
def tickOutlives : List (Event (Request ℕ) (Choice ℕ)) :=
  answers 1 [.raises .unreachable, .done] ++
  .arrive .tick :: answers 2 [.run none, .done, .done, .done] ++
  answers 0 [.done, .done, .run (some ⟨0, .ended⟩), .done, .done, .done, .done, .done] ++
  answers 2 [.done, .done, .run (some ⟨0, .watching⟩), .done, .done] ++
  .arrive .tick :: answers 3 [.run none, .done, .done, .done, .done]

/-- The tick's change comes after the block's first `_set`, and it starts a Run all the same; the next
tick answered after the commit calls for no end of it, nor does any other thread. -/
theorem stale_tick_starts_run :
    ∃ c, endedBeside tickOutlives = some c ∧ (∀ t ∈ c.threads, t.Finished) ∧
      ¬EachCall (fun call earlier => startsRun 0 call = true → call.request = .tick →
        tried 0 (begun 0) call.thread earlier = false) c.trace ∧
      (c.trace.dropWhile fun call => !answersStart 0 call).any (endsRun 0) = true ∧
      (c.trace.takeWhile fun call => !answersStart 0 call).any (endsRun 0) = false ∧
      (c.trace.takeWhile fun call => !answersStart 0 call).any (fun call =>
        call.request = .tick && (reportsGone 0 call).isSome && ¬call.before.db.Listed 0) = true := by
  have hrun : (endedBeside tickOutlives).any (fun c => (∀ t ∈ c.threads, t.Finished) ∧
      ¬EachCall (fun call earlier => startsRun 0 call = true → call.request = .tick →
        tried 0 (begun 0) call.thread earlier = false) c.trace ∧
      (c.trace.dropWhile fun call => !answersStart 0 call).any (endsRun 0) = true ∧
      (c.trace.takeWhile fun call => !answersStart 0 call).any (endsRun 0) = false ∧
      (c.trace.takeWhile fun call => !answersStart 0 call).any (fun call =>
        call.request = .tick && (reportsGone 0 call).isSome && ¬call.before.db.Listed 0) = true) =
      true := by decide
  obtain ⟨c, hc, hp⟩ := (Option.any_eq_true _ _).mp hrun
  exact ⟨c, hc, of_decide_eq_true hp⟩

end Kanat.DetectionSync
