import Kanat.DetectionWarnings

/-! # An active Session and the warning of an earlier end

A step leaves no warning on an active Session under the condition of `KeepsWatchable`. What each kind of call keeps
under it is proved call by call, then over every run; a reopening that cannot be read back is the run it excludes. -/
namespace Kanat.DetectionSync
open ResumptionPrograms InterleavedThreads

variable {Id : Type} [DecidableEq Id]

/-- The call commits the Session active, for a thread that is to call `reopened`. -/
def commitsActive (session : Id) (c : Call Id) : Bool :=
  match c.op, c.answer with
  | .saveSession s (some .active), .ok _ => s = session
  | _, _ => false

/-- The thread has called `reopened`, or never will. -/
def reopensNoMore (session : Id) (c : Call Id) : Bool :=
  match c.op, c.answer with
  | .set s detection onlyFrom, _ => s = session ∧ detection = .none ∧
      onlyFrom = some [.endUnconfirmed] ∧ c.request = .update session (some .active)
  | .sessionDetail _, .error _ => true
  | _, _ => false

/-- The threads that have committed the Session active and have not called `reopened` yet. -/
def reopenings (session : Id) : List (Call Id) → List ℕ
  | [] => []
  | c :: earlier =>
      if commitsActive session c then c.thread :: reopenings session earlier
      else if reopensNoMore session c then
        (reopenings session earlier).filter fun i => i ≠ c.thread
      else reopenings session earlier

/-- What an `ending` block learns of whether the Session is active, and whether it was wrong: its own
commit, or the read on its way out, which may fail while the Session is active. -/
def endLearns (session : Id) (c : Call Id) : Option Bool :=
  match c.op, c.answer with
  | .readSession _, .error _ => some (c.before.db.Active session)
  | .readSession _, .ok _ => some false
  | .saveSession _ (some .completed), .ok _ => some false
  | .deleteSession _, .ok _ => some false
  | _, _ => none

/-- What a tick learns of it. -/
def tickLearns (c : Call Id) : Option Bool :=
  match c.op, c.answer with
  | .listActive, .ok _ => some false
  | _, _ => none

/-- What the thread last learned was wrong, or the Session became active since. -/
def misled (session : Id) (learns : Call Id → Option Bool) (i : ℕ) : List (Call Id) → Bool
  | [] => false
  | c :: earlier =>
      match if c.thread = i then learns c else none with
      | some wrong => wrong
      | none => becameActive session c || misled session learns i earlier

/-- The step takes the Session for one that is not active, and is wrong or may be: the last `_set` of
an `ending` block, a tick that puts a state back, a tick that lets a start go. -/
def takenForInactive (session : Id) (c : Call Id) (earlier : List (Call Id)) :
    Option (List DetectionState) → Bool
  | none => misled session (endLearns session) c.thread earlier
  | some states =>
      if states = [.notWatching] then c.before.db.Active session
      else misled session tickLearns c.thread earlier

/-- The step sets the warning on a Session so taken. -/
def warnsActive (session : Id) (c : Call Id) (earlier : List (Call Id)) : Bool :=
  match c.op, c.answer with
  | .set s detection onlyFrom, changed => s = session && changed &&
      detection.state = .endUnconfirmed &&
      (detection ≠ .endUnconfirmed || session ∈ c.before.memory.watched) &&
      takenForInactive session c earlier onlyFrom
  | _, _ => false

/-- A reopening fails, committed, before it has called `reopened`. -/
def abandons (session : Id) (c : Call Id) : Bool :=
  match c.op, c.answer with
  | .saveSession s (some .active), .error _ => s = session
  | .sessionDetail _, .error _ => true
  | _, _ => false

/-- A step that leaves no warning on an active Session. -/
structure KeepsWatchable (session : Id) (c : Call Id) (earlier : List (Call Id)) : Prop where
  warns : reopenings session earlier = [] → warnsActive session c earlier = false
  reopens : abandons session c = true → c.after.db.Active session →
    (c.after.memory.stateOf session).state = .endUnconfirmed →
    reopenings session (c :: earlier) ≠ []

instance (session : Id) (c : Call Id) (earlier : List (Call Id)) :
    Decidable (KeepsWatchable session c earlier) :=
  decidable_of_iff ((reopenings session earlier = [] → warnsActive session c earlier = false) ∧
    (abandons session c = true → c.after.db.Active session →
      (c.after.memory.stateOf session).state = .endUnconfirmed →
      reopenings session (c :: earlier) ≠ [])) ⟨fun h => ⟨h.1, h.2⟩, fun h => ⟨h.1, h.2⟩⟩

structure Watchable (session : Id) (w : World Id) (trace : List (Call Id)) : Prop where
  reads : w.db.Active session → (w.memory.stateOf session).state = .endUnconfirmed →
    reopenings session trace ≠ []
  request : ∀ i ∈ reopenings session trace, ∃ call ∈ trace, call.thread = i ∧
    call.request = .update session (some .active)
  reopening : ∀ i ∈ reopenings session trace, ∀ request, Owns trace i request →
    (standing contract i request trace).reopening = true
  inactive : ∀ i request, Owns trace i request →
    (standing contract i request trace).entered = some session →
    (standing contract i request trace).word = .inactive ∨
      (standing contract i request trace).word = .unread →
    misled session (endLearns session) i trace = false → ¬w.db.Active session
  unlisted : ∀ i request, Owns trace i request →
    ∀ ids ∈ (standing contract i request trace).activeIds, session ∉ ids →
    misled session tickLearns i trace = false → ¬w.db.Active session

section
variable {w w' : World Id} {trace : List (Call Id)} {i : ℕ} {request : Request Id} {o : Op Id}
  {r : Ans Id o} {session : Id}

theorem misled_cons_of_none {learns : Call Id → Option Bool} {c : Call Id} {j : ℕ}
    (h : c.thread = j → learns c = none) (hm : misled session learns j (c :: trace) = false) :
    becameActive session c = false ∧ misled session learns j trace = false := by
  rw [misled] at hm
  have hnone : (if c.thread = j then learns c else none) = none := by
    split_ifs with hj
    · exact h hj
    · rfl
  rw [hnone] at hm
  exact Bool.or_eq_false_iff.mp hm

theorem not_active_after {c : Call Id} (h : becameActive session c = false)
    (hb : ¬c.before.db.Active session) : ¬c.after.db.Active session := by
  intro ha
  simp [becameActive, ha, hb] at h

/-- A thread that has learned nothing new was not misled before either. -/
theorem inactive_step (hI : Watchable session w trace)
    (h : Answered backend contract w trace i request o r w') (j : ℕ) (request' : Request Id)
    (hown : Owns (⟨i, request, o, r, w, w'⟩ :: trace) j request')
    (hin : (standing contract j request' (⟨i, request, o, r, w, w'⟩ :: trace)).entered =
      some session)
    (hword : (standing contract j request' (⟨i, request, o, r, w, w'⟩ :: trace)).word = .inactive ∨
      (standing contract j request' (⟨i, request, o, r, w, w'⟩ :: trace)).word = .unread)
    (hm : misled session (endLearns session) j (⟨i, request, o, r, w, w'⟩ :: trace) = false) :
    ¬w'.db.Active session := by
  by_cases hij : i = j
  · subst hij
    obtain rfl : request = request' := hown.head rfl
    obtain ⟨choice, ha⟩ : ∃ choice, answer w o choice = some (r, w') := h.answer
    rw [standing_cons_self] at hin hword
    have hsame : endLearns session ⟨i, request, o, r, w, w'⟩ = none →
        (standing contract i request trace).entered = some session →
        ((standing contract i request trace).word = .inactive ∨
          (standing contract i request trace).word = .unread) → ¬w'.db.Active session := by
      intro hnone hin hword
      obtain ⟨hb, hm⟩ := misled_cons_of_none (fun _ => hnone) hm
      exact not_active_after hb (hI.inactive i request hown.tail hin hword hm)
    have hlearns : ∀ wrong, endLearns session ⟨i, request, o, r, w, w'⟩ = some wrong →
        wrong = false := by
      intro wrong hl
      rw [misled, if_pos rfl, hl] at hm
      exact hm
    cases o with
    | getSession s =>
      rcases r with e | _ | row
      · exact hsame rfl hin hword
      · exact hsame rfl hin hword
      · by_cases hrow : row.status = .active
        · simp [contract, Local.next, hrow] at hword
        · exact hsame rfl (by simpa [contract, Local.next, hrow] using hin)
            (by simpa [contract, Local.next, hrow] using hword)
    | inStates s =>
      cases r with
      | true => exact hsame rfl hin hword
      | false => cases hin
    | set s d f =>
      simp only [contract, Local.next, Local.afterSet] at hin hword
      split_ifs at hin
      exact hsame rfl hin hword
    | readSession s =>
      have hs : (standing contract i request trace).entered = some s := h.allowed
      have hin' : (standing contract i request trace).entered = some session := by
        rw [← hin, contract]
        exact (next_frame.entered (by simp) (by simp) (by simp)).symm
      obtain rfl : s = session := Option.some.inj (hs.symm.trans hin')
      obtain ⟨rfl, hread⟩ := read_world ha
      rcases r with e | row
      · have hnot := hlearns _ rfl
        exact of_decide_eq_false hnot
      · rintro ⟨row', hrow', hactive⟩
        have hfound := hread _ rfl
        rw [hrow'] at hfound
        subst hfound
        simp [contract, Local.next, hactive] at hword
    | saveSession s status =>
      rcases status with _ | _ | _
      · exact hsame rfl hin hword
      · cases r <;> exact hsame rfl hin hword
      · have hs : (standing contract i request trace).entered = some s ∨
          (standing contract i request trace).entered = none := h.allowed
        have hin' : (standing contract i request trace).entered = some session := by
          cases r <;> exact hin
        cases r with
        | error e => rcases hword with hword | hword <;> cases hword
        | ok u =>
          rw [hin'] at hs
          obtain rfl : session = s := Option.some.inj (hs.resolve_right (by simp))
          rcases (write_world ha).2 with ⟨_, hr⟩ | hsave
          · cases hr
          · exact Db.not_active_save_completed hsave
    | deleteSession s =>
      have hs : (standing contract i request trace).entered = some s ∨
        (standing contract i request trace).entered = none := h.allowed
      have hin' : (standing contract i request trace).entered = some session := by
        cases r <;> exact hin
      cases r with
      | error e => rcases hword with hword | hword <;> cases hword
      | ok u =>
        rw [hin'] at hs
        obtain rfl : session = s := Option.some.inj (hs.resolve_right (by simp))
        rcases (write_world ha).2 with ⟨_, hr⟩ | hdelete
        · cases hr
        · exact Db.not_active_delete hdelete
    | _ =>
      refine hsame rfl ?_ ?_
      · rwa [next_frame.entered (by simp) (by simp) (by simp)] at hin
      · rwa [next_frame.word (by simp) (by simp) (by simp) (by simp)] at hword
  · rw [standing_cons_of_ne hij] at hin hword
    obtain ⟨hb, hm⟩ := misled_cons_of_none (fun h => absurd h hij) hm
    exact not_active_after hb (hI.inactive j request' hown.tail hin hword hm)

private theorem unlisted_step (hI : Watchable session w trace)
    (h : Answered backend contract w trace i request o r w') (j : ℕ) (request' : Request Id)
    (hown : Owns (⟨i, request, o, r, w, w'⟩ :: trace) j request') (ids : List Id)
    (hids : ids ∈ (standing contract j request'
      (⟨i, request, o, r, w, w'⟩ :: trace)).activeIds) (hnot : session ∉ ids)
    (hm : misled session tickLearns j (⟨i, request, o, r, w, w'⟩ :: trace) = false) :
    ¬w'.db.Active session := by
  by_cases hij : i = j
  · subst hij
    rw [standing_cons_self] at hids
    have hsame : tickLearns ⟨i, request, o, r, w, w'⟩ = none →
        ids ∈ (standing contract i request' trace).activeIds → ¬w'.db.Active session := by
      intro hnone hids
      obtain ⟨hb, hm⟩ := misled_cons_of_none (fun _ => hnone) hm
      exact not_active_after hb (hI.unlisted i request' hown.tail ids hids hnot hm)
    cases o with
    | listActive =>
      obtain ⟨choice, ha⟩ : ∃ choice, answer w .listActive choice = some (r, w') := h.answer
      obtain ⟨rfl, hread⟩ := read_world ha
      cases r with
      | error e => exact hsame rfl hids
      | ok rows =>
        obtain rfl := hread rows rfl
        rintro ⟨row, hrow, hactive⟩
        obtain rfl : _ = ids := Option.some.inj hids
        refine hnot (List.mem_map.mpr ⟨row, List.mem_filter.mpr ⟨?_, decide_eq_true hactive⟩,
          Db.id_of_session hrow⟩)
        exact List.mem_of_find?_eq_some hrow
    | status =>
      cases r with
      | error e => exact hsame rfl hids
      | ok run => cases hids
    | _ =>
      refine hsame rfl ?_
      rw [next_frame.activeIds] at hids
      · exact hids
      · nofun
      · nofun
  · rw [standing_cons_of_ne hij] at hids
    obtain ⟨hb, hm⟩ := misled_cons_of_none (fun h => absurd h hij) hm
    exact not_active_after hb (hI.unlisted j request' hown.tail ids hids hnot hm)

theorem mem_reopenings_cons {c : Call Id} {j : ℕ}
    (hj : j ∈ reopenings session (c :: trace)) :
    j = c.thread ∧ commitsActive session c = true ∨
      j ∈ reopenings session trace ∧ (reopensNoMore session c = true → j ≠ c.thread) := by
  rw [reopenings] at hj
  split_ifs at hj with hcommits hnoMore
  · rcases List.mem_cons.mp hj with rfl | hj
    · exact Or.inl ⟨rfl, hcommits⟩
    · refine Or.inr ⟨hj, fun hno => ?_⟩
      -- a commit is no call of `reopened`
      rcases c with ⟨i, request, o, r, w, w'⟩
      cases o <;> first | cases hcommits | cases hno
  · obtain ⟨hj, hne⟩ := List.mem_filter.mp hj
    exact Or.inr ⟨hj, fun _ => by simpa using hne⟩
  · exact Or.inr ⟨hj, fun hno => absurd hno hnoMore⟩

private theorem request_step (hI : Watchable session w trace)
    (h : Answered backend contract w trace i request o r w') :
    ∀ j ∈ reopenings session (⟨i, request, o, r, w, w'⟩ :: trace),
      ∃ call ∈ (⟨i, request, o, r, w, w'⟩ :: trace : List (Call Id)), call.thread = j ∧
        call.request = .update session (some .active) := by
  intro j hj
  rcases mem_reopenings_cons hj with ⟨hji, hcommits⟩ | ⟨hj, _⟩
  · refine ⟨_, List.mem_cons_self, hji.symm, ?_⟩
    cases o with
    | saveSession s status =>
      rcases status with _ | _ | _
      · cases hcommits
      · cases r with
        | error e => cases hcommits
        | ok u =>
          obtain rfl : s = session := of_decide_eq_true hcommits
          have hallowed : (standing contract i request trace).request = _ := h.allowed
          rwa [standing_request] at hallowed
      · cases r <;> cases hcommits
    | _ => cases hcommits
  · obtain ⟨call, hcall, heq⟩ := hI.request j hj
    exact ⟨call, List.mem_cons_of_mem _ hcall, heq⟩

private theorem reopening_step (hI : Watchable session w trace) :
    ∀ j ∈ reopenings session (⟨i, request, o, r, w, w'⟩ :: trace), ∀ request',
      Owns (⟨i, request, o, r, w, w'⟩ :: trace) j request' →
      (standing contract j request' (⟨i, request, o, r, w, w'⟩ :: trace)).reopening = true := by
  intro j hj request' hown
  by_cases hij : i = j
  · subst hij
    obtain rfl : request = request' := hown.head rfl
    rw [standing_cons_self]
    rcases mem_reopenings_cons hj with ⟨_, hcommits⟩ | ⟨hj, hmore⟩
    · cases o with
      | saveSession s status =>
        rcases status with _ | _ | _
        · cases hcommits
        · cases r with
          | error e => cases hcommits
          | ok u => rfl
        · cases r <;> cases hcommits
      | _ => cases hcommits
    · have hbefore := hI.reopening i hj request hown.tail
      obtain ⟨call, hcall, hthread, hreq⟩ := hI.request i hj
      have hrequest : request = .update session (some .active) :=
        (hown.tail call hcall hthread).symm.trans hreq
      cases o with
      | saveSession s status =>
        rcases status with _ | _ | _
        · exact hbefore
        · cases r with
          | error e => exact hbefore
          | ok u => rfl
        · exact hbefore
      | sessionDetail s =>
        cases r with
        | error e => exact absurd rfl (hmore rfl)
        | ok u => exact hbefore
      | set s d f =>
        simp only [contract, Local.next, Local.afterSet, Bool.and_eq_true, decide_eq_true_eq]
        refine ⟨hbefore, ?_⟩
        rintro ⟨hs, rfl, rfl⟩
        have hs : request = .update s (some .active) := standing_request.symm.trans hs
        obtain rfl : session = s := by
          rw [hrequest] at hs
          exact (Request.update.inj hs).1
        exact hmore (decide_eq_true ⟨rfl, rfl, rfl, hrequest⟩) rfl
      | _ =>
        rw [next_frame.reopening (by simp) (by simp) (by simp)]
        exact hbefore
  · rw [standing_cons_of_ne hij]
    rcases mem_reopenings_cons hj with ⟨hji, _⟩ | ⟨hj, _⟩
    · exact absurd hji.symm hij
    · exact hI.reopening j hj request' hown.tail

theorem reopenings_cons_of_quiet {c : Call Id} (hcommits : commitsActive session c = false)
    (hmore : reopensNoMore session c = false) :
    reopenings session (c :: trace) = reopenings session trace := by
  rw [reopenings, if_neg (by simp [hcommits]), if_neg (by simp [hmore])]

/-- A `_set` that leaves the Session warned had it warned before, or has its thread know better. -/
theorem warned_by_set (hI : Watchable session w trace)
    {d : Detection} {f : Option (List DetectionState)} {r : Bool}
    (h : Answered backend contract w trace i request (.set session d f) r w')
    (hkeeps : KeepsWatchable session ⟨i, request, .set session d f, r, w, w'⟩ trace)
    (hactive : w.db.Active session) (hadmits : admits f (w.memory.stateOf session).state = true)
    (hwarned : (w.memory.readAs session d).state = .endUnconfirmed) :
    reopenings session trace ≠ [] := by
  obtain ⟨choice, ha⟩ := h.answer
  obtain ⟨hr, _, _⟩ := answer_set ha
  rw [Memory.set_fst, hadmits] at hr
  subst hr
  have hreads : (w.memory.readAs session d).state = d.state ∨ _ := Memory.state_readAs
  have hd : d.state = .endUnconfirmed := by
    rcases hreads with hs | ⟨hs, _⟩
    · exact hs.symm.trans hwarned
    · rw [hs] at hwarned
      cases hwarned
  have hin : d = .endUnconfirmed → session ∈ w.memory.watched := by
    rintro rfl
    by_contra hout
    rw [Memory.readAs, if_pos ⟨rfl, hout⟩] at hwarned
    cases hwarned
  intro hnil
  have hwarns := hkeeps.warns hnil
  have htaken : takenForInactive session ⟨i, request, .set session d f, true, w, w'⟩ trace f =
      false := by
    rw [warnsActive] at hwarns
    by_contra ht
    rw [Bool.not_eq_false] at ht
    by_cases hdu : d = .endUnconfirmed
    · simp [hd, ht, hin hdu] at hwarns
    · simp [hd, ht, hdu] at hwarns
  cases f with
  | none =>
    rcases h.allowed with ⟨_, rfl⟩ | ⟨hentered, hmay⟩
    · cases hd
    · rcases hmay with rfl | ⟨rfl, _⟩ | ⟨_, _, hword⟩
      · cases hd
      · cases hd
      · exact hI.inactive i request h.owned hentered hword htaken hactive
  | some states =>
    rcases h.allowed.toWarning (Or.inl hd) with ⟨_, rfl, ids, hids, hnot⟩ | ⟨rfl, _⟩
    · exact hI.unlisted i request h.owned ids hids hnot htaken hactive
    · exact of_decide_eq_false htaken hactive

/-- A call that changes neither the Session nor who is to reopen it. -/
private theorem reads_quiet (hI : Watchable session w trace)
    (hcommits : commitsActive session ⟨i, request, o, r, w, w'⟩ = false)
    (hmore : reopensNoMore session ⟨i, request, o, r, w, w'⟩ = false) (hactive : w.db.Active session)
    (hwarned : (w.memory.stateOf session).state = .endUnconfirmed) :
    reopenings session (⟨i, request, o, r, w, w'⟩ :: trace) ≠ [] := by
  rw [reopenings_cons_of_quiet hcommits hmore]
  exact hI.reads hactive hwarned

private theorem reads_set (hI : Watchable session w trace) {s : Id} {d : Detection}
    {f : Option (List DetectionState)} {r : Ans Id (.set s d f)}
    (h : Answered backend contract w trace i request (.set s d f) r w')
    (hkeeps : KeepsWatchable session ⟨i, request, .set s d f, r, w, w'⟩ trace) (hactive : w'.db.Active session)
    (hwarned : (w'.memory.stateOf session).state = .endUnconfirmed) :
    reopenings session (⟨i, request, .set s d f, r, w, w'⟩ :: trace) ≠ [] := by
  obtain ⟨choice, ha⟩ : ∃ choice, answer w (.set s d f) choice = some (r, w') := h.answer
  obtain ⟨_, hm, hdb⟩ := answer_set ha
  rw [hdb] at hactive
  rw [hm] at hwarned
  by_cases hs : s = session
  · subst hs
    have hset : (w.memory.set w.clock s d f).2 = w.memory ∧ _ ∨ _ := Memory.set_self
    rcases hset with ⟨heq, hnot⟩ | ⟨hadmits, hstate, _⟩
    · rw [heq] at hwarned
      refine reads_quiet hI rfl ?_ hactive hwarned
      -- `reopened` would have gone through
      refine decide_eq_false ?_
      rintro ⟨_, _, rfl, _⟩
      rw [hwarned] at hnot
      cases hnot
    · have hd : d ≠ .none := by
        rintro rfl
        have hne : Detection.none ≠ .endUnconfirmed := nofun
        rw [hstate, Memory.readAs_of_ne hne] at hwarned
        cases hwarned
      have hmore : reopensNoMore s ⟨i, request, .set s d f, r, w, w'⟩ = false :=
        decide_eq_false fun hn => hd hn.2.1
      rw [reopenings_cons_of_quiet rfl hmore]
      exact warned_by_set hI h hkeeps hactive hadmits (hstate.symm.trans hwarned)
  · rw [Memory.stateOf_set_of_ne hs] at hwarned
    exact reads_quiet hI rfl (decide_eq_false fun hn => hs hn.1) hactive hwarned

private theorem reads_saveSession (hI : Watchable session w trace) {s : Id} {status : Option Status}
    {r : Ans Id (.saveSession s status)}
    (h : Answered backend contract w trace i request (.saveSession s status) r w')
    (hkeeps : KeepsWatchable session ⟨i, request, .saveSession s status, r, w, w'⟩ trace)
    (hactive : w'.db.Active session) (hwarned : (w'.memory.stateOf session).state = .endUnconfirmed) :
    reopenings session (⟨i, request, .saveSession s status, r, w, w'⟩ :: trace) ≠ [] := by
  obtain ⟨choice, ha⟩ : ∃ choice, answer w (.saveSession s status) choice = some (r, w') := h.answer
  obtain ⟨hm, hdb⟩ := write_world ha
  by_cases hs : session = s
  · subst hs
    rcases status with _ | _ | _
    · rw [hm] at hwarned
      refine reads_quiet hI rfl rfl ?_ hwarned
      rcases hdb with ⟨hdb, _⟩ | hsave
      · rwa [hdb] at hactive
      · exact (Db.active_save_none hsave).mp hactive
    · cases r with
      | ok u =>
        have hcommits : commitsActive session
            ⟨i, request, .saveSession session (some .active), .ok u, w, w'⟩ = true :=
          decide_eq_true rfl
        rw [reopenings, if_pos hcommits]
        exact List.cons_ne_nil _ _
      | error e => exact hkeeps.reopens (decide_eq_true rfl) hactive hwarned
    · rcases hdb with ⟨hdb, _⟩ | hsave
      · rw [hm] at hwarned
        rw [hdb] at hactive
        exact reads_quiet hI rfl rfl hactive hwarned
      · exact absurd hactive (Db.not_active_save_completed hsave)
  · rw [hm] at hwarned
    have hbefore : w.db.Active session := by
      rcases hdb with ⟨hdb, _⟩ | hsave
      · rwa [hdb] at hactive
      · exact (Db.active_save_of_ne hsave hs).mp hactive
    refine reads_quiet hI ?_ rfl hbefore hwarned
    rcases status with _ | _ | _
    · rfl
    · cases r with
      | ok u => exact decide_eq_false (Ne.symm hs)
      | error e => rfl
    · cases r <;> rfl

private theorem reads_watchable_step (hI : Watchable session w trace)
    (h : Answered backend contract w trace i request o r w')
    (hkeeps : KeepsWatchable session ⟨i, request, o, r, w, w'⟩ trace)
    (hactive : w'.db.Active session)
    (hwarned : (w'.memory.stateOf session).state = .endUnconfirmed) :
    reopenings session (⟨i, request, o, r, w, w'⟩ :: trace) ≠ [] := by
  obtain ⟨choice, ha⟩ : ∃ choice, answer w o choice = some (r, w') := h.answer
  cases o with
  | set s d f => exact reads_set hI h hkeeps hactive hwarned
  | discardWatched s =>
    obtain ⟨hm, hdb⟩ := answer_discard ha
    rw [hdb] at hactive
    rw [hm] at hwarned
    exact reads_quiet hI rfl rfl hactive hwarned
  | addSession camera =>
    obtain ⟨hm, hdb⟩ := answer_add ha
    rw [hm] at hwarned
    rcases hdb with hdb | ⟨id, hfresh, hadd⟩
    · rw [hdb] at hactive
      exact reads_quiet hI rfl rfl hactive hwarned
    · by_cases hid : session = id
      · subst hid
        rw [Memory.stateOf, hfresh.2.1] at hwarned
        cases hwarned
      · exact reads_quiet hI rfl rfl ((Db.active_add_of_ne hadd hid).mp hactive) hwarned
  | saveSession s status => exact reads_saveSession hI h hkeeps hactive hwarned
  | deleteSession s =>
    obtain ⟨hm, hdb⟩ := write_world ha
    rw [hm] at hwarned
    rcases hdb with ⟨hdb, _⟩ | hdelete
    · rw [hdb] at hactive
      exact reads_quiet hI rfl rfl hactive hwarned
    · by_cases hs : session = s
      · exact absurd (hs ▸ hactive) (Db.not_active_delete hdelete)
      · exact reads_quiet hI rfl rfl ((Db.active_delete_of_ne hdelete hs).mp hactive) hwarned
  | sessionDetail s =>
    cases r with
    | ok u =>
      obtain rfl := answer_sessionDetail ha
      exact reads_quiet hI rfl rfl hactive hwarned
    | error e => exact hkeeps.reopens rfl hactive hwarned
  | _ =>
    have hm := memory_of_answer ha (by simp) (by simp)
    have hdb := db_of_answer ha (by simp) (by simp) (by simp)
    rw [hm] at hwarned
    rw [hdb] at hactive
    exact reads_quiet hI rfl rfl hactive hwarned

private theorem watchable_step (hI : Watchable session w trace)
    (h : Answered backend contract w trace i request o r w')
    (hkeeps : KeepsWatchable session ⟨i, request, o, r, w, w'⟩ trace) :
    Watchable session w' (⟨i, request, o, r, w, w'⟩ :: trace) where
  reads := reads_watchable_step hI h hkeeps
  request := request_step hI h
  reopening := reopening_step hI
  inactive := inactive_step hI h
  unlisted := unlisted_step hI h

end

/-- The backend as it starts, with nothing in memory. -/
def restarted (clock : ℚ) (db : Db Id) : World Id where
  memory := .empty
  clock := clock
  db := db

/-- No request and no watch is under way; a tick may be. -/
def Quiet (c : Config (Ans Id) (Exn Id) (World Id) (Request Id)) : Prop :=
  ∀ t ∈ c.threads, t.request ≠ .tick → t.Finished

instance (c : Config (Ans Id) (Exn Id) (World Id) (Request Id)) : Decidable (Quiet c) :=
  inferInstanceAs (Decidable (∀ t ∈ c.threads, t.request ≠ .tick → t.Finished))

/-- In every run whose steps leave no warning on an active Session, no active Session reads
`end_unconfirmed` while no request is under way. -/
theorem active_not_endUnconfirmed (session : Id) (clock : ℚ) (db : Db Id)
    (events : List (Event (Request Id) (Choice Id)))
    (c : Config (Ans Id) (Exn Id) (World Id) (Request Id))
    (hrun : backend.run (backend.initial (restarted clock db) []) events = some c)
    (hkeeps : EachCall (KeepsWatchable session) c.trace) (hquiet : Quiet c)
    (hactive : c.world.db.Active session) :
    (c.world.memory.stateOf session).state ≠ .endUnconfirmed := by
  intro hwarned
  have hinv := run_keeps (I := fun w trace => EachCall (KeepsWatchable session) trace →
      Watchable session w trace) (A := fun _ _ => True) follows
    (fun w trace choice w' hI hd hkeeps =>
      have hI := hI hkeeps
      { hI with
        reads := fun h₁ h₂ => by
          rw [memory_of_drift hd] at h₂
          exact hI.reads ((active_of_drift hd session).mp h₁) h₂
        inactive := fun i request hown hin hword hm h => hI.inactive i request hown hin hword hm
          ((active_of_drift hd session).mp h)
        unlisted := fun i request hown ids hids hnot hm h =>
          hI.unlisted i request hown ids hids hnot hm ((active_of_drift hd session).mp h) })
    (fun w trace i request o r w' hI _ h hkeeps => watchable_step (hI hkeeps.2) h hkeeps.1)
    (fun _ _ _ _ => trivial) (kept_initial follows (restarted clock db) []) (fun _ _ _ => trivial) ?_ hrun
  · obtain ⟨hI, hkept⟩ := hinv
    have hI := hI hkeeps
    obtain ⟨i, hi⟩ := List.exists_mem_of_ne_nil _ (hI.reads hactive hwarned)
    obtain ⟨call, hcall, rfl, hreq⟩ := hI.request i hi
    obtain ⟨t, ht, htreq⟩ := hkept.owned call hcall
    have hreopening := hI.reopening _ hi _ (hkept.owns ht)
    have hfinished := hquiet t (List.mem_of_getElem? ht) (by rw [htreq, hreq]; nofun)
    rcases hkept.finished ht hfinished with hend | hend
    · rw [hend.reopening] at hreopening
      cases hreopening
    · rw [hend.reopening] at hreopening
      cases hreopening
  · exact fun _ =>
      { reads := fun _ h => by cases h
        request := nofun
        reopening := nofun
        inactive := fun _ _ _ h => by cases h
        unlisted := fun _ _ _ _ h => by cases h }

/-- The Session is made active again; reading it back fails or not. -/
def reopens (i : ℕ) (choices : List (Choice ℕ)) : List (Event (Request ℕ) (Choice ℕ)) :=
  .arrive (.update 0 (some .active)) :: answers i choices

theorem active_not_endUnconfirmed_reopens :
    ∃ c, runOpen (tickWatches 0 ++ completes 1 ++ reopens 2 [.done, .done, .done]) = some c ∧
      c.world.db.Active 0 ∧ (c.world.memory.stateOf 0).state ≠ .endUnconfirmed := by
  have hrun : (runOpen (tickWatches 0 ++ completes 1 ++ reopens 2 [.done, .done, .done])).any
      (fun c => EachCall (KeepsWatchable 0) c.trace ∧ Quiet c ∧ c.world.db.Active 0) = true := by
    decide
  obtain ⟨c, hc, hp⟩ := (Option.any_eq_true _ _).mp hrun
  obtain ⟨hkeeps, hquiet, hactive⟩ := of_decide_eq_true hp
  exact ⟨c, hc, hactive,
    active_not_endUnconfirmed 0 0 rangeOpen.db _ c hc hkeeps hquiet hactive⟩

/-- A reopening that cannot be read back leaves the Session active under its old warning. -/
theorem failed_reopening_keeps_warning :
    ∃ c, runOpen (tickWatches 0 ++ completes 1 ++ reopens 2 [.done, .raises .other]) = some c ∧
      Quiet c ∧ c.world.db.Active 0 ∧ (c.world.memory.stateOf 0).state = .endUnconfirmed := by
  have hrun : (runOpen (tickWatches 0 ++ completes 1 ++ reopens 2 [.done, .raises .other])).any
      (fun c => Quiet c ∧ c.world.db.Active 0 ∧
        (c.world.memory.stateOf 0).state = .endUnconfirmed) = true := by decide
  obtain ⟨c, hc, hp⟩ := (Option.any_eq_true _ _).mp hrun
  exact ⟨c, hc, of_decide_eq_true hp⟩

end Kanat.DetectionSync
