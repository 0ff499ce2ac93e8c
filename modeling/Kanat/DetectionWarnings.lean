import Kanat.DetectionThreads

/-! # The warning of an end that was not confirmed

`Warned` is the invariant: of the memory, of the database and of each thread. It is shown kept by the calls one after
another while each meets `KeepsWarning`, and a failed completion followed by another is the run that does not. -/
namespace Kanat.DetectionSync
open ResumptionPrograms InterleavedThreads

variable {Id : Type} [DecidableEq Id]

abbrev Call (Id : Type) := InterleavedThreads.Call (Ans Id) (World Id) (Request Id)

/-- The call reads the Session as `watching`. -/
def setWatching (session : Id) (c : Call Id) : Bool :=
  match c.op, c.answer with
  | .set s detection _, changed => changed && s = session && detection = .watching
  | _, _ => false

def becameActive (session : Id) (c : Call Id) : Bool :=
  ¬c.before.db.Active session ∧ c.after.db.Active session

/-- The Detection Service confirmed an end of the Session's Run. -/
def endConfirmed (session : Id) (c : Call Id) : Bool :=
  match c.op, c.answer with
  | .endRun s, .ok (some _) => s = session
  | _, _ => false

/-- The call committed the Session's completion or deletion. -/
def committedEnd (session : Id) (c : Call Id) : Bool :=
  match c.op, c.answer with
  | .saveSession s (some .completed), answer =>
      s = session ∧ (answer.isOk ∨ c.before.db.session session ≠ c.after.db.session session)
  | .deleteSession s, answer =>
      s = session ∧ (answer.isOk ∨ c.before.db.session session ≠ c.after.db.session session)
  | _, _ => false

/-- The last `_set` of an `ending` block. -/
def finalSet (session : Id) (c : Call Id) : Bool :=
  match c.op with
  | .set s detection none => s = session ∧ (detection = .none ∨ detection = .endUnconfirmed)
  | _ => false

/-- A request to end the Session has read it active. -/
def enters (session : Id) (c : Call Id) : Bool :=
  match c.op, c.answer with
  | .getSession _, .ok (some row) => row.id = session ∧ row.status = .active
  | _, _ => false

/-- It has no Run to end after all. -/
def passesBy (session : Id) (c : Call Id) : Bool :=
  match c.op, c.answer with
  | .inStates s, known => s = session ∧ known = false
  | _, _ => false

/-- The threads ending the Session's Run, from their read of it to their last `_set`. -/
def underWay (session : Id) : List (Call Id) → List ℕ
  | [] => []
  | c :: earlier =>
      if enters session c then c.thread :: underWay session earlier
      else if finalSet session c ∨ passesBy session c then
        (underWay session earlier).filter fun i => i ≠ c.thread
      else underWay session earlier

/-- The threads whose commit ended the Session, since it was last active. -/
def endedBy (session : Id) : List (Call Id) → List ℕ
  | [] => []
  | c :: earlier =>
      if becameActive session c then []
      else if committedEnd session c then c.thread :: endedBy session earlier
      else endedBy session earlier

/-- Was the end the thread asked for last confirmed? -/
def confirmedBy (i : ℕ) : List (Call Id) → Bool
  | [] => false
  | c :: earlier =>
      if c.thread = i then
        match c.op, c.answer with
        | .endRun _, .ok (some _) => true
        | .endRun _, _ => false
        | _, _ => confirmedBy i earlier
      else confirmedBy i earlier

/-- Since the Session last became active, and its Run's end was last confirmed, it was set
`watching`. -/
def wasWatched (session : Id) : List (Call Id) → Bool
  | [] => false
  | c :: earlier => setWatching session c ||
      !becameActive session c && !endConfirmed session c && wasWatched session earlier

/-- The call takes the Session out of `_watched` while it is active, or being ended. -/
def drops (session : Id) (c : Call Id) (earlier : List (Call Id)) : Bool :=
  session ∈ c.before.memory.watched ∧ session ∉ c.after.memory.watched ∧
    (c.before.db.Active session ∨ underWay session (c :: earlier) ≠ [])

/-- A call since the Session was last set `watching` dropped it. -/
def dropped (session : Id) : List (Call Id) → Bool
  | [] => false
  | c :: earlier => !setWatching session c && (drops session c earlier || dropped session earlier)

/-- An `ending` block whose own end was not confirmed, and which has committed, finishes. -/
def finishes (session : Id) (c : Call Id) (earlier : List (Call Id)) : Bool :=
  finalSet session c ∧ c.thread ∈ endedBy session earlier ∧ confirmedBy c.thread earlier = false

/-- The Session must read `end_unconfirmed`. -/
def owed (session : Id) : List (Call Id) → Bool
  | [] => false
  | c :: earlier => !becameActive session c &&
      (finishes session c earlier && wasWatched session earlier || owed session earlier)

/-- A tick puts back an `end_unconfirmed` it read, which went away and came to `not_watching` in the
meantime. -/
def putsBack (session : Id) (c : Call Id) : Bool :=
  match c.op, c.answer with
  | .set s detection onlyFrom, changed => s = session && changed &&
      onlyFrom = some [.notWatching] && detection.state = .endUnconfirmed
  | _, _ => false

def hasPutBack (session : Id) (i : ℕ) (earlier : List (Call Id)) : Bool :=
  earlier.any fun c => c.thread = i && putsBack session c

/-- A request begun before the Session ended sets it: its creation, another `ending` block, a
reopening, or a tick that has put a state back. -/
def latecomer (session : Id) (c : Call Id) (earlier : List (Call Id)) : Bool :=
  match c.op with
  | .set s _ none => s = session
  | .set s detection (some states) => s = session ∧ .endUnconfirmed ∈ states ∧
      (detection = .none ∨ hasPutBack session c.thread earlier)
  | _ => false

/-- A step that keeps the warning. -/
structure KeepsWarning (session : Id) (c : Call Id) (earlier : List (Call Id)) : Prop where
  kept : finishes session c earlier = true → wasWatched session earlier = true →
    dropped session earlier = false
  left : owed session earlier = true → latecomer session c earlier = false

instance (session : Id) (c : Call Id) (earlier : List (Call Id)) :
    Decidable (KeepsWarning session c earlier) :=
  decidable_of_iff ((finishes session c earlier = true → wasWatched session earlier = true →
    dropped session earlier = false) ∧ (owed session earlier = true →
      latecomer session c earlier = false)) ⟨fun h => ⟨h.1, h.2⟩, fun h => ⟨h.1, h.2⟩⟩

/-- What holds of the memory, the database and the threads whenever every step kept the warning. -/
structure Warned (session : Id) (w : World Id) (trace : List (Call Id)) : Prop where
  watched : wasWatched session trace = true → dropped session trace = false →
    w.db.Active session ∨ underWay session trace ≠ [] → session ∈ w.memory.watched
  reads : owed session trace = true → (w.memory.stateOf session).state = .endUnconfirmed
  ended : w.db.Active session → endedBy session trace = []
  entered : ∀ i request, Owns trace i request →
    (standing contract i request trace).entered = some session → i ∈ underWay session trace
  active : ∀ i request, Owns trace i request →
    (standing contract i request trace).entered = some session →
    (standing contract i request trace).word = .active → i ∉ endedBy session trace
  confirmed : ∀ i request, Owns trace i request →
    (standing contract i request trace).confirmed = confirmedBy i trace
  showed : ∀ i request, Owns trace i request →
    (standing contract i request trace).showed = some (session, .endUnconfirmed) →
    hasPutBack session i trace = true

section
variable {w w' : World Id} {trace : List (Call Id)} {i : ℕ} {request : Request Id} {o : Op Id}
  {r : Ans Id o} {session : Id}

private theorem active_of_enters (h : Answered backend contract w trace i request o r w')
    (he : enters session ⟨i, request, o, r, w, w'⟩ = true) : w.db.Active session := by
  obtain ⟨choice, ha⟩ : ∃ choice, answer w o choice = some (r, w') := h.answer
  cases o with
  | getSession s =>
    rcases r with e | _ | row
    · cases he
    · cases he
    · simp only [enters, decide_eq_true_eq] at he
      have hrow := (read_world ha).2 _ rfl
      obtain rfl : s = session := (Db.id_of_session hrow.symm).symm.trans he.1
      exact ⟨row, hrow.symm, he.2⟩
  | _ => cases he

private theorem mem_of_setWatching (h : Answered backend contract w trace i request o r w')
    (hset : setWatching session ⟨i, request, o, r, w, w'⟩ = true) :
    session ∈ w'.memory.watched := by
  obtain ⟨choice, ha⟩ : ∃ choice, answer w o choice = some (r, w') := h.answer
  cases o with
  | set s d f =>
    simp only [setWatching, Bool.and_eq_true, decide_eq_true_eq] at hset
    obtain ⟨⟨hr, rfl⟩, rfl⟩ := hset
    obtain ⟨hr', hm, _⟩ := answer_set ha
    rw [hr, Memory.set_fst] at hr'
    rw [hm, Memory.set_of_admits hr'.symm, Memory.change_watched, Memory.mem_watchedWith_self]
    exact Or.inl (Memory.readAs_of_ne nofun)
  | _ => cases hset

/-- `_watched` holds every Session watched and not dropped, while it matters. -/
theorem watched_step (hI : Warned session w trace)
    (h : Answered backend contract w trace i request o r w') :
    wasWatched session (⟨i, request, o, r, w, w'⟩ :: trace) = true →
    dropped session (⟨i, request, o, r, w, w'⟩ :: trace) = false →
    w'.db.Active session ∨ underWay session (⟨i, request, o, r, w, w'⟩ :: trace) ≠ [] →
    session ∈ w'.memory.watched := by
  intro hwas hdropped hmatters
  cases hset : setWatching session ⟨i, request, o, r, w, w'⟩ with
  | true => exact mem_of_setWatching h hset
  | false =>
    simp only [wasWatched, hset, Bool.false_or, Bool.and_eq_true, Bool.not_eq_true'] at hwas
    simp only [dropped, hset, Bool.not_false, Bool.true_and, Bool.or_eq_false_iff] at hdropped
    obtain ⟨⟨hbecame, _⟩, hwas⟩ := hwas
    have hbefore : w.db.Active session ∨ underWay session trace ≠ [] := by
      rcases hmatters with hactive | hunder
      · refine Or.inl ?_
        by_contra hnot
        simp [becameActive, hnot, hactive] at hbecame
      · rw [underWay] at hunder
        split_ifs at hunder with he hl
        · exact Or.inl (active_of_enters h he)
        · refine Or.inr fun hnil => hunder ?_
          rw [hnil, List.filter_nil]
        · exact Or.inr hunder
    have hin := hI.watched hwas hdropped.2 hbefore
    by_contra hout
    have hdrop : drops session ⟨i, request, o, r, w, w'⟩ trace = true := by
      refine decide_eq_true ⟨hin, hout, ?_⟩
      rcases hmatters with hactive | hunder
      · refine Or.inl ?_
        by_contra hnot
        simp [becameActive, hnot, hactive] at hbecame
      · exact Or.inr hunder
    rw [hdrop] at hdropped
    exact Bool.true_eq_false_eq_False hdropped.1

private theorem not_active_of_committedEnd (h : Answered backend contract w trace i request o r w')
    (he : committedEnd session ⟨i, request, o, r, w, w'⟩ = true) : ¬w'.db.Active session := by
  obtain ⟨choice, ha⟩ : ∃ choice, answer w o choice = some (r, w') := h.answer
  cases o with
  | saveSession s status =>
    rcases status with _ | _ | _
    · cases he
    · cases he
    · obtain ⟨rfl, he⟩ := of_decide_eq_true he
      rcases (write_world ha).2 with ⟨hdb, hr⟩ | hsave
      · simp [hdb, hr] at he
      · exact Db.not_active_save_completed hsave
  | deleteSession s =>
    obtain ⟨rfl, he⟩ := of_decide_eq_true he
    rcases (write_world ha).2 with ⟨hdb, hr⟩ | hdelete
    · simp [hdb, hr] at he
    · exact Db.not_active_delete hdelete
  | _ => cases he

theorem ended_step (hI : Warned session w trace)
    (h : Answered backend contract w trace i request o r w') (hactive : w'.db.Active session) :
    endedBy session (⟨i, request, o, r, w, w'⟩ :: trace) = [] := by
  rw [endedBy]
  split_ifs with hbecame hcommitted
  · rfl
  · exact absurd hactive (not_active_of_committedEnd h hcommitted)
  · refine hI.ended ?_
    by_contra hnot
    simp [becameActive, hnot, hactive] at hbecame

private theorem mem_underWay_cons {c : Call Id} {j : ℕ} (hj : j ≠ c.thread)
    (h : j ∈ underWay session trace) : j ∈ underWay session (c :: trace) := by
  rw [underWay]
  split_ifs
  · exact List.mem_cons_of_mem _ h
  · exact List.mem_filter.mpr ⟨h, by simpa using hj⟩
  · exact h

private theorem entered_step (hI : Warned session w trace) (j : ℕ) (request' : Request Id)
    (hown : Owns (⟨i, request, o, r, w, w'⟩ :: trace) j request')
    (hin : (standing contract j request' (⟨i, request, o, r, w, w'⟩ :: trace)).entered =
      some session) : j ∈ underWay session (⟨i, request, o, r, w, w'⟩ :: trace) := by
  by_cases hj : i = j
  · subst hj
    rw [standing_cons_self] at hin
    have hkeep : (standing contract i request' trace).entered = some session →
        enters session ⟨i, request, o, r, w, w'⟩ = false →
        (finalSet session ⟨i, request, o, r, w, w'⟩ = true ∨
          passesBy session ⟨i, request, o, r, w, w'⟩ = true → False) →
        i ∈ underWay session (⟨i, request, o, r, w, w'⟩ :: trace) := by
      intro hin he hl
      rw [underWay, if_neg (by simp [he]), if_neg hl]
      exact hI.entered i request' hown.tail hin
    cases o with
    | getSession s =>
      rcases r with e | _ | row
      · exact hkeep hin rfl (by simp [finalSet, passesBy])
      · exact hkeep hin rfl (by simp [finalSet, passesBy])
      · by_cases hrow : row.status = .active
        · have hid : row.id = session := by simpa [contract, Local.next, hrow] using hin
          rw [underWay, if_pos (by simp [enters, hid, hrow])]
          exact List.mem_cons_self
        · refine hkeep (by simpa [contract, Local.next, hrow] using hin) ?_ (by simp [finalSet, passesBy])
          simp [enters, hrow]
    | inStates s =>
      cases r with
      | true => exact hkeep hin rfl (by simp [finalSet, passesBy])
      | false => cases hin
    | set s d f =>
      simp only [contract, Local.next, Local.afterSet] at hin
      split_ifs at hin with hfinal
      refine hkeep hin rfl ?_
      rintro (hset | hpass)
      · cases f with
        | none => exact hfinal ⟨rfl, (of_decide_eq_true hset).2⟩
        | some states => cases hset
      · cases hpass
    | _ =>
      refine hkeep ?_ rfl (by simp [finalSet, passesBy])
      rwa [next_frame.entered (by simp) (by simp) (by simp)] at hin
  · rw [standing_cons_of_ne hj] at hin
    exact mem_underWay_cons (Ne.symm hj) (hI.entered j request' hown.tail hin)

theorem mem_endedBy_cons {c : Call Id} {j : ℕ} (hj : j ∈ endedBy session (c :: trace)) :
    j = c.thread ∧ committedEnd session c = true ∨ j ∈ endedBy session trace := by
  rw [endedBy] at hj
  split_ifs at hj with hbecame hcommitted
  · cases hj
  · rcases List.mem_cons.mp hj with rfl | hj
    · exact Or.inl ⟨rfl, hcommitted⟩
    · exact Or.inr hj
  · exact Or.inr hj

private theorem active_step (hI : Warned session w trace)
    (h : Answered backend contract w trace i request o r w') (j : ℕ) (request' : Request Id)
    (hown : Owns (⟨i, request, o, r, w, w'⟩ :: trace) j request')
    (hin : (standing contract j request' (⟨i, request, o, r, w, w'⟩ :: trace)).entered =
      some session)
    (hword : (standing contract j request' (⟨i, request, o, r, w, w'⟩ :: trace)).word = .active) :
    j ∉ endedBy session (⟨i, request, o, r, w, w'⟩ :: trace) := by
  intro hj
  by_cases hij : i = j
  · subst hij
    obtain rfl : request = request' := hown.head rfl
    rw [standing_cons_self] at hin hword
    -- a block enters before it reads, and reads only its own Session
    have hbefore : committedEnd session ⟨i, request, o, r, w, w'⟩ = false →
        (standing contract i request trace).entered = some session →
        (standing contract i request trace).word = .active → False := by
      intro hc hin hword
      rcases mem_endedBy_cons hj with ⟨_, hcommitted⟩ | hj
      · rw [hc] at hcommitted
        cases hcommitted
      · exact hI.active i request hown.tail hin hword hj
    cases o with
    | getSession s =>
      rcases r with e | _ | row
      · exact hbefore rfl hin hword
      · exact hbefore rfl hin hword
      · by_cases hrow : row.status = .active
        · simp [contract, Local.next, hrow] at hword
        · exact hbefore rfl (by simpa [contract, Local.next, hrow] using hin)
            (by simpa [contract, Local.next, hrow] using hword)
    | inStates s =>
      cases r with
      | true => exact hbefore rfl hin hword
      | false => cases hin
    | set s d f =>
      simp only [contract, Local.next, Local.afterSet] at hin hword
      split_ifs at hin
      exact hbefore rfl hin hword
    | readSession s =>
      have hs : (standing contract i request trace).entered = some s := h.allowed
      have hin' : (standing contract i request trace).entered = some session := by
        rw [← hin, contract]
        exact (next_frame.entered (by simp) (by simp) (by simp)).symm
      obtain rfl : s = session := Option.some.inj (hs.symm.trans hin')
      rcases r with e | _ | row
      · cases hword
      · cases hword
      · by_cases hrow : row.status = .active
        · obtain ⟨choice, ha⟩ := h.answer
          have hfound := (read_world ha).2 _ rfl
          rcases mem_endedBy_cons hj with ⟨_, hcommitted⟩ | hj
          · cases hcommitted
          · rw [hI.ended ⟨row, hfound.symm, hrow⟩] at hj
            cases hj
        · simp [contract, Local.next, hrow] at hword
    | saveSession s status =>
      rcases status with _ | _ | _
      · exact hbefore rfl hin hword
      · cases r <;> exact hbefore rfl hin hword
      · cases r <;> cases hword
    | deleteSession s => cases r <;> cases hword
    | _ =>
      refine hbefore rfl ?_ ?_
      · rwa [next_frame.entered (by simp) (by simp) (by simp)] at hin
      · rwa [next_frame.word (by simp) (by simp) (by simp) (by simp)] at hword
  · rw [standing_cons_of_ne hij] at hin hword
    rcases mem_endedBy_cons hj with ⟨rfl, _⟩ | hj
    · exact hij rfl
    · exact hI.active j request' hown.tail hin hword hj

private theorem confirmed_step (hI : Warned session w trace) (j : ℕ) (request' : Request Id)
    (hown : Owns (⟨i, request, o, r, w, w'⟩ :: trace) j request') :
    (standing contract j request' (⟨i, request, o, r, w, w'⟩ :: trace)).confirmed =
      confirmedBy j (⟨i, request, o, r, w, w'⟩ :: trace) := by
  have hbefore := hI.confirmed j request' hown.tail
  by_cases hij : i = j
  · subst hij
    rw [standing_cons_self, confirmedBy, if_pos rfl]
    cases o with
    | endRun s => rcases r with e | _ | run <;> rfl
    | _ =>
      refine Eq.trans ?_ hbefore
      exact next_frame.confirmed (by simp)
  · rw [standing_cons_of_ne hij, confirmedBy, if_neg hij]
    exact hbefore

private theorem showed_step (hI : Warned session w trace) (j : ℕ) (request' : Request Id)
    (hown : Owns (⟨i, request, o, r, w, w'⟩ :: trace) j request')
    (hshowed : (standing contract j request' (⟨i, request, o, r, w, w'⟩ :: trace)).showed =
      some (session, .endUnconfirmed)) :
    hasPutBack session j (⟨i, request, o, r, w, w'⟩ :: trace) = true := by
  have hbefore := hI.showed j request' hown.tail
  rw [hasPutBack, List.any_cons, Bool.or_eq_true]
  by_cases hij : i = j
  · subst hij
    rw [standing_cons_self] at hshowed
    cases o with
    | set s d f =>
      simp only [contract, Local.next, Local.afterSet] at hshowed
      split_ifs at hshowed with hputs
      · obtain ⟨rfl, hd⟩ := Prod.mk.inj (Option.some.inj hshowed)
        exact Or.inl (by simp [putsBack, hputs, hd])
      · exact Or.inr (hbefore hshowed)
    | _ =>
      refine Or.inr (hbefore ?_)
      rwa [next_frame.showed (by simp)] at hshowed
  · rw [standing_cons_of_ne hij] at hshowed
    exact Or.inr (hbefore hshowed)

private theorem reads_step (hI : Warned session w trace)
    (h : Answered backend contract w trace i request o r w')
    (hkeeps : KeepsWarning session ⟨i, request, o, r, w, w'⟩ trace)
    (howed : owed session (⟨i, request, o, r, w, w'⟩ :: trace) = true) :
    (w'.memory.stateOf session).state = .endUnconfirmed := by
  obtain ⟨choice, ha⟩ : ∃ choice, answer w o choice = some (r, w') := h.answer
  simp only [owed, Bool.and_eq_true, Bool.or_eq_true] at howed
  rcases howed.2 with ⟨hfinishes, hwas⟩ | howed
  · -- the block's last `_set`
    obtain ⟨hfinal, hended, hconfirmed⟩ := of_decide_eq_true hfinishes
    cases o with
    | set s d f =>
      cases f with
      | some states => cases hfinal
      | none =>
        obtain ⟨rfl, hd⟩ := of_decide_eq_true hfinal
        obtain ⟨hr, hm, _⟩ := answer_set ha
        rcases h.allowed with ⟨_, rfl⟩ | ⟨hin, hmay⟩
        · rcases hd with hd | hd <;> cases hd
        have hown := hI.confirmed i request h.owned
        rcases hmay with rfl | ⟨rfl, hmay⟩ | ⟨rfl, _⟩
        · rcases hd with hd | hd <;> cases hd
        · rcases hmay with hmay | hmay
          · rw [hown] at hmay
            exact absurd (hmay.symm.trans hconfirmed) nofun
          · exact absurd hended (hI.active i request h.owned hin hmay)
        · have hwatched := hI.watched hwas (hkeeps.kept hfinishes hwas)
            (Or.inr (List.ne_nil_of_mem (hI.entered i request h.owned hin)))
          rw [hm, Memory.set_of_admits rfl, Memory.state_change_self,
            Memory.readAs_endUnconfirmed hwatched]
          rfl
    | _ => cases hfinal
  · -- no call since has changed it
    have hbefore := hI.reads howed
    have hleft := hkeeps.left howed
    cases o with
    | set s d f =>
      obtain ⟨_, hm, _⟩ := answer_set ha
      rw [hm]
      by_cases hs : s = session
      · subst hs
        cases hadmits : admits f (w.memory.stateOf s).state with
        | false => rw [Memory.set_of_not_admits hadmits, hbefore]
        | true =>
          refine absurd hleft (Bool.not_eq_false _ ▸ ?_)
          rw [hbefore] at hadmits
          cases f with
          | none => exact decide_eq_true rfl
          | some states =>
            have hmem := of_decide_eq_true hadmits
            refine decide_eq_true ⟨rfl, hmem, ?_⟩
            exact (h.allowed.fromWarning hmem).imp And.left (hI.showed i request h.owned)
      · rw [Memory.stateOf_set_of_ne hs, hbefore]
    | discardWatched s =>
      obtain ⟨hm, _⟩ := answer_discard ha
      rw [hm]
      exact hbefore
    | _ =>
      have hm := memory_of_answer ha (by simp) (by simp)
      rw [hm]
      exact hbefore

private theorem warned_step (hI : Warned session w trace)
    (h : Answered backend contract w trace i request o r w')
    (hkeeps : KeepsWarning session ⟨i, request, o, r, w, w'⟩ trace) :
    Warned session w' (⟨i, request, o, r, w, w'⟩ :: trace) where
  watched := watched_step hI h
  reads := reads_step hI h hkeeps
  ended := ended_step hI h
  entered := entered_step hI
  active := active_step hI h
  confirmed := confirmed_step hI
  showed := showed_step hI

end

/-- In every run whose steps keep the warning, a Session that was watched and whose Run's end was not
confirmed reads `end_unconfirmed` from the end of the block on that completed or deleted it, until it
is active again. -/
theorem owed_reads_endUnconfirmed (session : Id) (w : World Id)
    (events : List (Event (Request Id) (Choice Id)))
    (c : Config (Ans Id) (Exn Id) (World Id) (Request Id))
    (hrun : backend.run (backend.initial w []) events = some c)
    (hkeeps : EachCall (KeepsWarning session) c.trace) (howed : owed session c.trace = true) :
    (c.world.memory.stateOf session).state = .endUnconfirmed := by
  have hinv := run_keeps (I := fun w trace => EachCall (KeepsWarning session) trace →
      Warned session w trace) (A := fun _ _ => True) follows
    (fun w trace choice w' hI hd hkeeps =>
      have hI := hI hkeeps
      { hI with
        watched := fun h₁ h₂ h₃ => by
          rw [memory_of_drift hd]
          exact hI.watched h₁ h₂ (h₃.imp_left (active_of_drift hd session).mp)
        reads := fun h => by
          rw [memory_of_drift hd]
          exact hI.reads h
        ended := fun h => hI.ended ((active_of_drift hd session).mp h) })
    (fun w trace i request o r w' hI _ h hkeeps => warned_step (hI hkeeps.2) h hkeeps.1)
    (fun _ _ _ _ => trivial) (kept_initial follows w []) (fun _ _ _ => trivial) ?_ hrun
  · exact (hinv.1 hkeeps).reads howed
  · exact fun _ =>
      { watched := nofun
        reads := nofun
        ended := fun _ => rfl
        entered := fun _ _ _ h => by cases h
        active := fun _ _ _ h => by cases h
        confirmed := fun _ _ _ => rfl
        showed := fun _ _ _ h => by cases h }

def rangeOpen : World ℕ where
  memory := .empty
  clock := 0
  db := { cameras := [⟨7, "lane1", true⟩], sessions := [⟨0, .active, some 7⟩] }

def answers (i : ℕ) (choices : List (Choice ℕ)) : List (Event (Request ℕ) (Choice ℕ)) :=
  choices.map (.answer i)

/-- A tick finds no Run and asks for one, which answers once it is watching. -/
def tickWatches (i : ℕ) : List (Event (Request ℕ) (Choice ℕ)) :=
  .arrive .tick :: answers i [.run none, .done, .done, .done, .done, .done,
    .run (some ⟨0, .watching⟩), .done, .done]

/-- The Session is completed; its Run's end is not answered. -/
def completes (i : ℕ) : List (Event (Request ℕ) (Choice ℕ)) :=
  .arrive (.update 0 (some .completed)) ::
    answers i [.done, .done, .raises .unreachable, .done, .done, .done]

/-- The same, but its commit fails, and leaves it active. -/
def failsToComplete (i : ℕ) : List (Event (Request ℕ) (Choice ℕ)) :=
  .arrive (.update 0 (some .completed)) ::
    answers i [.done, .done, .raises .unreachable, .raises .other, .done, .done]

def runOpen (events : List (Event (Request ℕ) (Choice ℕ))) :
    Option (Config (Ans ℕ) (Exn ℕ) (World ℕ) (Request ℕ)) :=
  backend.run (backend.initial rangeOpen []) events

theorem owed_reads_endUnconfirmed_completes :
    ∃ c, runOpen (tickWatches 0 ++ completes 1) = some c ∧ owed 0 c.trace = true ∧
      (c.world.memory.stateOf 0).state = .endUnconfirmed := by
  have hrun : (runOpen (tickWatches 0 ++ completes 1)).any (fun c =>
      EachCall (KeepsWarning 0) c.trace ∧ owed 0 c.trace = true) = true := by decide
  obtain ⟨c, hc, hp⟩ := (Option.any_eq_true _ _).mp hrun
  obtain ⟨hkeeps, howed⟩ := of_decide_eq_true hp
  exact ⟨c, hc, howed, owed_reads_endUnconfirmed 0 rangeOpen _ c hc hkeeps howed⟩

/-- A completion that failed has the next one, also not confirmed, leave no warning. -/
theorem failed_completion_drops_warning :
    ∃ c, runOpen (tickWatches 0 ++ failsToComplete 1 ++ completes 2) = some c ∧
      owed 0 c.trace = true ∧ (c.world.memory.stateOf 0).state = .none := by
  have hrun : (runOpen (tickWatches 0 ++ failsToComplete 1 ++ completes 2)).any (fun c =>
      owed 0 c.trace = true ∧ (c.world.memory.stateOf 0).state = .none) = true := by decide
  obtain ⟨c, hc, hp⟩ := (Option.any_eq_true _ _).mp hrun
  exact ⟨c, hc, of_decide_eq_true hp⟩

end Kanat.DetectionSync
