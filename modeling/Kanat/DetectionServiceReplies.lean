import Kanat.DetectionServiceRegistry

/-! # What the flags of the Runs tell the calls that wait on them

`Flags` adds to the registry what each flag of a Run tells. `Freed` is what a Run that ends leaves its waiting calls,
and the last theorem puts both together with the registry. -/
namespace Kanat.DetectionService
open ResumptionPrograms InterleavedThreads

variable {Id View : Type}

/-- What holds of each Run's flags, and of what the threads have learned of it. -/
structure Flags (w : World Id View) (trace : List (Call Id View)) : Prop where
  session : ∀ j request, Owns trace j request → ∀ i s,
    (standing contract j request trace).found = some (i, s) →
    ∃ r, w.runs[i]? = some r ∧ r.session = s
  awaited : ∀ j request, Owns trace j request →
    (standing contract j request trace).awaited = true →
    ∃ i s r, (standing contract j request trace).found = some (i, s) ∧ w.runs[i]? = some r ∧
      r.ended = true
  seen : ∀ j request, Owns trace j request → ∀ r,
    (standing contract j request trace).seen = some r →
    ∃ read ∈ trace, read.thread = j ∧ ∃ i s, read.op = .read i ∧ read.before.runs[i]? = some r ∧
      (standing contract j request trace).found = some (i, s) ∧ r.session = s
  readied : ∀ j request, Owns trace j request → ∀ i,
    (standing contract j request trace).works = some i →
    (standing contract j request trace).readied = true →
    ∃ r, w.runs[i]? = some r ∧ r.ready = true
  ended : ∀ (i : ℕ) (r : Run Id View), w.runs[i]? = some r → r.ended = true →
    released i trace = true ∧ r.ready = true
  last : ∀ j request, Owns trace j request → ∀ i,
    (standing contract j request trace).works = some i →
    (standing contract j request trace).ended = true → workerDone i trace = true
  done : ∀ i, workerDone i trace = true → ∃ r, w.runs[i]? = some r ∧ r.ended = true
  looped : ∀ j request, Owns trace j request → ∀ i,
    (standing contract j request trace).works = some i →
    (standing contract j request trace).looped = true →
    ∃ r, w.runs[i]? = some r ∧ r.loop ≠ none
  watching : ∀ (i : ℕ) (r : Run Id View), w.runs[i]? = some r → r.state = .watching → r.loop ≠ none
  unlooped : ∀ (i : ℕ) (r : Run Id View), w.runs[i]? = some r → begun i trace = false → r.loop = none
  asked : ∀ i, askedWhileStarting i trace = true → ∃ r, w.runs[i]? = some r ∧ r.state = .ending
  stopped : ∀ j request, Owns trace j request → ∀ i,
    (standing contract j request trace).works = some i →
    (standing contract j request trace).mustStop = false → askedWhileStarting i trace = true →
    ∀ r : Run Id View, w.runs[i]? = some r → ∀ loop ∈ r.loop, loop.stopped = true

section
variable [DecidableEq Id] {w w' : World Id View} {trace : List (Call Id View)} {t : ℕ}
  {request : Request Id} {o : Op Id View} {a : Ans Id View o} {i : ℕ}

private theorem answer_find {choice : Choice View} {found : Option (ℕ × Id)}
    (h : answer w .find choice = some (found, w')) :
    w' = w ∧ ∀ i s, found = some (i, s) → ∃ r, w.runs[i]? = some r ∧ r.session = s := by
  cases choice <;> simp only [answer] at h <;> try cases h
  refine ⟨rfl, fun i s hfound => ?_⟩
  obtain ⟨run, _, hrun⟩ := Option.bind_eq_some_iff.mp hfound
  obtain ⟨r, hr, heq⟩ := Option.map_eq_some_iff.mp hrun
  cases heq
  exact ⟨r, hr, rfl⟩

private theorem answer_read {choice : Choice View} {run : ℕ} {r : Run Id View}
    (h : answer w (.read run) choice = some (r, w')) : w.runs[run]? = some r ∧ w' = w := by
  cases choice <;> simp only [answer] at h <;> try cases h
  obtain ⟨_, hr, h⟩ := Option.map_eq_some_iff.mp h
  cases h
  exact ⟨hr, rfl⟩

private theorem answer_waitEnded {choice : Choice View} {run : ℕ} {u : Unit}
    (h : answer w (.waitEnded run) choice = some (u, w')) :
    (∃ r, w.runs[run]? = some r ∧ r.ended = true) ∧ w' = w := by
  cases choice <;> simp only [answer] at h <;> try cases h
  split_ifs at h with hended
  cases h
  exact ⟨Option.map_eq_some_iff.mp hended, rfl⟩

private theorem answer_state {choice : Choice View} {run : ℕ} {was : RunState}
    (h : answer w (.enterEnding run) choice = some (was, w')) :
    ∃ r, w.runs[run]? = some r ∧ r.state = was := by
  cases choice <;> simp only [answer] at h <;> try cases h
  obtain ⟨r, hr, h⟩ := Option.map_eq_some_iff.mp h
  cases h
  exact ⟨r, hr, rfl⟩

private theorem answer_publishLoop {choice : Choice View} {run : ℕ} {ending : Bool}
    (h : answer w (.publishLoop run) choice = some (ending, w')) :
    ∃ r, w.runs[run]? = some r ∧ ending = decide (r.state = .ending) := by
  cases choice <;> simp only [answer] at h <;> try cases h
  obtain ⟨r, hr, h⟩ := Option.map_eq_some_iff.mp h
  cases h
  exact ⟨r, hr, rfl⟩

omit [DecidableEq Id] in
theorem begun_lt (hS : Slot w trace) {j : ℕ} (hown : Owns trace j request)
    (hworks : (standing contract j request trace).works = some i) : ∃ r, w.runs[i]? = some r :=
  ⟨_, List.getElem?_eq_getElem (hS.begun i (hS.works j request hown i hworks)).1⟩

/-- A thread that has a Run keeps it. -/
theorem found_kept (h : Answered service contract w trace t request o a w')
    {found : ℕ × Id} (hfound : (standing contract t request trace).found = some found) :
    (contract.next (standing contract t request trace) o a).found = some found := by
  have hnot : ¬(standing contract t request trace).Free := fun hfree => by
    rw [hfree.2] at hfound
    cases hfound
  cases o with
  | claim s u => exact absurd h.allowed hnot
  | find => exact absurd h.allowed hnot
  | _ => exact hfound

private theorem session_step (hI : Flags w trace)
    (h : Answered service contract w trace t request o a w') (j : ℕ) (request' : Request Id)
    (hown : Owns (⟨t, request, o, a, w, w'⟩ :: trace) j request') (s : Id)
    (hfound : (standing contract j request' (⟨t, request, o, a, w, w'⟩ :: trace)).found =
      some (i, s)) : ∃ r, w'.runs[i]? = some r ∧ r.session = s := by
  obtain ⟨choice, ha⟩ : ∃ choice, answer w o choice = some (a, w') := h.answer
  have hkept : (∃ r, w.runs[i]? = some r ∧ r.session = s) →
      ∃ r, w'.runs[i]? = some r ∧ r.session = s := by
    rintro ⟨r, hr, hs⟩
    exact ⟨_, run_after ha hr, Op.session_effect.trans hs⟩
  have hbefore := hI.session j request' hown.tail i s
  by_cases hj : t = j
  · subst hj
    rw [standing_cons_self] at hfound
    cases o with
    | claim session url =>
      cases a with
      | error view => exact hkept (hbefore hfound)
      | ok run =>
        cases hfound
        rcases answer_claim ha with ⟨_, hrun, rfl⟩ | ⟨run, holder, _, hholder, rfl, hrun⟩
        · cases hrun
          exact ⟨{ session := s }, by simp [World.create], rfl⟩
        · split_ifs at hrun with hsession
          cases hrun
          exact ⟨holder, hholder, hsession⟩
    | find =>
      obtain ⟨rfl, hfind⟩ := answer_find ha
      cases a with
      | none => exact hbefore hfound
      | some found =>
        cases hfound
        exact hfind i s rfl
    | _ => exact hkept (hbefore hfound)
  · rw [standing_cons_of_ne hj] at hfound
    exact hkept (hbefore hfound)

private theorem awaited_step (hI : Flags w trace)
    (h : Answered service contract w trace t request o a w') (j : ℕ) (request' : Request Id)
    (hown : Owns (⟨t, request, o, a, w, w'⟩ :: trace) j request')
    (hawaited : (standing contract j request' (⟨t, request, o, a, w, w'⟩ :: trace)).awaited =
      true) :
    ∃ i s r, (standing contract j request' (⟨t, request, o, a, w, w'⟩ :: trace)).found =
      some (i, s) ∧ w'.runs[i]? = some r ∧ r.ended = true := by
  obtain ⟨choice, ha⟩ : ∃ choice, answer w o choice = some (a, w') := h.answer
  have hbefore := hI.awaited j request' hown.tail
  by_cases hj : t = j
  · subst hj
    obtain rfl : request = request' := hown.head rfl
    rw [standing_cons_self] at hawaited ⊢
    have hsame : (standing contract t request trace).awaited = true → ∃ i s r,
        (contract.next (standing contract t request trace) o a).found = some (i, s) ∧
        w'.runs[i]? = some r ∧ r.ended = true := by
      intro hawaited
      obtain ⟨i, s, r, hfound, hr, hended⟩ := hbefore hawaited
      exact ⟨i, s, _, found_kept h hfound, run_after ha hr, Op.ended_effect hended⟩
    cases o with
    | waitEnded run =>
      obtain ⟨⟨r, hr, hended⟩, rfl⟩ := answer_waitEnded ha
      obtain ⟨s, hfound⟩ : (standing contract t request trace).Found run := h.allowed
      exact ⟨run, s, r, hfound, hr, hended⟩
    | claim s u => cases a <;> exact hsame hawaited
    | find => cases a <;> exact hsame hawaited
    | _ => exact hsame hawaited
  · rw [standing_cons_of_ne hj] at hawaited ⊢
    obtain ⟨i, s, r, hfound, hr, hended⟩ := hbefore hawaited
    exact ⟨i, s, _, hfound, run_after ha hr, Op.ended_effect hended⟩

private theorem seen_step (hI : Flags w trace)
    (h : Answered service contract w trace t request o a w') (j : ℕ) (request' : Request Id)
    (hown : Owns (⟨t, request, o, a, w, w'⟩ :: trace) j request') (r : Run Id View)
    (hseen : (standing contract j request' (⟨t, request, o, a, w, w'⟩ :: trace)).seen = some r) :
    ∃ read ∈ (⟨t, request, o, a, w, w'⟩ :: trace : List (Call Id View)), read.thread = j ∧
      ∃ i s, read.op = .read i ∧ read.before.runs[i]? = some r ∧
        (standing contract j request' (⟨t, request, o, a, w, w'⟩ :: trace)).found = some (i, s) ∧
        r.session = s := by
  obtain ⟨choice, ha⟩ : ∃ choice, answer w o choice = some (a, w') := h.answer
  have hbefore := hI.seen j request' hown.tail r
  by_cases hj : t = j
  · subst hj
    obtain rfl : request = request' := hown.head rfl
    rw [standing_cons_self] at hseen ⊢
    have hsame : (standing contract t request trace).seen = some r →
        ∃ read ∈ (⟨t, request, o, a, w, w'⟩ :: trace : List (Call Id View)), read.thread = t ∧
          ∃ i s, read.op = .read i ∧ read.before.runs[i]? = some r ∧
            (contract.next (standing contract t request trace) o a).found = some (i, s) ∧
            r.session = s := by
      intro hseen
      obtain ⟨read, hread, hthread, i, s, hop, hr, hfound, hs⟩ := hbefore hseen
      exact ⟨read, List.mem_cons_of_mem _ hread, hthread, i, s, hop, hr, found_kept h hfound, hs⟩
    cases o with
    | read run =>
      obtain ⟨hr, rfl⟩ := answer_read ha
      obtain rfl : a = r := Option.some.inj hseen
      obtain ⟨s, hfound⟩ : (standing contract t request trace).Found run := h.allowed
      obtain ⟨r, hr', hs⟩ := hI.session t request h.owned run s hfound
      obtain rfl : a = r := Option.some.inj (hr.symm.trans hr')
      exact ⟨_, List.mem_cons_self, rfl, run, s, rfl, hr, hfound, hs⟩
    | claim s u => cases a <;> exact hsame hseen
    | find => cases a <;> exact hsame hseen
    | _ => exact hsame hseen
  · rw [standing_cons_of_ne hj] at hseen ⊢
    obtain ⟨read, hread, hrest⟩ := hbefore hseen
    exact ⟨read, List.mem_cons_of_mem _ hread, hrest⟩

/-- A flag of its Run that a worker has raised stays raised. -/
theorem raised_step {flag : Local Id View → Bool} {P : Run Id View → Prop} (hS : Slot w trace)
    (h : Answered service contract w trace t request o a w')
    (hI : ∀ j request, Owns trace j request → ∀ i,
      (standing contract j request trace).works = some i →
      flag (standing contract j request trace) = true → ∃ r, w.runs[i]? = some r ∧ P r)
    (hkept : ∀ i r, P r → P (o.effect i r))
    (hfresh : ∀ l : Local Id View, l.Fresh → ∀ b : ℕ × String, o = .begin →
      flag (contract.next l .begin b) = false)
    (hraised : ∀ i r, o ≠ .begin → (standing contract t request trace).works = some i →
      flag (contract.next (standing contract t request trace) o a) = true →
      flag (standing contract t request trace) = false → w.runs[i]? = some r → P (o.effect i r))
    (j : ℕ) (request' : Request Id)
    (hown : Owns (⟨t, request, o, a, w, w'⟩ :: trace) j request')
    (hworks : (standing contract j request' (⟨t, request, o, a, w, w'⟩ :: trace)).works = some i)
    (hflag : flag (standing contract j request' (⟨t, request, o, a, w, w'⟩ :: trace)) = true) :
    ∃ r, w'.runs[i]? = some r ∧ P r := by
  obtain ⟨choice, ha⟩ : ∃ choice, answer w o choice = some (a, w') := h.answer
  have hsame : (∃ r, w.runs[i]? = some r ∧ P r) → ∃ r, w'.runs[i]? = some r ∧ P r := by
    rintro ⟨r, hr, hP⟩
    exact ⟨_, run_after ha hr, hkept i r hP⟩
  rcases works_cases hworks with ⟨rfl, hbegins⟩ | ⟨hnot, hworks⟩
  · obtain rfl : request = request' := hown.head rfl
    rw [standing_cons_self] at hflag
    cases o with
    | begin =>
      rw [hfresh _ (hS.fresh t request h.owned h.allowed.1) a rfl] at hflag
      cases hflag
    | _ => cases hbegins
  · by_cases hj : t = j
    · subst hj
      obtain rfl : request = request' := hown.head rfl
      rw [standing_cons_self] at hflag
      cases hbefore : flag (standing contract t request trace) with
      | true => exact hsame (hI t request hown.tail i hworks hbefore)
      | false =>
        obtain ⟨r, hr⟩ := begun_lt hS hown.tail hworks
        exact ⟨_, run_after ha hr, hraised i r (hnot rfl) hworks hflag hbefore hr⟩
    · rw [standing_cons_of_ne hj] at hflag
      exact hsame (hI j request' hown.tail i hworks hflag)

private theorem readied_step (hS : Slot w trace) (hI : Flags w trace)
    (h : Answered service contract w trace t request o a w') (j : ℕ) (request' : Request Id)
    (hown : Owns (⟨t, request, o, a, w, w'⟩ :: trace) j request')
    (hworks : (standing contract j request' (⟨t, request, o, a, w, w'⟩ :: trace)).works = some i)
    (hflag : (standing contract j request' (⟨t, request, o, a, w, w'⟩ :: trace)).readied = true) :
    ∃ r, w'.runs[i]? = some r ∧ r.ready = true := by
  refine raised_step (P := fun r => r.ready = true) hS h hI.readied (fun _ _ => Op.ready_effect)
    (fun l hl b _ => hl.readied) (fun i r ho hi hraised hbefore _ => ?_) j request' hown hworks
    hflag
  cases o with
  | setReady run =>
    have hrun : (standing contract t request trace).Works run := h.allowed
    rw [hrun.works] at hi
    cases hi
    rw [Op.effect_of_change rfl]
  | begin => exact absurd rfl ho
  | claim => cases a <;> exact absurd (hbefore.symm.trans hraised) nofun
  | find => cases a <;> exact absurd (hbefore.symm.trans hraised) nofun
  | _ => exact absurd (hbefore.symm.trans hraised) nofun

private theorem looped_step (hS : Slot w trace) (hI : Flags w trace)
    (h : Answered service contract w trace t request o a w') (j : ℕ) (request' : Request Id)
    (hown : Owns (⟨t, request, o, a, w, w'⟩ :: trace) j request')
    (hworks : (standing contract j request' (⟨t, request, o, a, w, w'⟩ :: trace)).works = some i)
    (hflag : (standing contract j request' (⟨t, request, o, a, w, w'⟩ :: trace)).looped = true) :
    ∃ r, w'.runs[i]? = some r ∧ r.loop ≠ none := by
  refine raised_step (P := fun r => r.loop ≠ none) hS h hI.looped (fun _ _ => Op.loop_effect)
    (fun l hl b _ => hl.looped) (fun i r ho hi hraised hbefore _ => ?_) j request' hown hworks
    hflag
  cases o with
  | publishLoop run =>
    rw [h.allowed.1.works] at hi
    cases hi
    rw [Op.effect_of_change rfl]
    nofun
  | begin => exact absurd rfl ho
  | claim => cases a <;> exact absurd (hbefore.symm.trans hraised) nofun
  | find => cases a <;> exact absurd (hbefore.symm.trans hraised) nofun
  | _ => exact absurd (hbefore.symm.trans hraised) nofun

omit [DecidableEq Id] in
theorem workerDone_cons {c : Call Id View} : workerDone i (c :: trace) = true ↔
    c.op = .setEnded i ∨ workerDone i trace = true := by
  rw [workerDone, List.any_cons, Bool.or_eq_true, ← workerDone]
  refine or_congr_left ?_
  cases c.op <;> simp

private theorem last_step (hS : Slot w trace) (hI : Flags w trace)
    (h : Answered service contract w trace t request o a w') (j : ℕ) (request' : Request Id)
    (hown : Owns (⟨t, request, o, a, w, w'⟩ :: trace) j request')
    (hworks : (standing contract j request' (⟨t, request, o, a, w, w'⟩ :: trace)).works = some i)
    (hlast : (standing contract j request' (⟨t, request, o, a, w, w'⟩ :: trace)).ended = true) :
    workerDone i (⟨t, request, o, a, w, w'⟩ :: trace) = true := by
  apply workerDone_cons.mpr
  rcases works_cases hworks with ⟨rfl, hbegins⟩ | ⟨hnot, hi⟩
  · obtain rfl : request = request' := hown.head rfl
    rw [standing_cons_self] at hlast
    cases o with
    | begin => exact absurd ((hS.fresh t request h.owned h.allowed.1).ended.symm.trans hlast) nofun
    | _ => cases hbegins
  · have hbefore := hI.last j request' hown.tail i hi
    by_cases hj : t = j
    · subst hj
      obtain rfl : request = request' := hown.head rfl
      rw [standing_cons_self] at hlast
      cases o with
      | setEnded run =>
        rw [h.allowed.1.works] at hi
        cases hi
        exact Or.inl rfl
      | begin => exact absurd rfl (hnot rfl)
      | claim => cases a <;> exact Or.inr (hbefore hlast)
      | find => cases a <;> exact Or.inr (hbefore hlast)
      | _ => exact Or.inr (hbefore hlast)
    · rw [standing_cons_of_ne hj] at hlast
      exact Or.inr (hbefore hlast)

theorem ended_step (hS : Slot w trace) (hI : Flags w trace)
    (h : Answered service contract w trace t request o a w') (r : Run Id View)
    (hr : w'.runs[i]? = some r) (hended : r.ended = true) :
    released i (⟨t, request, o, a, w, w'⟩ :: trace) = true ∧ r.ready = true := by
  obtain ⟨choice, ha⟩ : ∃ choice, answer w o choice = some (a, w') := h.answer
  have hreleased : released i trace = true →
      released i (⟨t, request, o, a, w, w'⟩ :: trace) = true := by
    intro hreleased
    rw [released, List.any_cons, Bool.or_eq_true]
    exact Or.inr hreleased
  rcases run_before ha hr with ⟨before, hbefore, rfl⟩ | ⟨_, _, session, rfl⟩
  · rcases Op.of_ended_effect hended with hended | rfl
    · obtain ⟨hrel, hready⟩ := hI.ended i before hbefore hended
      exact ⟨hreleased hrel, Op.ready_effect hready⟩
    · obtain ⟨hworks, hreadied, hrel⟩ := h.allowed
      obtain ⟨r, hr, hready⟩ := hI.readied t request h.owned i hworks.works hreadied
      obtain rfl : before = r := Option.some.inj (hbefore.symm.trans hr)
      have hsame := (hS.publishing t request h.owned i hworks.works).2
      exact ⟨hreleased (hsame.symm.trans hrel), Op.ready_effect hready⟩
  · cases hended

private theorem done_step (hS : Slot w trace) (hI : Flags w trace)
    (h : Answered service contract w trace t request o a w')
    (hdone : workerDone i (⟨t, request, o, a, w, w'⟩ :: trace) = true) :
    ∃ r, w'.runs[i]? = some r ∧ r.ended = true := by
  obtain ⟨choice, ha⟩ : ∃ choice, answer w o choice = some (a, w') := h.answer
  rcases workerDone_cons.mp hdone with hop | hdone
  · obtain rfl : o = .setEnded i := hop
    obtain ⟨r, hr⟩ := begun_lt hS h.owned h.allowed.1.works
    refine ⟨_, run_after ha hr, ?_⟩
    rw [Op.effect_of_change rfl]
  · obtain ⟨r, hr, hended⟩ := hI.done i hdone
    exact ⟨_, run_after ha hr, Op.ended_effect hended⟩

private theorem watching_step (hI : Flags w trace)
    (h : Answered service contract w trace t request o a w') (r : Run Id View)
    (hr : w'.runs[i]? = some r) (hstate : r.state = .watching) : r.loop ≠ none := by
  obtain ⟨choice, ha⟩ : ∃ choice, answer w o choice = some (a, w') := h.answer
  rcases run_before ha hr with ⟨before, hbefore, rfl⟩ | ⟨_, _, session, rfl⟩
  · apply Op.loop_effect
    rcases Op.of_watching_effect hstate with hstate | ⟨marks, view, rfl⟩
    · exact hI.watching i before hbefore hstate
    · obtain ⟨hworks, hlooped⟩ := h.allowed
      obtain ⟨r, hr, hloop⟩ := hI.looped t request h.owned i hworks.works hlooped
      obtain rfl : before = r := Option.some.inj (hbefore.symm.trans hr)
      exact hloop
  · cases hstate

private theorem unlooped_step (hS : Slot w trace) (hI : Flags w trace)
    (h : Answered service contract w trace t request o a w') (r : Run Id View)
    (hr : w'.runs[i]? = some r)
    (hbegun : begun i (⟨t, request, o, a, w, w'⟩ :: trace) = false) : r.loop = none := by
  obtain ⟨choice, ha⟩ : ∃ choice, answer w o choice = some (a, w') := h.answer
  have hbefore : begun i trace = false := by
    rw [← Bool.not_eq_true] at hbegun ⊢
    exact fun hb => hbegun (begun_cons.mpr (Or.inr hb))
  rcases run_before ha hr with ⟨before, hr', rfl⟩ | ⟨_, _, session, rfl⟩
  · refine Op.loop_of_effect ?_ (hI.unlooped i before hr' hbefore)
    rintro rfl
    have hb := hS.works t request h.owned i h.allowed.1.works
    rw [hbefore] at hb
    cases hb
  · rfl

omit [DecidableEq Id] in
theorem asked_cons {c : Call Id View} (h : askedWhileStarting i (c :: trace) = true) :
    askedWhileStarting i [c] = true ∨ askedWhileStarting i trace = true := by
  simp only [askedWhileStarting, List.any_cons, List.any_nil, Bool.or_false, Bool.or_eq_true] at h ⊢
  exact h

/-- A Run asked to end while starting. -/
theorem asked_of_call (h : Answered service contract w trace t request o a w')
    (hasked : askedWhileStarting i [⟨t, request, o, a, w, w'⟩] = true) :
    ∃ r, o = .enterEnding i ∧ w.runs[i]? = some r ∧ r.state = .starting ∧
      w'.runs[i]? = some r.enterEnding := by
  obtain ⟨choice, ha⟩ : ∃ choice, answer w o choice = some (a, w') := h.answer
  simp only [askedWhileStarting, List.any_cons, List.any_nil, Bool.or_false] at hasked
  cases o with
  | enterEnding run =>
    obtain ⟨hrun, hwas⟩ := Bool.and_eq_true _ _ ▸ hasked
    obtain rfl := of_decide_eq_true hrun
    obtain ⟨r, hr, hstate⟩ := answer_state ha
    refine ⟨r, rfl, hr, hstate.trans (of_decide_eq_true hwas), ?_⟩
    rw [run_after ha hr, Op.effect_of_change rfl]
  | _ => cases hasked

theorem asked_step (hI : Flags w trace)
    (h : Answered service contract w trace t request o a w')
    (hasked : askedWhileStarting i (⟨t, request, o, a, w, w'⟩ :: trace) = true) :
    ∃ r, w'.runs[i]? = some r ∧ r.state = .ending := by
  obtain ⟨choice, ha⟩ : ∃ choice, answer w o choice = some (a, w') := h.answer
  rcases asked_cons hasked with hasked | hasked
  · obtain ⟨r, _, _, _, hr⟩ := asked_of_call h hasked
    exact ⟨_, hr, rfl⟩
  · obtain ⟨r, hr, hstate⟩ := hI.asked i hasked
    exact ⟨_, run_after ha hr, Op.effect_ending hstate⟩

/-- What was read of whether to stop the loop was right, and is heeded first. -/
theorem stopped_step (hS : Slot w trace) (hI : Flags w trace)
    (h : Answered service contract w trace t request o a w') (j : ℕ) (request' : Request Id)
    (hown : Owns (⟨t, request, o, a, w, w'⟩ :: trace) j request')
    (hworks : (standing contract j request' (⟨t, request, o, a, w, w'⟩ :: trace)).works = some i)
    (hmust : (standing contract j request' (⟨t, request, o, a, w, w'⟩ :: trace)).mustStop = false)
    (hasked : askedWhileStarting i (⟨t, request, o, a, w, w'⟩ :: trace) = true)
    (r : Run Id View) (hr : w'.runs[i]? = some r) : ∀ loop ∈ r.loop, loop.stopped = true := by
  obtain ⟨choice, ha⟩ : ∃ choice, answer w o choice = some (a, w') := h.answer
  rcases asked_cons hasked with hasked | hasked
  · -- its loop, if it has one, is stopped under the same lock
    obtain ⟨before, _, _, hstate, hr'⟩ := asked_of_call h hasked
    obtain rfl : r = before.enterEnding := Option.some.inj (hr.symm.trans hr')
    intro loop hloop
    simp only [Run.enterEnding, hstate] at hloop
    obtain ⟨_, _, rfl⟩ := Option.map_eq_some_iff.mp hloop
    rfl
  · obtain ⟨r₁, hr₁, hstate⟩ := hI.asked i hasked
    obtain rfl : r = o.effect i r₁ := Option.some.inj (hr.symm.trans (run_after ha hr₁))
    rcases works_cases hworks with ⟨rfl, hbegins⟩ | ⟨hnot, hi⟩
    · -- it has only just begun, with no loop
      have hnone := hI.unlooped i r₁ hr₁ (not_begun_of_begins hS h hbegins)
      intro loop hloop
      cases o with
      | begin =>
        have hloop : loop ∈ r₁.loop := hloop
        rw [hnone] at hloop
        cases hloop
      | _ => cases hbegins
    · have hbefore := hI.stopped j request' hown.tail i hi
      by_cases hj : t = j
      · subst hj
        obtain rfl : request = request' := hown.head rfl
        rw [standing_cons_self] at hmust
        have hsame : o ≠ .publishLoop i → (standing contract t request trace).mustStop = false →
            ∀ loop ∈ (o.effect i r₁).loop, loop.stopped = true := fun ho hmust =>
          Op.stopped_effect ho (hbefore hmust hasked r₁ hr₁)
        cases o with
        | begin => exact absurd rfl (hnot rfl)
        | publishLoop run =>
          rw [h.allowed.1.works] at hi
          cases hi
          obtain ⟨r, hr, hending⟩ := answer_publishLoop ha
          obtain rfl : r₁ = r := Option.some.inj (hr₁.symm.trans hr)
          rw [hstate] at hending
          rw [hending] at hmust
          cases hmust
        | stop run =>
          have hrun : run = i := by
            rcases h.allowed with hrun | ⟨s, hfound⟩
            · exact Option.some.inj (hrun.symm.trans hi)
            · rw [hS.free t request h.owned (by rw [hfound]; nofun)] at hi
              cases hi
          subst hrun
          rw [Op.effect_of_change rfl]
          intro loop hloop
          obtain ⟨_, _, rfl⟩ := Option.map_eq_some_iff.mp hloop
          rfl
        | claim => cases a <;> exact hsame (by simp) hmust
        | find => cases a <;> exact hsame (by simp) hmust
        | _ => exact hsame (by simp) hmust
      · rw [standing_cons_of_ne hj] at hmust
        refine Op.stopped_effect ?_ (hbefore hmust hasked r₁ hr₁)
        rintro rfl
        exact hj (hS.unique t request h.owned j request' hown.tail i h.allowed.1.works hi)

private theorem flags_step (hS : Slot w trace) (hI : Flags w trace)
    (h : Answered service contract w trace t request o a w') :
    Flags w' (⟨t, request, o, a, w, w'⟩ :: trace) where
  session j request hown _ := session_step hI h j request hown
  awaited := awaited_step hI h
  seen := seen_step hI h
  readied j request hown _ := readied_step hS hI h j request hown
  ended _ := ended_step hS hI h
  last j request hown _ := last_step hS hI h j request hown
  done _ := done_step hS hI h
  looped j request hown _ := looped_step hS hI h j request hown
  watching _ := watching_step hI h
  unlooped _ := unlooped_step hS hI h
  asked _ := asked_step hI h
  stopped j request hown _ := stopped_step hS hI h j request hown

omit [DecidableEq Id] in
theorem holds_eq {j : ℕ} :
    ((standing contract j request trace).found).map Prod.fst = holds j trace := by
  induction trace with
  | nil => rfl
  | cons c trace ih =>
    rcases c with ⟨t, request', o, a, w, w'⟩
    rw [holds]
    by_cases hj : t = j
    · subst hj
      rw [standing_cons_self, if_pos rfl]
      cases o with
      | claim s u => cases a <;> first | exact ih | rfl
      | find =>
        cases a with
        | none => exact ih
        | some found => rfl
      | _ => exact ih
    · rw [standing_cons_of_ne hj, if_neg hj]
      exact ih

end

/-- A start answered 200 has read its own Session's Run watching. -/
def StartsWatching (call : Call Id View) (earlier : List (Call Id View)) : Prop :=
  ∀ session url reply, call.request = .start session url → call.op = .answer reply →
    reply.status = 200 → ∃ r : Run Id View, reply.body = .run r.view ∧ r.session = session ∧
      r.state = .watching ∧ ∃ read ∈ earlier, read.thread = call.thread ∧
      ∃ i, read.op = .read i ∧ read.before.runs[i]? = some r

/-- An end answered 200 comes after its Session's Run has left its publisher and the registry. -/
def EndsGone (call : Call Id View) (earlier : List (Call Id View)) : Prop :=
  ∀ session reply, call.request = .endRun session → call.op = .answer reply →
    reply.status = 200 → ∃ i r, holds call.thread earlier = some i ∧
      call.before.runs[i]? = some r ∧ r.session = session ∧ released i earlier = true ∧
      publisherOpen i earlier = false ∧ i ∉ inPlace earlier ∧ call.before.current ≠ some i

/-- Every Run there was is there still, and no less far. -/
def GoesForward (call : Call Id View) (_ : List (Call Id View)) : Prop :=
  ∀ (i : ℕ) (r : Run Id View), call.before.runs[i]? = some r →
    ∃ r', call.after.runs[i]? = some r' ∧ r.state.rank ≤ r'.state.rank

/-- A worker whose Run was asked to end while starting does nothing before it has stopped the loop. -/
def StopsFirst (call : Call Id View) (earlier : List (Call Id View)) : Prop :=
  ∀ (i : ℕ) (r : Run Id View), workerOp call.op = some i → askedWhileStarting i earlier = true →
    call.before.runs[i]? = some r → ∀ loop ∈ r.loop, loop.stopped = true

structure OneAtATime [DecidableEq Id]
    (c : Config (Ans Id View) Exn (World Id View) (Request Id)) : Prop where
  one : (inPlace c.trace).length ≤ 1
  starts : EachCall StartsWatching c.trace
  ends : EachCall EndsGone c.trace
  forward : EachCall GoesForward c.trace
  never : ∀ i, askedWhileStarting i c.trace = true →
    ∃ r, c.world.runs[i]? = some r ∧ r.state = .ending
  stops : EachCall StopsFirst c.trace
  /-- What ends a watching Run finds its loop to finish. -/
  looped : ∀ (i : ℕ) (r : Run Id View), c.world.runs[i]? = some r → r.state = .watching → r.loop ≠ none
  /-- A worker that is through has done its last. -/
  works : ∀ call ∈ c.trace, ∀ i, begins call = some i → ∀ t, c.threads[call.thread]? = some t →
    t.Finished → workerDone i c.trace = true
  /-- And from then on each start, end and close of its Run comes to its end by its own calls. -/
  releases : ∀ j t i, c.threads[j]? = some t → holds j c.trace = some i →
    workerDone i c.trace = true → ∃ (choices : List (Choice View))
      (c' : Config (Ans Id View) Exn (World Id View) (Request Id)),
      service.run c (choices.map fun choice => .answer j choice) = some c' ∧
      ∃ t', c'.threads[j]? = some t' ∧ t'.Finished

section
variable [DecidableEq Id] {w w' : World Id View} {trace : List (Call Id View)} {t : ℕ}
  {request : Request Id} {o : Op Id View} {a : Ans Id View o} {i : ℕ}

private theorem startsWatching_step (hI : Flags w trace)
    (h : Answered service contract w trace t request o a w') :
    StartsWatching ⟨t, request, o, a, w, w'⟩ trace := by
  rintro session url reply rfl rfl hstatus
  have hallowed : (standing contract t (.start session url) trace).AllowsReply reply := h.allowed
  rw [Local.AllowsReply, standing_request] at hallowed
  obtain ⟨r, hseen, hbody, hstate, i, hfound⟩ := hallowed hstatus
  obtain ⟨read, hread, hthread, i', s, hop, hr, hfound', hs⟩ := hI.seen t _ h.owned r hseen
  rw [hfound] at hfound'
  cases hfound'
  exact ⟨r, hbody, hs, hstate, read, hread, hthread, i, hop, hr⟩

private theorem endsGone_step (hS : Slot w trace) (hI : Flags w trace)
    (h : Answered service contract w trace t request o a w') :
    EndsGone ⟨t, request, o, a, w, w'⟩ trace := by
  rintro session reply rfl rfl hstatus
  have hallowed : (standing contract t (.endRun session) trace).AllowsReply reply := h.allowed
  rw [Local.AllowsReply, standing_request] at hallowed
  obtain ⟨hawaited, i, hfound⟩ := hallowed hstatus
  obtain ⟨i', s, r, hfound', hr, hended⟩ := hI.awaited t _ h.owned hawaited
  rw [hfound] at hfound'
  cases hfound'
  obtain ⟨r', hr', hs⟩ := hI.session t _ h.owned i session hfound
  obtain rfl : r = r' := Option.some.inj (hr.symm.trans hr')
  have hreleased := (hI.ended i r hr hended).1
  have hcurrent : w.current ≠ some i := fun hc => by
    have hnot := (hS.current i hc).2
    rw [hreleased] at hnot
    cases hnot
  have hholds : holds t trace = some i := holds_eq.symm.trans (congrArg (Option.map Prod.fst) hfound)
  exact ⟨i, r, hholds, hr, hs, hreleased, hS.closed i hreleased,
    fun hin => hcurrent (hS.inPlace i hin), hcurrent⟩

private theorem goesForward_step (h : Answered service contract w trace t request o a w') :
    GoesForward ⟨t, request, o, a, w, w'⟩ trace := by
  intro i r hr
  obtain ⟨choice, ha⟩ : ∃ choice, answer w o choice = some (a, w') := h.answer
  exact ⟨_, run_after ha hr, Op.rank_effect⟩

private theorem stopsFirst_step (hI : Flags w trace)
    (h : Answered service contract w trace t request o a w') :
    StopsFirst ⟨t, request, o, a, w, w'⟩ trace := by
  intro i r ho hasked hr
  have hworks := works_of_workerOp h ho
  exact hI.stopped t request h.owned i hworks.works hworks.mustStop hasked r hr

/-- A call whose Run's worker is done, and has set both events. -/
structure Freed (i : ℕ) (l : Local Id View) (w : World Id View) : Prop where
  found : l.Found i
  works : l.works = none
  events : ∃ r, w.runs[i]? = some r ∧ r.ready = true ∧ r.ended = true

/-- It is answered whatever it waits for. -/
theorem Freed.answer {l : Local Id View} (h : Freed i l w) (hallowed : l.Allows o) :
    ∃ choice a w', answer w o choice = some (a, w') ∧ Freed i (l.next o a) w' := by
  obtain ⟨⟨s, hfound⟩, hworks, r, hr, hready, hended⟩ := h
  have hfree : ¬l.Free := fun hfree => by
    rw [hfree.2] at hfound
    cases hfound
  have hnot : ∀ run, ¬l.Works run := fun run hrun => by
    rw [hrun.works] at hworks
    cases hworks
  have hrun : ∀ run, l.Found run → run = i := by
    rintro run ⟨s', hrun⟩
    rw [hfound] at hrun
    cases hrun
    rfl
  have hsame : ∀ {choice a w'}, DetectionService.answer w o choice = some (a, w') →
      (l.next o a).found = l.found → (l.next o a).works = l.works →
      ∃ choice a w', DetectionService.answer w o choice = some (a, w') ∧ Freed i (l.next o a) w' :=
    fun ha hf hw => ⟨_, _, _, ha, ⟨s, hf.trans hfound⟩, hw.trans hworks, _, run_after ha hr,
      Op.ready_effect hready, Op.ended_effect hended⟩
  cases o with
  | status | find | begin => exact absurd hallowed hfree
  | claim s u => exact absurd hallowed hfree
  | waitReady run =>
    obtain rfl := hrun run hallowed
    have ha : DetectionService.answer w (.waitReady run) .done = some (true, w) := by
      simp [DetectionService.answer, waitFor, hr, hready]
    exact hsame ha rfl rfl
  | waitEnding run =>
    obtain rfl := hrun run hallowed
    have ha : DetectionService.answer w (.waitEnding run) .done = some (true, w) := by
      simp [DetectionService.answer, waitFor, hr, hended]
    exact hsame ha rfl rfl
  | waitEnded run =>
    obtain rfl := hrun run hallowed
    have ha : DetectionService.answer w (.waitEnded run) .done = some ((), w) := by
      simp [DetectionService.answer, hr, hended]
    exact hsame ha rfl rfl
  | read run =>
    obtain rfl := hrun run hallowed
    have ha : DetectionService.answer w (.read run) .done = some (r, w) := by
      simp [DetectionService.answer, hr]
    exact hsame ha rfl rfl
  | enterEnding run =>
    obtain rfl := hrun run hallowed
    have ha : DetectionService.answer w (.enterEnding run) .done =
        some (r.state, w.modify run Run.enterEnding) := by
      simp [DetectionService.answer, hr]
    exact hsame ha rfl rfl
  | stop run =>
    have ha : DetectionService.answer w (.stop run) .done =
        some ((), w.modify run fun r => { r with loop := r.loop.map Loop.stop }) := rfl
    exact hsame ha rfl rfl
  | answer reply =>
    have ha : DetectionService.answer w (.answer reply) .done = some ((), w) := rfl
    exact hsame ha rfl rfl
  | openStream run u => exact absurd hallowed (hnot run)
  | baseline run | looks run | closePublisher run | setReady run => exact absurd hallowed (hnot run)
  | fail run e => exact absurd hallowed (hnot run)
  | publishLoop run | openPublisher run | release run | setEnded run =>
    exact absurd hallowed.1 (hnot run)
  | enterWatching run marks view => exact absurd hallowed.1 (hnot run)

end

variable [DecidableEq Id]

omit [DecidableEq Id] in
private theorem slot_idle : Slot (idle : World Id View) [] where
  current _ h := by cases h
  inPlace _ h := by cases h
  one := Nat.zero_le _
  threads _ h := by cases h
  threadsNodup := List.nodup_nil
  begun _ h := by cases h
  works _ _ _ _ h := by cases h
  unique _ _ _ _ _ _ _ h := by cases h
  unbegun _ _ := ⟨rfl, rfl⟩
  publishing _ _ _ _ h := by cases h
  closed _ h := by cases h
  free _ _ _ _ := rfl
  fresh _ _ _ _ := ⟨rfl, rfl, rfl, rfl, rfl⟩
  begins _ h := by cases h

omit [DecidableEq Id] in
private theorem flags_idle : Flags (idle : World Id View) [] where
  session _ _ _ _ _ h := by cases h
  awaited _ _ _ h := by cases h
  seen _ _ _ _ h := by cases h
  readied _ _ _ _ h := by cases h
  ended _ _ h := by cases h
  last _ _ _ _ h := by cases h
  done _ h := by cases h
  looped _ _ _ _ h := by cases h
  watching _ _ h := by cases h
  unlooped _ _ h := by cases h
  asked _ h := by cases h
  stopped _ _ _ _ h := by cases h

/-- In every run of the service, whatever calls it gets, however they and its workers take turns, it
has one Run at a time, answers each call as it promises, and lets none wait for a Run that is done. -/
theorem one_at_a_time (events : List (Event (Request Id) (Choice View)))
    (c : Config (Ans Id View) Exn (World Id View) (Request Id))
    (hrun : service.run (service.initial idle []) events = some c) : OneAtATime c := by
  have hinv := run_keeps (I := fun w trace => (Slot w trace ∧ Flags w trace) ∧
      EachCall StartsWatching trace ∧ EachCall EndsGone trace ∧ EachCall GoesForward trace ∧
      EachCall StopsFirst trace) (A := fun _ _ => True) follows nofun
    (fun w trace i request o r w' ⟨⟨hS, hI⟩, h₁, h₂, h₃, h₄⟩ _ h =>
      ⟨⟨slot_step hS h, flags_step hS hI h⟩, ⟨startsWatching_step hI h, h₁⟩,
        ⟨endsGone_step hS hI h, h₂⟩, ⟨goesForward_step h, h₃⟩, ⟨stopsFirst_step hI h, h₄⟩⟩)
    (fun _ _ _ _ => trivial) (kept_initial follows idle []) (fun _ _ _ => trivial)
    ⟨⟨slot_idle, flags_idle⟩, trivial, trivial, trivial, trivial⟩ hrun
  obtain ⟨⟨⟨hS, hI⟩, hstarts, hends, hforward, hstops⟩, hkept⟩ := hinv
  refine ⟨hS.one, hstarts, hends, hforward, hI.asked, hstops, hI.watching, ?_, ?_⟩
  · intro call hcall i hbegins t ht hfinished
    have hworks := hS.begins call hcall i hbegins t.request (hkept.owns ht)
    have hdone := (hkept.finished ht hfinished).resolve_right id
    exact hI.last call.thread t.request (hkept.owns ht) i hworks (hdone (by rw [hworks]; nofun))
  · intro j t i ht hholds hdone
    obtain ⟨r, hr, hended⟩ := hI.done i hdone
    have hfound : (standing contract j t.request c.trace).Found i := by
      have heq : ((standing contract j t.request c.trace).found).map Prod.fst = some i :=
        holds_eq.trans hholds
      obtain ⟨⟨i', s⟩, hfound, rfl⟩ := Option.map_eq_some_iff.mp heq
      exact ⟨s, hfound⟩
    have hfreed : Freed i (standing contract j t.request c.trace) c.world := by
      obtain ⟨s, hs⟩ := hfound
      exact ⟨⟨s, hs⟩, hS.free j t.request (hkept.owns ht) (by rw [hs]; nofun), r, hr,
        (hI.ended i r hr hended).2, hended⟩
    refine finishes_alone (J := Freed i) (fun l w o hl hallowed => ?_) (fun l w request hl hready => ?_)
      ht (hkept.holds j t ht) hfreed
    · obtain ⟨choice, a, w', ha, hl'⟩ := hl.answer hallowed
      exact ⟨choice, a, w', ha, trivial, hl'⟩
    · obtain ⟨s, hs⟩ := hl.found
      rw [hready] at hs
      cases hs

def answers (i : ℕ) (choices : List (Choice String)) : List (Event (Request ℕ) (Choice String)) :=
  choices.map (.answer i)

/-- The start is answered once its Run is watching; the end, and a second start, once it is done. -/
def watchedAndEnded : List (Event (Request ℕ) (Choice String)) :=
  [.arrive (.start 5 "rtsp://lane1"), .arrive .work] ++
  answers 0 [.done] ++ answers 1 [.thread 0, .done, .done, .done, .baseline 2 "view", .done, .done] ++
  answers 0 [.done, .done, .done] ++
  .arrive (.endRun 5) :: answers 2 [.done, .done] ++
  .arrive (.start 5 "rtsp://lane1") :: answers 3 [.done] ++
  answers 1 [.done, .done, .done, .done, .done] ++
  answers 2 [.done, .done, .done, .done]

theorem one_at_a_time_watchedAndEnded :
    ∃ c, service.run (service.initial idle []) watchedAndEnded = some c ∧ OneAtATime c := by
  have hrun : (service.run (service.initial idle []) watchedAndEnded).isSome = true := by
    decide
  obtain ⟨c, hc⟩ := Option.isSome_iff_exists.mp hrun
  exact ⟨c, hc, one_at_a_time watchedAndEnded c hc⟩

end Kanat.DetectionService
