import Kanat.PruneRecords

/-! # What pruning leaves, among requests that mark, touch, fetch and delete

What one call changes of the files and the marks, and from that the invariant that a copy a prune may remove is one it
found not in use; a mark that has run out stays so while the clock goes on. -/
namespace Kanat.PruneCache
open InsertionOrderDict InterleavedThreads ResumptionPrograms Record

abbrev Step := Call Ans World Request

/-- What the thread's prune saw and did. -/
def record (i : ℕ) : List Step → Record
  | [] => {}
  | c :: trace => if c.thread = i then (record i trace).next c.op c.answer else record i trace

variable {readStart : String → Option ℚ} {budget : ℚ} {i j : ℕ} {request : Request} {o : Op} {a : Ans o}
  {w w' : World} {choice : Choice} {r : Record} {path : Path} {trace : List Step}

theorem standing_eq : standing (contract readStart budget) i request trace = (request, record i trace) := by
  induction trace with
  | nil => rfl
  | cons c trace ih =>
    rw [standing, record, ih]
    split_ifs
    · rfl
    · rfl

theorem record_self : record i (⟨i, request, o, a, w, w'⟩ :: trace) = (record i trace).next o a := if_pos rfl

theorem record_of_ne (h : i ≠ j) : record j (⟨i, request, o, a, w, w'⟩ :: trace) = record j trace := if_neg h

/-- What a call leaves as it was. -/
structure World.Frame (o : Op) (w w' : World) : Prop where
  guard (hlock : o ≠ .lockGuard) (hunlock : o ≠ .unlockGuard) : w'.guard = w.guard
  inUse (hset : ∀ p upTo, o ≠ .setMark p upTo) (hdrop : ∀ now, o ≠ .dropMarks now) : w'.inUse = w.inUse
  monotonic : w'.monotonic = w.monotonic
  files (hunlink : ∀ why p, o ≠ .unlink why p) (htouch : ∀ p, o ≠ .touch p) (hopen : ∀ p, o ≠ .openPart p)
    (hwrite : ∀ p n, o ≠ .write p n) (hreplace : ∀ p q, o ≠ .replace p q) : w'.files = w.files

private theorem append_frame {length : ℕ} : World.Frame (.write path length) w (w.append path length) := by
  unfold World.append
  split
  all_goals exact ⟨fun _ _ => rfl, fun _ _ => rfl, rfl, fun _ _ _ hwrite => absurd rfl (hwrite path length)⟩

theorem answer_frame (h : World.answer budget w o choice = some (a, w')) : World.Frame o w w' := by
  unfold World.answer at h
  split at h
  all_goals try split at h
  all_goals cases h
  -- a field that an arm sets is one of the calls the field's premises leave out
  all_goals first
    | exact append_frame
    | constructor <;> first | (intros; rfl) | (intros; simp_all)

theorem get_pop (w : World) (p path : Path) :
    (w.pop p).files.get path = w.files.get path ∨ (w.pop p).files.get path = none := by
  by_cases h : p = path
  · exact Or.inr (h ▸ Dict.get_pop_self)
  · exact Or.inl (Dict.get_pop_of_ne h)

/-- Only what is opened, written, touched or replaced is there anew. -/
theorem files_get (h : World.answer budget w o choice = some (a, w')) (hopen : o ≠ .openPart path)
    (hwrite : ∀ length, o ≠ .write path length) (htouch : o ≠ .touch path) (hreplace : ∀ p, o ≠ .replace p path) :
    w'.files.get path = w.files.get path ∨ w'.files.get path = none := by
  cases o with
  | unlink why p =>
    cases h
    exact get_pop w p path
  | openPart p =>
    cases h
    exact Or.inl (Dict.get_put_of_ne fun heq => hopen (heq ▸ rfl))
  | touch p =>
    cases h
    exact Or.inl (Dict.get_put_of_ne fun heq => htouch (heq ▸ rfl))
  | write p length =>
    cases h
    unfold World.append
    split
    · exact Or.inl rfl
    · exact Or.inl (Dict.get_put_of_ne fun heq => hwrite length (heq ▸ rfl))
  | replace p q =>
    simp only [World.answer] at h
    split at h
    next =>
      cases h
      exact Or.inl rfl
    next stat _ =>
      cases h
      have hput : ((w.pop p).put q stat).files.get path = (w.pop p).files.get path :=
        Dict.get_put_of_ne fun heq => hreplace p (heq ▸ rfl)
      rw [hput]
      exact get_pop w p path
  | _ => exact Or.inl (by rw [(answer_frame h).files (by simp) (by simp) (by simp) (by simp) (by simp)])

theorem sight_answered {s : Seen} (h : World.answer budget w o choice = some (a, w')) (hs : sight o a = some s) :
    w' = w ∧ w.files.get s.file = some s.stat := by
  cases o with
  | stat p =>
    obtain ⟨hget, rfl⟩ := Prod.mk.inj (Option.some.inj h)
    cases a with
    | none => cases hs
    | some stat =>
      cases hs
      exact ⟨rfl, hget⟩
  | _ => cases hs

private theorem notInUse_answered (h : World.answer budget w o choice = some (a, w')) (hp : notInUse o a = some path) :
    o = .isInUse path ∧ w' = w ∧ w.marked path = false := by
  cases o with
  | isInUse p =>
    obtain ⟨hmarked, rfl⟩ := Prod.mk.inj (Option.some.inj h)
    cases a with
    | true => cases hp
    | false =>
      cases hp
      exact ⟨rfl, rfl, hmarked⟩
  | _ => cases hp

theorem spared_answered (h : World.answer budget w o choice = some (a, w')) (hp : path ∈ (r.next o a).spared) :
    path ∈ r.spared ∨ o = .isInUse path ∧ w.marked path ∧ w' = w := by
  cases o with
  | isInUse p =>
    obtain ⟨hmarked, rfl⟩ := Prod.mk.inj (Option.some.inj h)
    cases a with
    | true =>
      rcases List.mem_cons.mp hp with rfl | hp
      · exact Or.inr ⟨rfl, hmarked, rfl⟩
      · exact Or.inl hp
    | false => exact Or.inl hp
  | iterdir => cases hp
  | stat p => cases a <;> exact Or.inl hp
  | unlink why p => cases why <;> exact Or.inl hp
  | _ => exact Or.inl hp

private theorem guard_next (h : (r.next o a).guard) : o = .lockGuard ∨ r.guard ∧ o ≠ .unlockGuard := by
  cases o with
  | lockGuard => exact Or.inl rfl
  | unlockGuard => cases h
  | stat p => cases a <;> exact Or.inr ⟨h, nofun⟩
  | isInUse p => cases a <;> exact Or.inr ⟨h, nofun⟩
  | unlink why p => cases why <;> exact Or.inr ⟨h, nofun⟩
  | _ => exact Or.inr ⟨h, nofun⟩

private theorem lockGuard_answered {a : Ans .lockGuard} (h : World.answer budget w .lockGuard choice = some (a, w')) :
    w.guard = false ∧ w'.guard = true := by
  simp only [World.answer] at h
  split at h
  · cases h
  next hfree =>
    cases h
    exact ⟨Bool.eq_false_iff.mpr hfree, rfl⟩

/-- One thread at a time holds it, and a copy it found not in use is not. -/
structure Guarded (w : World) (trace : List Step) : Prop where
  held : ∀ i, (record i trace).guard → w.guard
  alone : ∀ i j, (record i trace).guard → (record j trace).guard → i = j
  unmarked : ∀ i path, (record i trace).checked = some path → (record i trace).guard ∧ w.marked path = false

theorem Guarded.answered (h : Guarded w trace) (hallowed : (record i trace).Allows readStart o)
    (hanswer : World.answer budget w o choice = some (a, w')) :
    Guarded w' (⟨i, request, o, a, w, w'⟩ :: trace) := by
  have hframe := answer_frame hanswer
  have hfree (ho : o = .lockGuard) : w.guard = false ∧ w'.guard = true := by
    subst ho
    exact lockGuard_answered hanswer
  -- who holds it after the call has just taken it, or held it before
  have hbefore (j : ℕ) (hj : (record j (⟨i, request, o, a, w, w'⟩ :: trace)).guard) :
      o = .lockGuard ∧ i = j ∨ (record j trace).guard ∧ (i = j → o ≠ .unlockGuard) := by
    by_cases hij : i = j
    · subst hij
      rw [record_self] at hj
      exact (guard_next hj).imp (fun ho => ⟨ho, rfl⟩) fun h => ⟨h.1, fun _ => h.2⟩
    · rw [record_of_ne hij] at hj
      exact Or.inr ⟨hj, fun heq => absurd heq hij⟩
  have htaken (ho : o = .lockGuard) (j : ℕ) : ¬(record j trace).guard := by
    intro hj
    rw [h.held j hj] at hfree
    cases (hfree ho).1
  refine ⟨fun j hj => ?_, fun j k hj hk => ?_, fun j path hpath => ?_⟩
  · rcases hbefore j hj with ⟨ho, -⟩ | ⟨hold, hnot⟩
    · exact (hfree ho).2
    · have hunlock : o ≠ .unlockGuard := by
        rintro rfl
        exact hnot (h.alone i j hallowed hold) rfl
      rw [hframe.guard (fun ho => htaken ho j hold) hunlock]
      exact h.held j hold
  · rcases hbefore j hj with ⟨ho, rfl⟩ | ⟨hold, -⟩
    · rcases hbefore k hk with ⟨-, rfl⟩ | ⟨hold, -⟩
      · rfl
      · exact absurd hold (htaken ho k)
    · rcases hbefore k hk with ⟨ho, -⟩ | ⟨hold', -⟩
      · exact absurd hold (htaken ho j)
      · exact h.alone j k hold hold'
  · by_cases hij : i = j
    · subst hij
      rw [record_self] at hpath ⊢
      obtain ⟨rfl, rfl, hunmarked⟩ := notInUse_answered hanswer hpath
      refine ⟨?_, hunmarked⟩
      cases a <;> exact hallowed
    · rw [record_of_ne hij] at hpath ⊢
      obtain ⟨hguard, hunmarked⟩ := h.unmarked j path hpath
      have hnot : ¬(record i trace).guard := fun hi => hij (h.alone i j hi hguard)
      have hinUse : w'.inUse = w.inUse := hframe.inUse (fun p upTo ho => hnot (by subst ho; exact hallowed))
        fun now ho => hnot (by subst ho; exact hallowed)
      refine ⟨hguard, ?_⟩
      rw [World.marked, hinUse, hframe.monotonic]
      exact hunmarked

theorem drift_eq (h : World.drift w choice = some w') :
    ∃ elapsed time, 0 ≤ elapsed ∧ w' = { w with monotonic := w.monotonic + elapsed, time } := by
  unfold World.drift at h
  split at h
  · split_ifs at h with helapsed
    cases h
    exact ⟨_, _, helapsed, rfl⟩
  · cases h

/-- A mark that has run out stays so. -/
theorem Guarded.drift (h : Guarded w trace) (hw : World.drift w choice = some w') : Guarded w' trace := by
  obtain ⟨elapsed, time, helapsed, rfl⟩ := drift_eq hw
  refine ⟨h.held, h.alone, fun i path hpath => ⟨(h.unmarked i path hpath).1, ?_⟩⟩
  have hunmarked := (h.unmarked i path hpath).2
  simp only [World.marked, Option.any_eq_false, decide_eq_false_iff_not, not_lt] at hunmarked ⊢
  exact fun upTo hmark => (hunmarked upTo hmark).trans (le_add_of_nonneg_right helapsed)

/-- What a prune removes, when it does. A copy not expired goes after those played before it. -/
def Right (readStart : String → Option ℚ) (call : Step) (earlier : List Step) : Prop :=
  let r := record call.thread earlier
  match call.op with
  | .unlink why path => why.pruned → ∃ s ∈ r.seen, s.file = path ∧
      (abandoned r.now s ∨ isCopy path ∧ call.before.marked path = false ∧
        (tooOld readStart r.now r.expired s ∨
          ∀ s' ∈ r.seen, isCopy s'.file → s'.stat.mtime < s.stat.mtime → r.Settled s'.file))
  | .budget => r.Scanned readStart
  | _ => True

private theorem isCopy_of_mem_kept {s : Seen} (h : s ∈ r.kept readStart) : isCopy s.file := by
  have hkeeps := (List.mem_filter.mp h).2
  simp only [keeps, Bool.and_eq_true] at hkeeps
  exact hkeeps.1

private theorem right_answered (h : Guarded w trace) (hallowed : (record i trace).Allows readStart o) :
    Right readStart ⟨i, request, o, a, w, w'⟩ trace := by
  cases o with
  | unlink why path =>
    cases why with
    | abandoned =>
      obtain ⟨s, hs, hfile, habandoned, -⟩ := hallowed
      exact fun _ => ⟨s, hs, hfile, Or.inl habandoned⟩
    | expired =>
      obtain ⟨-, hchecked, s, hs, hfile, hcopy, hold⟩ := hallowed
      exact fun _ => ⟨s, hs, hfile, Or.inr ⟨hcopy, (h.unmarked i path hchecked).2, Or.inl hold⟩⟩
    | overLimit =>
      obtain ⟨-, hchecked, s, hs, rfl, hbefore⟩ := hallowed
      exact fun _ => ⟨s, (List.mem_filter.mp hs).1, rfl,
        Or.inr ⟨isCopy_of_mem_kept hs, (h.unmarked i _ hchecked).2, Or.inr hbefore⟩⟩
    | broken => nofun
    | withdrawn => nofun
  | budget => exact hallowed
  | _ => trivial

def Op.fills : Op → Bool
  | .openPart _ | .write .. => true
  | _ => false

/-- No partial download is opened or written that a prune, having found it old, is about to remove. -/
def Undisturbed (call : Step) (earlier : List Step) : Prop :=
  match call.op with
  | .openPart path | .write path _ => ∀ i, ∀ s ∈ (record i earlier).looking,
      abandoned (record i earlier).now s → s.file ≠ path
  | _ => True

private theorem undisturbed_of_fills {call : Step} (h : call.op.fills = false) : Undisturbed call trace := by
  unfold Undisturbed
  split
  next hop =>
    rw [hop] at h
    cases h
  next hop =>
    rw [hop] at h
    cases h
  · trivial

/-- Whether the call is a prune's removal of a partial download within its limit. -/
def removesYoung (call : Step) (earlier : List Step) : Bool :=
  match call.op with
  | .unlink .abandoned path => (call.before.files.get path).any fun stat =>
      (record call.thread earlier).now - stat.mtime ≤ partialMaxAgeS
  | _ => false

/-- What a prune found old, and has not removed yet, is as it found it. -/
def Sighted (w : World) (trace : List Step) : Prop :=
  ∀ i, ∀ s ∈ (record i trace).looking, abandoned (record i trace).now s →
    ∀ stat, w.files.get s.file = some stat → stat = s.stat

theorem Sighted.answered (h : Sighted w trace) (hallowed : (record i trace).Allows readStart o)
    (hanswer : World.answer budget w o choice = some (a, w'))
    (hundisturbed : Undisturbed ⟨i, request, o, a, w, w'⟩ trace) :
    Sighted w' (⟨i, request, o, a, w, w'⟩ :: trace) := by
  intro j s hs hold stat hget
  by_cases hij : i = j
  · subst hij
    rw [record_self] at hs
    obtain ⟨rfl, hfound⟩ := sight_answered hanswer hs
    exact Option.some.inj (hget.symm.trans hfound)
  · rw [record_of_ne hij] at hs hold
    have hcopy : isCopy s.file = false := by
      simp only [abandoned, Bool.and_eq_true] at hold
      exact isCopy_of_isPart hold.1
    have hfiles : w'.files.get s.file = w.files.get s.file ∨ w'.files.get s.file = none := by
      refine files_get hanswer ?_ ?_ ?_ ?_
      · rintro rfl
        exact hundisturbed j s hs hold rfl
      · rintro length rfl
        exact hundisturbed j s hs hold rfl
      · rintro rfl
        rw [show isCopy s.file = true from hallowed] at hcopy
        cases hcopy
      · rintro p rfl
        rw [show isCopy s.file = true from hallowed] at hcopy
        cases hcopy
    rcases hfiles with hsame | hnone
    · exact h j s hs hold stat (hsame ▸ hget)
    · rw [hnone] at hget
      cases hget

private theorem not_removesYoung (h : Sighted w trace) (hallowed : (record i trace).Allows readStart o) :
    removesYoung ⟨i, request, o, a, w, w'⟩ trace = false := by
  cases o with
  | unlink why path =>
    cases why with
    | abandoned =>
      obtain ⟨s, -, rfl, hold, hlooking⟩ := hallowed
      simp only [removesYoung, Option.any_eq_false, decide_eq_false_iff_not, not_le]
      intro stat hget
      rw [h i s hlooking hold stat hget]
      simp only [abandoned, Bool.and_eq_true, decide_eq_true_eq] at hold
      exact hold.2
    | _ => rfl
  | _ => rfl

/-- What a prune left for being in use was marked when it came to it. -/
def Truthful (trace : List Step) : Prop :=
  ∀ i, ∀ path ∈ (record i trace).spared, ∃ call ∈ trace, call.thread = i ∧ call.op = .isInUse path ∧
    call.before.marked path

theorem Truthful.answered (h : Truthful trace) (hanswer : World.answer budget w o choice = some (a, w')) :
    Truthful (⟨i, request, o, a, w, w'⟩ :: trace) := by
  intro j path hpath
  have hold (hpath : path ∈ (record j trace).spared) : ∃ call ∈ (⟨i, request, o, a, w, w'⟩ :: trace : List Step),
      call.thread = j ∧ call.op = .isInUse path ∧ call.before.marked path := by
    obtain ⟨call, hcall, hfound⟩ := h j path hpath
    exact ⟨call, List.mem_cons_of_mem _ hcall, hfound⟩
  by_cases hij : i = j
  · subst hij
    rw [record_self] at hpath
    rcases spared_answered hanswer hpath with hpath | ⟨rfl, hmarked, -⟩
    · exact hold hpath
    · exact ⟨_, List.mem_cons_self, rfl, rfl, hmarked⟩
  · rw [record_of_ne hij] at hpath
    exact hold hpath

private theorem right_run {requests : List Request} {events : List (Event Request Choice)}
    {c : Config Ans Exn World Request}
    (hrun : (system readStart budget).run ((system readStart budget).initial w requests) events = some c) :
    EachCall (Right readStart) c.trace ∧ Truthful c.trace ∧
      (EachCall Undisturbed c.trace → EachCall (fun call earlier => removesYoung call earlier = false) c.trace) := by
  have hkeeps := run_keeps follows
    (I := fun w trace => (Guarded w trace ∧ EachCall (Right readStart) trace ∧ Truthful trace) ∧
      (EachCall Undisturbed trace → Sighted w trace ∧
        EachCall (fun call earlier => removesYoung call earlier = false) trace))
    (A := fun _ _ => True) ?_ ?_ (fun _ _ _ _ => trivial) (kept_initial follows w requests) (fun _ _ _ => trivial) ?_ hrun
  · exact ⟨hkeeps.1.1.2.1, hkeeps.1.1.2.2, fun h => (hkeeps.1.2 h).2⟩
  · rintro w trace choice w' ⟨⟨hguarded, hright⟩, hyoung⟩ hw
    refine ⟨⟨hguarded.drift hw, hright⟩, fun h => ?_⟩
    obtain ⟨elapsed, time, -, rfl⟩ := drift_eq hw
    exact hyoung h
  · rintro w trace i request o a w' ⟨⟨hguarded, hright, htruthful⟩, hyoung⟩ - ha
    obtain ⟨choice, hanswer⟩ := ha.answer
    have hallowed := ha.allowed
    rw [standing_eq] at hallowed
    refine ⟨⟨hguarded.answered hallowed.1 hanswer, ⟨right_answered hguarded hallowed.1, hright⟩,
      htruthful.answered hanswer⟩, fun h => ?_⟩
    obtain ⟨hsighted, hnone⟩ := hyoung h.2
    exact ⟨hsighted.answered hallowed.1 hanswer h.1, not_removesYoung hsighted hallowed.1, hnone⟩
  · exact ⟨⟨⟨nofun, nofun, nofun⟩, trivial, nofun⟩, fun _ => ⟨nofun, trivial⟩⟩

private theorem iterdir_answered {files : List Path} (h : World.answer budget w .iterdir choice = some (files, w')) :
    w' = w ∧ files.Perm w.files.keys := by
  cases choice with
  | listing listed =>
    obtain ⟨hperm, heq⟩ := Option.ite_none_right_eq_some.mp h
    cases heq
    exact ⟨rfl, hperm⟩
  | _ => cases h

/-- The files there are were listed, were not removed, and are as they were seen. -/
def Knows (r : Record) (w : World) : Prop :=
  ∀ listed, r.listed = some listed → ∀ path stat, w.files.get path = some stat →
    path ∈ listed ∧ path ∉ r.removed ∧ (path ∈ r.looked → ⟨path, stat⟩ ∈ r.seen)

theorem Knows.answered (h : Knows r w) (halone : r.AllowsAlone o)
    (hanswer : World.answer budget w o choice = some (a, w')) : Knows (r.next o a) w' := by
  cases o with
  | iterdir =>
    obtain ⟨rfl, hperm⟩ := iterdir_answered hanswer
    intro listed hlisted path stat hget
    cases hlisted
    refine ⟨hperm.mem_iff.mpr ?_, List.not_mem_nil, fun hlooked => absurd hlooked List.not_mem_nil⟩
    by_contra hnot
    rw [Dict.get_eq_none.mpr hnot] at hget
    cases hget
  | stat p =>
    obtain ⟨hfound, rfl⟩ := Prod.mk.inj (Option.some.inj hanswer)
    intro listed hlisted path stat hget
    cases a with
    | none =>
      obtain ⟨hin, hleft, hseen⟩ := h listed hlisted path stat hget
      refine ⟨hin, hleft, fun hlooked => ?_⟩
      rcases List.mem_cons.mp hlooked with rfl | hlooked
      · rw [hfound] at hget
        cases hget
      · exact hseen hlooked
    | some found =>
      obtain ⟨hin, hleft, hseen⟩ := h listed hlisted path stat hget
      refine ⟨hin, hleft, fun hlooked => ?_⟩
      rcases List.mem_cons.mp hlooked with rfl | hlooked
      · rw [hfound] at hget
        cases hget
        exact List.mem_append_right _ (List.mem_singleton_self _)
      · exact List.mem_append_left _ (hseen hlooked)
  | unlink why p =>
    cases hanswer
    intro listed hlisted path stat hget
    have hpruned : r.next (.unlink why p) (w.files.get p).isSome =
        { r with removed := p :: r.removed, looking := none, checked := none } := by
      simp [Record.next, Record.hear, show why.pruned = true from halone, sight, notInUse]
    rw [hpruned] at hlisted ⊢
    have hne : p ≠ path := by
      rintro rfl
      rw [show (w.pop p).files.get p = none from Dict.get_pop_self] at hget
      cases hget
    have hget' : w.files.get path = some stat := (Dict.get_pop_of_ne hne).symm.trans hget
    obtain ⟨hin, hleft, hseen⟩ := h listed hlisted path stat hget'
    exact ⟨hin, fun hmem => (List.mem_cons.mp hmem).elim (fun heq => hne heq.symm) hleft, hseen⟩
  | isInUse p =>
    obtain ⟨-, rfl⟩ := Prod.mk.inj (Option.some.inj hanswer)
    cases a <;> exact h
  | setMark | touch | openPart | write | replace => cases halone
  | _ =>
    have hfiles := (answer_frame hanswer).files nofun nofun nofun nofun nofun
    intro listed hlisted path stat hget
    rw [hfiles] at hget
    exact h listed hlisted path stat hget

/-- What it left for being in use was marked, and still is as it was. -/
def Spares (w : World) (trace : List Step) : Prop :=
  ∀ path ∈ (record 0 trace).spared, ∃ call ∈ trace, call.op = .isInUse path ∧ call.before.marked path ∧
    w.inUse path = call.before.inUse path

theorem Spares.answered (h : Spares w trace) (halone : (record 0 trace).AllowsAlone o)
    (hanswer : World.answer budget w o choice = some (a, w')) : Spares w' (⟨0, request, o, a, w, w'⟩ :: trace) := by
  intro path hpath
  rw [record_self] at hpath
  rcases spared_answered hanswer hpath with hold | ⟨rfl, hmarked, rfl⟩
  · obtain ⟨call, hcall, hop, hmarked, hinUse⟩ := h path hold
    refine ⟨call, List.mem_cons_of_mem _ hcall, hop, hmarked, ?_⟩
    rw [(answer_frame hanswer).inUse (fun p upTo ho => ?_) fun now ho => ?_, hinUse]
    · subst ho
      exact halone
    · subst ho
      rw [show (record 0 trace).spared = [] from halone] at hold
      cases hold
  · exact ⟨_, List.mem_cons_self, rfl, hmarked, rfl⟩

/-- The copies there are that the prune did not take for expired. -/
def unexpired (readStart : String → Option ℚ) (r : Record) (w : World) : List Seen :=
  (w.files.map fun entry => ⟨entry.1, entry.2⟩).filter (keeps readStart r.now r.expired)

theorem unexpired_subset_left (h : Knows r w) (hscanned : r.Scanned readStart) :
    unexpired readStart r w ⊆ r.left readStart := by
  intro s hs
  obtain ⟨hs, hkeeps⟩ := List.mem_filter.mp hs
  obtain ⟨entry, hentry, rfl⟩ := List.mem_map.mp hs
  obtain ⟨listed, hlisted, hlooked⟩ := hscanned.listed
  obtain ⟨hin, hleft, hseen⟩ := h listed hlisted entry.1 entry.2 (Dict.get_of_mem w.nodup hentry)
  exact List.mem_filter.mpr ⟨List.mem_filter.mpr ⟨hseen (hlooked _ hin), hkeeps⟩, decide_eq_true hleft⟩

private theorem unexpired_nodup : (unexpired readStart r w).Nodup := by
  have hfiles : w.files.Nodup := List.Nodup.of_map Prod.fst w.nodup
  refine (hfiles.map fun x y h => ?_).filter _
  obtain ⟨hfile, hstat⟩ := Seen.mk.inj h
  exact Prod.ext hfile hstat

private theorem unexpired_le (h : Knows r w) (hscanned : r.Scanned readStart) :
    totalSize (unexpired readStart r w) ≤ totalSize (r.left readStart) := by
  obtain ⟨xs, hperm, hsub⟩ := List.subperm_of_subset unexpired_nodup (unexpired_subset_left h hscanned)
  rw [← totalSize_perm hperm]
  exact totalSize_sublist hsub

/-- The copies not expired fit, or each of them was in use, and is if its mark has not run out since. -/
def Fitting (readStart : String → Option ℚ) (budget : ℚ) (c : Config Ans Exn World Request) : Prop :=
  let copies := unexpired readStart (record 0 c.trace) c.world
  totalSize copies ≤ budget ∨ ∀ s ∈ copies, ∃ call ∈ c.trace, call.op = .isInUse s.file ∧
    call.before.marked s.file ∧ c.world.inUse s.file = call.before.inUse s.file

/-- A cleaning that has come to its end. -/
def cleanedUp : List (Thread Ans Exn Request) → Bool
  | [⟨.clean, .ret none⟩] => true
  | _ => false

private theorem cleanedUp_eq {threads : List (Thread Ans Exn Request)} (h : cleanedUp threads) :
    threads = [⟨.clean, .ret none⟩] := by
  unfold cleanedUp at h
  split at h
  · rfl
  · cases h

private theorem fitting_alone {events : List (Event Request Choice)} {c : Config Ans Exn World Request}
    (hrun : (system readStart budget).run ((system readStart budget).initial w [.clean]) events = some c)
    (halone : ∀ request, .arrive request ∉ events) (hended : cleanedUp c.threads) :
    Fitting readStart budget c := by
  have hkeeps := run_keeps follows
    (I := fun w trace => Knows (record 0 trace) w ∧ Spares w trace) (A := fun i request => i = 0 ∧ request = .clean)
    ?_ ?_ (fun request hin => absurd hin (halone request)) (kept_initial follows w [.clean]) ?_ ⟨nofun, nofun⟩ hrun
  · obtain ⟨⟨hknows, hspares⟩, hkept⟩ := hkeeps
    have hholds := hkept.holds 0 ⟨.clean, .ret none⟩ (by rw [cleanedUp_eq hended]; rfl)
    rw [standing_eq] at hholds
    obtain ⟨hscanned, hfits⟩ := hholds.2 rfl rfl
    refine hfits.imp (unexpired_le hknows hscanned).trans fun hleft s hs => ?_
    exact hspares s.file (hleft s (unexpired_subset_left hknows hscanned hs))
  · rintro w trace choice w' h hw
    obtain ⟨elapsed, time, -, rfl⟩ := drift_eq hw
    exact h
  · rintro w trace i request o a w' ⟨hknows, hspares⟩ ⟨rfl, rfl⟩ ha
    obtain ⟨choice, hanswer⟩ := ha.answer
    have hallowed := ha.allowed
    rw [standing_eq] at hallowed
    refine ⟨?_, hspares.answered (hallowed.2 rfl) hanswer⟩
    rw [record_self]
    exact hknows.answered (hallowed.2 rfl) hanswer
  · intro i t ht
    cases i with
    | zero =>
      cases ht
      exact ⟨rfl, rfl⟩
    | succ i => cases ht

/-- Whatever is asked for meanwhile. -/
theorem prune_leaves_played_and_fitting {requests : List Request} {events : List (Event Request Choice)}
    {c : Config Ans Exn World Request}
    (hrun : (system readStart budget).run ((system readStart budget).initial w requests) events = some c) :
    (EachCall (Right readStart) c.trace ∧ Truthful c.trace) ∧
      (EachCall Undisturbed c.trace → EachCall (fun call earlier => removesYoung call earlier = false) c.trace) ∧
      (requests = [.clean] → (∀ request, .arrive request ∉ events) → cleanedUp c.threads →
        Fitting readStart budget c) := by
  obtain ⟨hright, htruthful, hyoung⟩ := right_run hrun
  refine ⟨⟨hright, htruthful⟩, hyoung, ?_⟩
  rintro rfl halone hended
  exact fitting_alone hrun halone hended

/-- A copy still played, two played no longer, and what is left of a download. -/
def cache : World where
  files := [(⟨"b", ".mp4"⟩, ⟨4900, 20⟩), (⟨"a", ".mp4"⟩, ⟨4000, 30⟩), (⟨"c", ".part"⟩, ⟨0, 10⟩),
    (⟨"d", ".mp4"⟩, ⟨4950, 10⟩)]
  nodup := by decide
  inUse path := if path = ⟨"a", ".mp4"⟩ then some 950 else none
  guard := false
  parts := []
  monotonic := 100
  time := 5000

def answers (i : ℕ) (choices : List Choice) : List (Event Request Choice) := choices.map (.answer i)

def cleaning : List (Event Request Choice) :=
  answers 0 (List.replicate 6 .plain ++ [.listing [⟨"c", ".part"⟩, ⟨"a", ".mp4"⟩, ⟨"b", ".mp4"⟩, ⟨"d", ".mp4"⟩]] ++
    List.replicate 17 .plain)

theorem cleaning_leaves_the_played : ∃ c, (system (fun _ => none) 5).run
    ((system (fun _ => none) 5).initial cache [.clean]) cleaning = some c ∧
      c.world.files.keys = [⟨"a", ".mp4"⟩] ∧ (EachCall (Right fun _ => none) c.trace ∧ Truthful c.trace) ∧
      EachCall (fun call earlier => removesYoung call earlier = false) c.trace ∧ Fitting (fun _ => none) 5 c := by
  obtain ⟨c, hrun, hkeys, hended, hopens⟩ : ∃ c, (system (fun _ => none) 5).run
      ((system (fun _ => none) 5).initial cache [.clean]) cleaning = some c ∧
        c.world.files.keys = [⟨"a", ".mp4"⟩] ∧ cleanedUp c.threads ∧
        EachCall (fun call _ => call.op.fills = false) c.trace :=
    System.exists_run _ (by decide +kernel) (by decide +kernel)
  obtain ⟨hright, hyoung, hfitting⟩ := prune_leaves_played_and_fitting hrun
  refine ⟨c, hrun, hkeys, hright, hyoung ?_, hfitting rfl ?_ hended⟩
  · exact eachCall_mono (fun _ _ => undisturbed_of_fills) hopens
  · simp [cleaning, answers]

/-- What is left of a download that stopped 5000 s ago. -/
def leftover : World where
  files := [(⟨"a", ".part"⟩, ⟨0, 10⟩)]
  nodup := by decide
  inUse _ := none
  guard := false
  parts := []
  monotonic := 100
  time := 5000

/-- A prune finds it, a request removes it and begins to fetch the part anew, and the prune removes that. -/
def fetchedAnew : List (Event Request Choice) :=
  [.arrive .clean, .arrive (.replay "a")] ++
    answers 0 (List.replicate 6 .plain ++ [.listing [⟨"a", ".part"⟩], .plain]) ++
    answers 1 ([.plain, .allowed true] ++ List.replicate 11 .plain ++ [.listing [⟨"a", ".part"⟩], .plain, .plain, .plain,
      .recording (some ([5], .whole)), .plain]) ++
    answers 0 [.plain]

theorem young_part_removed : ¬∀ (readStart : String → Option ℚ) (budget : ℚ) (w : World) (requests : List Request)
    (events : List (Event Request Choice)) (c : Config Ans Exn World Request),
    (system readStart budget).run ((system readStart budget).initial w requests) events = some c →
    EachCall (fun call earlier => removesYoung call earlier = false) c.trace := by
  intro h
  obtain ⟨c, hrun, hyoung⟩ : ∃ c, (system (fun _ => none) 5).run ((system (fun _ => none) 5).initial leftover [])
      fetchedAnew = some c ∧ ¬EachCall (fun call earlier => removesYoung call earlier = false) c.trace :=
    System.exists_run _ (by decide +kernel) (by decide +kernel)
  exact hyoung (h _ _ _ _ _ _ hrun)

end Kanat.PruneCache
