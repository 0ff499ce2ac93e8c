import Kanat.ConditionalRuns
import Kanat.RangeDeletions

/-! # Session tables belong to Ranges

A start makes no session table, a stop makes those of the Range that is current, and a deletion of a Range has to
take its tables along. -/
namespace Kanat.RangeService
open ResumptionPrograms ScheduledPrograms

variable {Id Bpf Row : Type} [DecidableEq Id] {w : World Id Bpf Row} {s : Schedule Id Bpf Row} {id : Id} {p : Pipe}

private theorem ids_replace (ranges : List (RangeEntity Id)) (entity : RangeEntity Id) :
    (replace ranges entity).map RangeEntity.id = ranges.map RangeEntity.id := by
  rw [replace, List.map_map]
  refine List.map_congr_left fun r _ => ?_
  by_cases h : r.id = entity.id
  · simp [h]
  · simp [h]

theorem ids_answer (s : Schedule Id Bpf Row) (w : World Id Bpf Row) {o : Op Id Bpf} (ho : ∀ entity, o ≠ .add entity) :
    (answer s w o).2.ranges.map RangeEntity.id = w.ranges.map RangeEntity.id := by
  cases o with
  | add entity => exact absurd rfl (ho entity)
  | update entity =>
    change (if s.executed .update then _ else _ : World Id Bpf Row).ranges.map _ = _
    split
    · exact ids_replace w.ranges entity
    · rfl
  | _ => rfl

private theorem mem_ids_answer {o : Op Id Bpf} (h : id ∈ w.ranges.map RangeEntity.id) :
    id ∈ (answer s w o).2.ranges.map RangeEntity.id := by
  by_cases ho : ∃ entity, o = .add entity
  · obtain ⟨entity, rfl⟩ := ho
    change id ∈ (if s.executed .add then _ else _ : World Id Bpf Row).ranges.map _
    split
    · rw [List.map_append]
      exact List.mem_append_left _ h
    · exact h
  · rwa [ids_answer s w fun entity he => ho ⟨entity, he⟩]

omit [DecidableEq Id] in
theorem owned_iff : w.Owned ↔ ∀ id p, w.tables.sessions id p ≠ none → id ∈ w.ranges.map RangeEntity.id :=
  forall₂_congr fun _ _ => by rw [List.mem_map]

/-- Only a session table's creation can leave one that nobody owns. -/
theorem owned_answer {o : Op Id Bpf} (ho : ∀ p id, o ≠ .createSessionTable p id) (h : w.Owned) : (answer s w o).2.Owned := by
  rw [owned_iff] at h ⊢
  intro id p hs
  refine mem_ids_answer (h id p ?_)
  rw [answer_tables, Tables.sessions_after] at hs
  · exact hs
  · intro he
    cases o with
    | createSessionTable q id' => exact ho q id' rfl
    | _ => cases he

omit [DecidableEq Id] in
private theorem watched_start (range : RangeDto Id Bpf) :
    Watched (fun o => ∀ p id, o ≠ .createSessionTable p id) (startRealtimeRangeAsync range) := by
  have hbegin (dto : RangeDto Id Bpf) (config : Bpf) :
      Watched (fun o => ∀ p id, o ≠ .createSessionTable p id) (beginRange dto config) := by
    refine watched_bind (watched_createRange dto (by simp) (by simp)) fun created => ?_
    refine watched_bind (watched_perform (by simp)) fun _ => watched_bind ?_ fun _ => watched_ret
    exact watched_startAsync config (by simp) (by simp)
  refine watched_bind (watched_bind (watched_perform (by simp)) fun _ => watched_ofExcept) fun validated => ?_
  split
  · exact watched_raise
  · refine watched_bind (watched_perform (by simp)) fun now => ?_
    exact watched_bind (watched_clears (by simp)) fun _ => hbegin _ _

omit [DecidableEq Id] in
theorem watched_stop : Watched (fun o => ∀ entity, o ≠ .add entity) (stopRealtimeRangeAsync : Program Id Bpf _) := by
  have hend : Watched (fun o => ∀ entity, o ≠ .add entity) (endCurrentRange : Program Id Bpf _) := by
    refine watched_bind (watched_perform (by simp)) fun current => ?_
    refine watched_bind (watched_stopAsync (by simp) (by simp)) fun _ => ?_
    refine watched_bind (watched_bind (watched_perform (by simp)) fun _ => watched_ofExcept) fun _ => ?_
    split
    · exact watched_ret
    · refine watched_bind ?_ fun _ => watched_ret
      refine watched_bind (watched_perform (by simp)) fun now => watched_bind (watched_perform (by simp)) fun _ => ?_
      refine watched_bind ?_ fun updated => ?_
      · refine watched_bind (watched_bind (watched_perform (by simp)) fun _ => watched_ofExcept) fun found => ?_
        split
        · exact watched_ret
        · exact watched_bind (watched_bind (watched_perform (by simp)) fun _ => watched_ofExcept) fun _ => watched_ret
      · split
        · exact watched_ret
        · exact watched_bind (watched_perform (by simp)) fun _ => watched_ret
  refine watched_bind hend fun stopped => ?_
  split
  · exact watched_ret
  · refine watched_bind (watched_copies _ (by simp)) fun _ => ?_
    exact watched_bind (watched_clears (by simp)) fun _ => watched_ret

theorem owned_start (range : RangeDto Id Bpf) (h : w.Owned) : (run (answer s) (startRealtimeRangeAsync range) w).2.Owned :=
  run_watched (fun _ _ => owned_answer) (watched_start range) h

private theorem ids_stop (s : Schedule Id Bpf Row) (w : World Id Bpf Row) :
    (run (answer s) stopRealtimeRangeAsync w).2.ranges.map RangeEntity.id = w.ranges.map RangeEntity.id :=
  run_watched (I := fun w' => w'.ranges.map RangeEntity.id = w.ranges.map RangeEntity.id)
    (fun w' _ ho h => (ids_answer s w' ho).trans h) watched_stop rfl

/-- A stop that comes to the tables makes those it copies. -/
theorem sessions_stopped (id' : Id) :
    (w.tables.afterAll s (stopSteps s w id)).sessions id' p ≠ none ↔
      w.tables.sessions id' p ≠ none ∨ id' = id ∧ copies s w id p := by
  by_cases hid : id' = id
  · subst hid
    rw [sessions_stop]
    split
    next h => simp [h]
    next h => simp [h]
  · have hmem : .createSessionTable p id' ∉ stopSteps s w id := by
      intro hm
      rw [stopSteps, List.mem_append, List.mem_append] at hm
      rcases hm with (hm | hm) | hm
      · exact Bool.false_ne_true (quiet_stepsToTables hm)
      · obtain ⟨q, -, hq⟩ := List.mem_map.mp hm
        cases hq
        exact hid rfl
      · obtain ⟨q, hq⟩ := clearAllPackets_of_mem_clearSteps hm
        cases hq
    rw [Tables.sessions_afterAll hmem]
    simp [hid]

/-- When the stop comes to the tables, the row of the Range they are made for is there, or none is made. -/
def StopsKnown (s : Schedule Id Bpf Row) (w : World Id Bpf Row) : Prop :=
  ∀ range ∈ w.currentRange, reachesTables s w range.id → (∃ r ∈ w.ranges, r.id = range.id) ∨ ∀ p, ¬copies s w range.id p

private theorem owned_stop_iff (h : w.Owned) : (run (answer s) stopRealtimeRangeAsync w).2.Owned ↔ StopsKnown s w := by
  have hids := ids_stop s w
  rcases stop_run (s := s) (w := w) with
    ⟨range, hrange, hreaches, stopped, w', hrun, -, htables⟩ | ⟨hreaches, r, w', hrun, -, ⟨steps, hq, htables⟩, -⟩
  · rw [hrun] at hids ⊢
    rw [owned_iff] at h ⊢
    rw [htables, hids]
    simp only [sessions_stopped]
    constructor
    · intro howned other hother _
      obtain rfl : other = range := Option.mem_unique hother hrange
      by_cases hr : other.id ∈ w.ranges.map RangeEntity.id
      · exact .inl (List.mem_map.mp hr)
      · exact .inr fun p hc => hr (howned other.id p (.inr ⟨rfl, hc⟩))
    · rintro hknown id p (hs | ⟨rfl, hc⟩)
      · exact h id p hs
      · rcases hknown range hrange hreaches with hr | hn
        · exact List.mem_map.mpr hr
        · exact absurd hc (hn p)
  · rw [hrun] at hids ⊢
    rw [owned_iff] at h ⊢
    have hsessions (id : Id) (p : Pipe) : w'.tables.sessions id p = w.tables.sessions id p := by
      rw [htables, Tables.sessions_afterAll]
      exact fun hm => Bool.false_ne_true (hq _ hm)
    rw [hids]
    simp only [hsessions]
    refine iff_of_true h fun range hrange hr => ?_
    rw [hreaches range hrange] at hr
    cases hr

section
variable {d : DeleteSchedule Id Row}

/-- The session table's deletion is answered as done. -/
def cleared (d : DeleteSchedule Id Row) (w : World Id Bpf Row) (id : Id) (p : Pipe) : Bool :=
  (w.tables.sessions id p).isSome && d.done (.truncateSession p id) && d.done (.dropSession p id)

def afterDelete (d : DeleteSchedule Id Row) (id : Id) (w : World Id Bpf Row) (p : Pipe) : World Id Bpf Row :=
  (run (answerDelete d) (deletePacketsByRangeAsync id p) w).2

/-- Everything but the session table of one Range and packet type is as it was, base tables apart. -/
def SameElsewhere (id : Id) (p : Pipe) (w w' : World Id Bpf Row) : Prop :=
  w'.ranges = w.ranges ∧ ∀ id' p', ¬(id' = id ∧ p' = p) → w'.tables.sessions id' p' = w.tables.sessions id' p'

omit [DecidableEq Id] in
theorem SameElsewhere.trans {w₁ w₂ w₃ : World Id Bpf Row} (h : SameElsewhere id p w₁ w₂) (h' : SameElsewhere id p w₂ w₃) :
    SameElsewhere id p w₁ w₃ :=
  ⟨h'.1.trans h.1, fun id' p' hne => (h'.2 id' p' hne).trans (h.2 id' p' hne)⟩

theorem sameElsewhere_setSession (w : World Id Bpf Row) (o : DeleteOp Id) (rows : Option (List Row)) :
    SameElsewhere id p w { w with tables := (w.tables.land (d.landing o)).setSession p id rows } :=
  ⟨rfl, fun _ _ hne => if_neg hne⟩

private theorem truncate_run (d : DeleteSchedule Id Row) (w : World Id Bpf Row) (id : Id) (p : Pipe) :
    SameElsewhere id p w (answerDelete d w (.truncateSession p id)).2 ∧
      ((answerDelete d w (.truncateSession p id)).2.tables.sessions id p = none ↔ w.tables.sessions id p = none) ∧
      ((answerDelete d w (.truncateSession p id)).1 = .ok () ↔
        (w.tables.sessions id p).isSome ∧ d.done (.truncateSession p id)) := by
  simp only [answerDelete]
  cases hs : w.tables.sessions id p with
  | none =>
    simp only [Tables.land, hs]
    exact ⟨⟨rfl, fun _ _ _ => rfl⟩, by simp, by simp⟩
  | some rows =>
    simp only [Tables.land, hs]
    refine ⟨?_, ?_, by simp [DeleteSchedule.told]⟩
    · split
      · exact sameElsewhere_setSession w _ _
      · exact ⟨rfl, fun _ _ _ => rfl⟩
    · split
      · simp [Tables.setSession]
      · simp [hs]

private theorem drop_run (d : DeleteSchedule Id Row) (w : World Id Bpf Row) (id : Id) (p : Pipe) :
    SameElsewhere id p w (answerDelete d w (.dropSession p id)).2 ∧
      ((answerDelete d w (.dropSession p id)).2.tables.sessions id p = none ↔
        w.tables.sessions id p = none ∨ d.executed (.dropSession p id)) ∧
      ((answerDelete d w (.dropSession p id)).1 = .ok () ↔ d.done (.dropSession p id)) := by
  simp only [answerDelete]
  refine ⟨?_, ?_, by simp [DeleteSchedule.told]⟩
  · split
    · exact sameElsewhere_setSession w _ _
    · exact ⟨rfl, fun _ _ _ => rfl⟩
  · split
    next he => simp [Tables.setSession, he]
    next he => simp [Tables.land, he]

theorem deletePackets_run (d : DeleteSchedule Id Row) (w : World Id Bpf Row) (id : Id) (p : Pipe) :
    SameElsewhere id p w (afterDelete d id w p) ∧
      ((afterDelete d id w p).tables.sessions id p = none ↔
        w.tables.sessions id p = none ∨ d.done (.truncateSession p id) ∧ d.executed (.dropSession p id)) ∧
      ((run (answerDelete d) (deletePacketsByRangeAsync id p) w).1 = .ok () ↔ cleared d w id p) := by
  obtain ⟨hsame, hnone, hok⟩ := truncate_run d w id p
  have hrun : run (answerDelete d) (deletePacketsByRangeAsync id p) w =
      match answerDelete d w (.truncateSession p id) with
      | (.ok _, w') => answerDelete d w' (.dropSession p id)
      | (.error e, w') => (.error e, w') := by
    have htruncate : run (answerDelete d) (performDelete (.truncateSession p id) >>= Prog.ofExcept) w =
        answerDelete d w (.truncateSession p id) := run_ofExcept
    have hdrop (w' : World Id Bpf Row) : run (answerDelete d) (performDelete (.dropSession p id) >>= Prog.ofExcept) w' =
        answerDelete d w' (.dropSession p id) := run_ofExcept
    rw [deletePacketsByRangeAsync, Prog.bind_eq, run_bind, htruncate]
    simp only [hdrop]
    generalize answerDelete d w (.truncateSession p id) = r
    obtain ⟨e | u, w'⟩ := r
    · rfl
    · rfl
  rw [afterDelete, hrun, cleared, Bool.and_eq_true, Bool.and_eq_true]
  generalize answerDelete d w (.truncateSession p id) = r at hsame hnone hok
  obtain ⟨r, w'⟩ := r
  cases r with
  | ok u =>
    obtain ⟨hsome, hdone⟩ := hok.mp rfl
    obtain ⟨hsame', hnone', hok'⟩ := drop_run d w' id p
    refine ⟨hsame.trans hsame', ?_, ?_⟩
    · rw [hnone', hnone]
      simp [hdone]
    · rw [hok']
      simp [hsome, hdone]
  | error e =>
    have hnot : ¬((w.tables.sessions id p).isSome ∧ d.done (.truncateSession p id)) := fun h => nomatch hok.mpr h
    refine ⟨hsame, ?_, iff_of_false (fun h => nomatch h) fun h => hnot h.1⟩
    rw [hnone]
    refine (or_iff_left_of_imp fun h => ?_).symm
    by_contra hs
    exact hnot ⟨Option.isSome_iff_ne_none.mpr hs, h.1⟩

/-- The loop over the packet types, each of which it comes to has its table gone or not by its own statements. -/
theorem sessions_foldl (d : DeleteSchedule Id Row) (id : Id) (ps : List Pipe) (hps : ps.Nodup) (w : World Id Bpf Row) :
    (ps.foldl (afterDelete d id) w).ranges = w.ranges ∧
      (∀ id' p', id' ≠ id → (ps.foldl (afterDelete d id) w).tables.sessions id' p' = w.tables.sessions id' p') ∧
      ∀ p, (ps.foldl (afterDelete d id) w).tables.sessions id p = none ↔ w.tables.sessions id p = none ∨
        p ∈ ps ∧ d.done (.truncateSession p id) ∧ d.executed (.dropSession p id) := by
  induction ps generalizing w with
  | nil => simp
  | cons q ps ih =>
    obtain ⟨hq, hps⟩ := List.nodup_cons.mp hps
    obtain ⟨⟨hranges, hsame⟩, hnone, -⟩ := deletePackets_run d w id q
    obtain ⟨hranges', hsame', hnone'⟩ := ih hps (afterDelete d id w q)
    rw [List.foldl_cons]
    refine ⟨hranges'.trans hranges, fun id' p' hne => ?_, fun p => ?_⟩
    · exact (hsame' id' p' hne).trans (hsame id' p' fun h => hne h.1)
    · rw [hnone', List.mem_cons]
      by_cases hp : p = q
      · subst hp
        rw [hnone]
        simp [hq]
      · rw [hsame id p fun h => hp h.2]
        simp [hp]

/-- A delete request takes every session table of its Range along. -/
def TakesTables (d : DeleteSchedule Id Row) (w : World Id Bpf Row) (id : Id) : Prop :=
  ∀ p, w.tables.sessions id p = none ∨
    p ∈ attempted (cleared d w id) pipes ∧ d.done (.truncateSession p id) ∧ d.executed (.dropSession p id)

private theorem deleteTables_run (d : DeleteSchedule Id Row) (w : World Id Bpf Row) (id : Id) :
    ∃ w', run (answerDelete d) (tryCatch (pipes.forM (deletePacketsByRangeAsync id)) fun _ => pure ()) w = (.ok (), w') ∧
      w'.ranges = w.ranges ∧ (∀ id' p', id' ≠ id → w'.tables.sessions id' p' = w.tables.sessions id' p') ∧
      ((∀ p, w'.tables.sessions id p = none) ↔ TakesTables d w id) ∧
      ∀ p, w'.tables.sessions id p ≠ none → w.tables.sessions id p ≠ none := by
  have hrounds : ∀ (p : Pipe) (ps : List Pipe) (w' : World Id Bpf Row),
      ((p :: ps).Nodup ∧ ∀ q ∈ p :: ps, w'.tables.sessions id q = w.tables.sessions id q) →
        (run (answerDelete d) (deletePacketsByRangeAsync id p) w').2 = afterDelete d id w' p ∧
          ((run (answerDelete d) (deletePacketsByRangeAsync id p) w').1 = .ok () ↔ cleared d w id p) ∧
          (ps.Nodup ∧ ∀ q ∈ ps, (afterDelete d id w' p).tables.sessions id q = w.tables.sessions id q) := by
    rintro p ps w' ⟨hn, hsame⟩
    obtain ⟨hp, hn⟩ := List.nodup_cons.mp hn
    obtain ⟨⟨-, hother⟩, -, hok⟩ := deletePackets_run d w' id p
    refine ⟨rfl, ?_, hn, fun q hq => ?_⟩
    · rw [hok, cleared, cleared, hsame p List.mem_cons_self]
    · rw [hother id q fun h => hp (h.2 ▸ hq), hsame q (List.mem_cons_of_mem _ hq)]
  have hrun : run (answerDelete d) (tryCatch (pipes.forM (deletePacketsByRangeAsync id)) fun _ => pure ()) w =
      (.ok (), (attempted (cleared d w id) pipes).foldl (afterDelete d id) w) :=
    run_block (fun ps w' => ps.Nodup ∧ ∀ q ∈ ps, w'.tables.sessions id q = w.tables.sessions id q) hrounds
      ⟨by decide, fun _ _ => rfl⟩
  obtain ⟨hranges, hsame, hnone⟩ := sessions_foldl d id (attempted (cleared d w id) pipes)
    (attempted_sublist.nodup (by decide)) w
  refine ⟨_, hrun, hranges, hsame, ?_, fun p hs hn => hs ((hnone p).mpr (.inl hn))⟩
  exact forall_congr' hnone

/-- What the deletion of a Range's row leaves, its tables gone or not. -/
theorem owned_delete {w' : World Id Bpf Row} (h : w.Owned) (hranges : w'.ranges = w.ranges)
    (hsame : ∀ id' p', id' ≠ id → w'.tables.sessions id' p' = w.tables.sessions id' p')
    (hfewer : ∀ p, w'.tables.sessions id p ≠ none → w.tables.sessions id p ≠ none) :
    (answerDelete d w' (.delete id)).2.Owned ↔ (d.executed (.delete id) → ∀ p, w'.tables.sessions id p = none) := by
  have hless (id' : Id) (p : Pipe) (hs : w'.tables.sessions id' p ≠ none) : w.tables.sessions id' p ≠ none := by
    by_cases hid : id' = id
    · subst hid
      exact hfewer p hs
    · rwa [← hsame id' p hid]
  simp only [answerDelete]
  split
  next he =>
    constructor
    · intro howned _ p
      by_contra hs
      obtain ⟨r, hr, hid⟩ := howned id p hs
      exact of_decide_eq_true (List.mem_filter.mp hr).2 hid
    · intro hgone id' p hs
      have hid : id' ≠ id := by
        rintro rfl
        exact hs (hgone he p)
      obtain ⟨r, hr, hr'⟩ := h id' p (hless id' p hs)
      refine ⟨r, List.mem_filter.mpr ⟨?_, decide_eq_true (hr'.trans_ne hid)⟩, hr'⟩
      exact hranges ▸ hr
  next he =>
    refine iff_of_true (fun id' p hs => ?_) fun h => absurd h he
    obtain ⟨r, hr, hr'⟩ := h id' p (hless id' p hs)
    exact ⟨r, hranges ▸ hr, hr'⟩

private theorem owned_deleteRangeById (h : w.Owned) : (run (answerDelete d) (deleteRangeByIdAsync id) w).2.Owned ↔
    (d.done (.getById id) → (foundRange w id).isSome → d.executed (.delete id) → TakesTables d w id) := by
  let w₀ : World Id Bpf Row := { w with tables := w.tables.land (d.landing (.getById id)) }
  have hfirst : run (answerDelete d) (performDelete (.getById id) >>= Prog.ofExcept) w =
      (d.told (.getById id) (foundRange w id), w₀) := run_ofExcept
  rw [deleteRangeByIdAsync, Prog.bind_eq, run_bind, hfirst, DeleteSchedule.told]
  cases hdone : d.done (.getById id) with
  | false => exact iff_of_true h fun hd => nomatch hd
  | true =>
    cases hfound : foundRange w id with
    | none => exact iff_of_true h fun _ hs => nomatch hs
    | some entity =>
      obtain ⟨w', hrun, hranges, hsame, hgone, hfewer⟩ := deleteTables_run d w₀ id
      have hlast : run (answerDelete d) (performDelete (.delete id) >>= Prog.ofExcept) w' =
          answerDelete d w' (.delete id) := run_ofExcept
      change (run (answerDelete d) ((tryCatch (pipes.forM (deletePacketsByRangeAsync id)) fun _ => pure ()).bind fun _ =>
        performDelete (.delete id) >>= Prog.ofExcept) w₀).2.Owned ↔ _
      rw [run_bind, hrun]
      change (run (answerDelete d) (performDelete (.delete id) >>= Prog.ofExcept) w').2.Owned ↔ _
      have hw₀ : w₀.Owned := h
      rw [hlast, owned_delete hw₀ hranges hsame hfewer, hgone]
      simp only [Option.isSome_some, true_implies]
      exact Iff.rfl

/-- The rows a delete-all request comes to, the first exception ending it. -/
def deletedAll (d : DeleteSchedule Id Row) (ranges : List (RangeEntity Id)) : List (RangeEntity Id) :=
  attempted (fun r => d.done (.delete r.id)) ranges

/-- No Range it deletes has a session table. -/
def DeletesTableless (d : DeleteSchedule Id Row) (w : World Id Bpf Row) : Prop :=
  d.done .getAll → ∀ r ∈ deletedAll d w.ranges, d.executed (.delete r.id) → ∀ p, w.tables.sessions r.id p = none

/-- One row of a delete-all request. -/
def deleteEach (count : ℕ) (range : RangeEntity Id) : DeleteProgram Id ℕ := do
  let deleted ← performDelete (.delete range.id) >>= Prog.ofExcept
  pure (if deleted then count + 1 else count)

theorem deleteAll_run (d : DeleteSchedule Id Row) (ranges : List (RangeEntity Id)) (count : ℕ) (w : World Id Bpf Row) :
    (run (answerDelete d) (ranges.foldlM deleteEach count) w).2.tables.sessions = w.tables.sessions ∧
      ∀ r, r ∈ (run (answerDelete d) (ranges.foldlM deleteEach count) w).2.ranges ↔
        r ∈ w.ranges ∧ ∀ r' ∈ deletedAll d ranges, d.executed (.delete r'.id) → r.id ≠ r'.id := by
  induction ranges generalizing count w with
  | nil => exact ⟨rfl, fun r => by simp [deletedAll, attempted, List.foldlM]⟩
  | cons range ranges ih =>
    have hfirst : run (answerDelete d) (performDelete (.delete range.id) >>= Prog.ofExcept) w =
        answerDelete d w (.delete range.id) := run_ofExcept
    have hmem (r : RangeEntity Id) : r ∈ (answerDelete d w (.delete range.id)).2.ranges ↔
        r ∈ w.ranges ∧ (d.executed (.delete range.id) → r.id ≠ range.id) := by
      simp only [answerDelete]
      split
      next he => simp [he]
      next he => simp [he]
    have hsessions : (answerDelete d w (.delete range.id)).2.tables.sessions = w.tables.sessions := by
      simp only [answerDelete]
      split <;> rfl
    have htold : (answerDelete d w (.delete range.id)).1 = d.told (.delete range.id) (w.ranges.any fun r => r.id = range.id) := rfl
    rw [List.foldlM_cons, Prog.bind_eq, run_bind, deleteEach, Prog.bind_eq, run_bind, hfirst, deletedAll, attempted]
    generalize answerDelete d w (.delete range.id) = result at hmem hsessions htold
    obtain ⟨r, w'⟩ := result
    cases hdone : d.done (.delete range.id) with
    | true =>
      obtain rfl : r = .ok (w.ranges.any fun r => r.id = range.id) := htold.trans (if_pos hdone)
      obtain ⟨hs, hr⟩ := ih (if (w.ranges.any fun r => r.id = range.id) then count + 1 else count) w'
      refine ⟨hs.trans hsessions, fun r => (hr r).trans ?_⟩
      rw [hmem, if_pos rfl, List.forall_mem_cons, and_assoc]
      rfl
    | false =>
      obtain rfl : r = .error (.delete range.id) := htold.trans (if_neg (Bool.eq_false_iff.mp hdone))
      refine ⟨hsessions, fun r => (hmem r).trans ?_⟩
      rw [if_neg Bool.false_ne_true, List.forall_mem_singleton]

private theorem owned_deleteAll (h : w.Owned) :
    (run (answerDelete d) deleteAllRangesAsync w).2.Owned ↔ DeletesTableless d w := by
  let w₀ : World Id Bpf Row := { w with tables := w.tables.land (d.landing .getAll) }
  have hfirst : run (answerDelete d) (performDelete .getAll >>= Prog.ofExcept) w = (d.told .getAll w.ranges, w₀) :=
    run_ofExcept
  rw [deleteAllRangesAsync, Prog.bind_eq, run_bind, hfirst, DeleteSchedule.told, DeletesTableless]
  cases hdone : d.done .getAll with
  | false => exact iff_of_true h fun hd => nomatch hd
  | true =>
    obtain ⟨hsessions, hranges⟩ := deleteAll_run d w.ranges 0 w₀
    change (run (answerDelete d) (w.ranges.foldlM deleteEach 0) w₀).2.Owned ↔ _
    rw [World.Owned, hsessions]
    constructor
    · intro howned _ r' hr' he p
      by_contra hs
      obtain ⟨r, hr, hid⟩ := howned r'.id p hs
      exact ((hranges r).mp hr).2 r' hr' he hid
    · intro hgone id p hs
      obtain ⟨r, hr, rfl⟩ := h id p hs
      refine ⟨r, (hranges r).mpr ⟨hr, fun r' hr' he hid => ?_⟩, rfl⟩
      exact hs (hid ▸ hgone rfl r' hr' he p)

end

/-- The step leaves no session table without its Range. -/
def KeepsOwned (c : Service Id Bpf Row) : RangeEvent Id Bpf Row → Prop
  | .other (.stop s) => StopsKnown s c.world
  | .other _ => True
  | .deleteRangeById id d =>
      d.done (.getById id) → (foundRange c.world id).isSome → d.executed (.delete id) → TakesTables d c.world id
  | .deleteAllRanges d => DeletesTableless d c.world

private theorem owned_step (c : Service Id Bpf Row) (e : RangeEvent Id Bpf Row) (h : c.world.Owned) :
    (stepRange c e).world.Owned ↔ KeepsOwned c e := by
  cases e with
  | deleteRangeById id d => exact owned_deleteRangeById h
  | deleteAllRanges d => exact owned_deleteAll h
  | other e =>
    cases e with
    | start range s =>
      refine iff_of_true ?_ trivial
      have hw := owned_start (s := s) range h
      simp only [stepRange, Service.step]
      generalize run (answer s) (startRealtimeRangeAsync range) c.world = r at hw
      obtain ⟨r, w'⟩ := r
      cases r with
      | ok started => exact hw
      | error e => exact hw
    | stop s =>
      rw [KeepsOwned, ← owned_stop_iff h]
      simp only [stepRange, Service.step]
      generalize run (answer s) stopRealtimeRangeAsync c.world = r
      obtain ⟨r, w'⟩ := r
      rcases r with e | _ | stopped
      · exact Iff.rfl
      · exact Iff.rfl
      · exact Iff.rfl
    | land rows => exact iff_of_true h trivial

theorem session_tables_owned_iff (w : World Id Bpf Row) (h : w.Owned) (events : List (RangeEvent Id Bpf Row)) :
    (∀ n, (ConditionalRuns.run stepRange ⟨w, []⟩ (events.take n)).world.Owned) ↔
      ConditionalRuns.Each stepRange KeepsOwned ⟨w, []⟩ events :=
  ConditionalRuns.run_iff (fun _ => True) (fun c : Service Id Bpf Row => c.world.Owned) (fun _ _ _ => trivial)
    (fun c e _ hc => owned_step c e hc) trivial h

/-- Every statement of a delete request is carried out. -/
def deletesPlainly : DeleteSchedule ℕ ℕ := ⟨fun _ => .done, fun _ _ => []⟩

/-- Range 1 is started, a motion packet of it lands, it is stopped, and all Ranges are deleted. -/
def allDeleted : List (RangeEvent ℕ Unit ℕ) :=
  [.other (.start asked (plainly 1 some)), .other (.land fun p => if p = .motion then [7] else []),
    .other (.stop (plainly 0 some)), .deleteAllRanges deletesPlainly]

theorem session_tables_owned_iff_allDeleted :
    ¬ConditionalRuns.Each stepRange KeepsOwned ⟨empty, []⟩ allDeleted := by
  rw [← session_tables_owned_iff empty fun _ _ h => absurd rfl h]
  intro h
  obtain ⟨r, hr, -⟩ := h 4 1 .motion (by decide)
  have hnone : (ConditionalRuns.run stepRange ⟨empty, []⟩ (allDeleted.take 4)).world.ranges = [] := by rfl
  rw [hnone] at hr
  cases hr

theorem deleteAll_leaves_tables :
    (ConditionalRuns.run stepRange ⟨empty, []⟩ allDeleted).world.ranges = [] ∧
      (ConditionalRuns.run stepRange ⟨empty, []⟩ allDeleted).world.tables.sessions 1 .motion = some [7] :=
  ⟨rfl, rfl⟩

end Kanat.RangeService
