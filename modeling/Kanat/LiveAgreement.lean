import Kanat.ListUpdates
import Kanat.LiveSession

/-! # What the window shows agrees with the backend

Until a refetch due to come has read the database, nothing is known of what the window shows. When none
is due, it shows rows as they are stored, and the row it lacks is about to be published to it. -/
namespace Kanat.LiveSession
open Bullets ListUpdates

variable {Key Seen : Type} {bullets : List (BulletHoleInSession Seen)}
  {bullet b : BulletHoleInSession Seen}

theorem mem_upsertBullet :
    b ∈ upsertBullet bullets bullet ↔ b = bullet ∨ b ∈ bullets ∧ b.id ≠ bullet.id := by
  simp only [upsertBullet, List.mem_insertionSort, List.mem_append, List.mem_filter, List.mem_singleton,
    decide_eq_true_eq]
  exact or_comm

private theorem nodup_upsertBullet (h : (bullets.map (·.id)).Nodup) :
    ((upsertBullet bullets bullet).map (·.id)).Nodup := by
  have hperm := (List.perm_insertionSort (·.rank ≤ ·.rank)
    (bullets.filter (·.id ≠ bullet.id) ++ [bullet])).map (·.id)
  refine hperm.nodup_iff.mpr ?_
  rw [List.map_append]
  refine List.Nodup.append (h.sublist (List.filter_sublist.map _)) (List.nodup_singleton _) ?_
  intro i hi hb
  obtain ⟨c, hc, rfl⟩ := List.mem_map.mp hi
  have hne := (List.mem_filter.mp hc).2
  rw [List.mem_singleton.mp hb] at hne
  simp at hne

/-- The window refetches the Session after it, whatever it is doing. -/
def LiveEvent.Refetches : LiveEvent Seen → Prop
  | .bulletCreated _ => False
  | .bulletDeleted _ | .other => True

def Pending.Refetches : Pending Seen → Prop
  | .stored _ => False
  | .publishing event => event.Refetches

namespace World
variable (sessionId : Uuid) (w : World Key Seen)

/-- A refetch that has not read the database yet is under way or will be. -/
def Due : Prop :=
  w.fetch = .unread ∨ w.retry = true ∨ (∃ e ∈ w.queue, e.Refetches) ∨ ∃ p ∈ w.pending, p.Refetches

/-- What the window shows once the fetch in flight has answered. -/
def shown : List (BulletHoleInSession Seen) :=
  match w.fetch with
  | .read bullets => bullets
  | _ => w.data

/-- A publication of the Bullet Hole is still to be applied. -/
def Awaits (bulletId : Uuid) : Prop :=
  (∃ b, .bulletCreated b ∈ w.queue ∧ b.id = bulletId) ∨ .stored bulletId ∈ w.pending ∨
    ∃ b, .publishing (.bulletCreated b) ∈ w.pending ∧ b.id = bulletId

structure InStep : Prop where
  sound : ∀ b ∈ w.shown, b ∈ w.stored sessionId
  complete : ∀ b ∈ w.stored sessionId, b ∈ w.shown ∨ w.Awaits b.id
  distinct : (w.shown.map (·.id)).Nodup

structure Inv : Prop where
  ids : (w.db.bulletHoles.map (·.id)).Nodup
  inStep : ¬ w.Due → w.InStep sessionId

/-- A created Bullet Hole the window applies is stored as the event has it, not deleted and with that
rank, or a refetch comes after it: one in flight is restarted, or one is due. -/
def Shows : Act Key Seen → Prop
  | .deliver => ∀ bullet ∈ w.queue.head?.bind LiveEvent.created,
      bullet ∈ w.stored sessionId ∨ w.fetch.isFetching ∨ w.Due
  | _ => True

abbrev EveryStepShows [DecidableEq Key] (w : World Key Seen) (acts : List (Act Key Seen)) : Prop :=
  ConditionalRuns.EachTaken (step sessionId) (Shows sessionId) w acts

variable {sessionId} {w} {w' : World Key Seen} {i : Uuid}

theorem nodup_stored (h : (w.db.bulletHoles.map (·.id)).Nodup) :
    ((w.stored sessionId).map (·.id)).Nodup := by
  rw [stored, List.map_map]
  exact h.sublist (List.filter_sublist.map _)

private theorem stored_unique (h : (w.db.bulletHoles.map (·.id)).Nodup) {b c : BulletHoleInSession Seen}
    (hb : b ∈ w.stored sessionId) (hc : c ∈ w.stored sessionId) (hid : b.id = c.id) : b = c :=
  List.inj_on_of_nodup_map (nodup_stored h) hb hc hid

/-- What the window shows is the same, and every row it did not have to know of is announced. -/
theorem InStep.of_shown_eq (h : w.InStep sessionId) (hshown : w'.shown = w.shown)
    (hstored : ∀ b ∈ w.stored sessionId, b ∈ w'.stored sessionId)
    (hnew : ∀ b ∈ w'.stored sessionId, b ∈ w.stored sessionId ∨ w'.Awaits b.id)
    (hawaits : ∀ i, w.Awaits i → w'.Awaits i) : w'.InStep sessionId := by
  refine ⟨fun b hb => hstored b (h.sound b (hshown ▸ hb)), fun b hb => ?_, hshown ▸ h.distinct⟩
  rcases hnew b hb with hold | hnew
  · rw [hshown]
    exact (h.complete b hold).imp_right (hawaits b.id)
  · exact .inr hnew

theorem Awaits.mono (h : w.Awaits i) (hqueue : w.queue ⊆ w'.queue) (hpending : w.pending ⊆ w'.pending) :
    w'.Awaits i := by
  rcases h with ⟨b, hb, hid⟩ | h | ⟨b, hb, hid⟩
  · exact .inl ⟨b, hqueue hb, hid⟩
  · exact .inr (.inl (hpending h))
  · exact .inr (.inr ⟨b, hpending hb, hid⟩)

theorem Due.mono (h : w.Due) (hfetch : w'.fetch = w.fetch) (hretry : w'.retry = w.retry) (hqueue : w.queue ⊆ w'.queue)
    (hpending : w.pending ⊆ w'.pending) : w'.Due := by
  rcases h with h | h | ⟨e, he, hr⟩ | ⟨p, hp, hr⟩
  · exact .inl (hfetch.trans h)
  · exact .inr (.inl (hretry.trans h))
  · exact .inr (.inr (.inl ⟨e, hqueue he, hr⟩))
  · exact .inr (.inr (.inr ⟨p, hpending hp, hr⟩))

theorem due_reconcile : w.reconcile.Due := .inl rfl

/-- A publication still pending, unless it is the one looked at. -/
theorem mem_eraseIdx_of_mem {p : Pending Seen} {n : ℕ} (h : p ∈ w.pending)
    (hp : w.pending[n]? ≠ some p) : p ∈ w.pending.eraseIdx n := by
  obtain ⟨k, hk⟩ := List.mem_iff_getElem?.mp h
  refine List.mem_eraseIdx_iff_getElem?.mpr ⟨k, ?_, hk⟩
  rintro rfl
  exact hp hk

section
variable [DecidableEq Key] {id : Uuid} {body : BulletCreate Key Seen} {bulletId : Uuid} {now n : ℕ}

omit [DecidableEq Key] in
theorem stored_add {hole : BulletHole Key Seen} {b : BulletHoleInSession Seen}
    (h : hole.activeIn sessionId) {pending : List (Pending Seen)} :
    b ∈ ({ w with db := { w.db with bulletHoles := w.db.bulletHoles ++ [hole] }, pending } :
      World Key Seen).stored sessionId ↔ b ∈ w.stored sessionId ∨ b = modelValidate hole := by
  simp [stored, Database.current, List.filter_append, h]

private theorem inv_reportBullet (h : w.Inv sessionId) (hid : id ∉ w.db.bulletHoles.map (·.id)) :
    (w.reportBullet sessionId id body).Inv sessionId := by
  rw [reportBullet]
  cases hcreate : createBullet id sessionId body w.db with
  | error e => exact h
  | ok r =>
    obtain ⟨hole, db⟩ := r
    dsimp only
    rcases createBullet_ok hcreate with ⟨rfl, hdup⟩ | ⟨-, rfl, rfl⟩
    · have hmem := (createBullet_mem hcreate).1
      have hne : hole.id ≠ id := fun he => hid (he ▸ List.mem_map_of_mem hmem)
      rw [if_neg hne]
      refine ⟨h.ids, fun hdue => ?_⟩
      have hin := h.inStep fun hd => hdue (hd.mono rfl rfl (List.subset_append_left _ _) fun _ hp => hp)
      exact hin.of_shown_eq rfl (fun _ hb => hb) (fun _ hb => .inl hb) fun _ ha =>
        ha.mono (List.subset_append_left _ _) fun _ hp => hp
    · rw [if_pos (show (newBullet id sessionId body w.db).id = id from rfl)]
      have hactive : (newBullet id sessionId body w.db).activeIn sessionId := by
        simp [newBullet, BulletHole.activeIn]
      refine ⟨?_, fun hdue => ?_⟩
      · rw [List.map_append]
        refine h.ids.append (List.nodup_singleton _) ?_
        rw [List.map_singleton, List.disjoint_singleton]
        exact hid
      · have hin := h.inStep fun hd => hdue (hd.mono rfl rfl (fun _ he => he) (List.subset_append_left _ _))
        refine hin.of_shown_eq rfl (fun _ hb => (stored_add hactive).mpr (.inl hb)) (fun b hb => ?_)
          fun _ ha => ha.mono (fun _ he => he) (List.subset_append_left _ _)
        rcases (stored_add hactive).mp hb with hb | rfl
        · exact .inl hb
        · exact .inr (.inr (.inl (List.mem_append_right _ (List.mem_singleton_self _))))

omit [DecidableEq Key] in
/-- A deletion is refetched, once it is published and applied. -/
theorem inv_deleteBullet (h : w.Inv sessionId) : (w.deleteBullet sessionId bulletId now).Inv sessionId := by
  rw [World.deleteBullet]
  cases hdelete : Bullets.deleteBullet sessionId bulletId now w.db with
  | error e => exact h
  | ok db =>
    obtain ⟨bullet, -, -, -, hrows⟩ := deleteBullet_ok hdelete
    refine ⟨?_, fun hdue => absurd ?_ hdue⟩
    · dsimp only
      rw [hrows, List.map_map]
      refine (List.map_congr_left fun b _ => ?_).symm ▸ h.ids
      dsimp only [Function.comp]
      split_ifs <;> rfl
    · exact .inr (.inr (.inr ⟨_, List.mem_append_right _ (List.mem_singleton_self _), trivial⟩))

private theorem inv_refresh (h : w.Inv sessionId) (hstep : w.step sessionId (.refresh n) = some w') :
    w'.Inv sessionId := by
  rw [step] at hstep
  split at hstep
  · next i hn =>
    obtain ⟨b, hb, rfl⟩ := Option.map_eq_some_iff.mp hstep
    have hbi : b.id = i := by simpa using List.find?_some hb
    have hlt := (List.getElem?_eq_some_iff.mp hn).1
    have hset : ∀ {p q : Pending Seen}, p ∈ w.pending → p ≠ .stored i → p ∈ w.pending.set n q :=
      fun hp hne => mem_set_of_mem hp (fun he => hne (Option.some.inj (he.symm.trans hn))) _
    refine ⟨h.ids, fun hdue => ?_⟩
    have hin := h.inStep fun hd => hdue ?_
    · refine hin.of_shown_eq rfl (fun _ hb => hb) (fun _ hb => .inl hb) fun j hj => ?_
      rcases hj with hj | hj | ⟨c, hc, hid⟩
      · exact .inl hj
      · by_cases hij : j = i
        · exact .inr (.inr ⟨modelValidate b, List.mem_set hlt _, hbi.trans hij.symm⟩)
        · exact .inr (.inl (hset hj fun he => hij (Pending.stored.inj he)))
      · exact .inr (.inr ⟨c, hset hc (fun he => nomatch he), hid⟩)
    · rcases hd with hd | hd | hd | ⟨p, hp, hr⟩
      · exact .inl hd
      · exact .inr (.inl hd)
      · exact .inr (.inr (.inl hd))
      · refine .inr (.inr (.inr ⟨p, hset hp ?_, hr⟩))
        rintro rfl
        exact hr
  · cases hstep

theorem inv_publish (h : w.Inv sessionId) (hstep : w.step sessionId (.publish n) = some w') :
    w'.Inv sessionId := by
  rw [step] at hstep
  split at hstep
  · next event hn =>
    cases hstep
    have herase : ∀ {p : Pending Seen}, p ∈ w.pending → p ≠ .publishing event →
        p ∈ w.pending.eraseIdx n :=
      fun hp hne => mem_eraseIdx_of_mem hp fun he => hne (Option.some.inj (he.symm.trans hn))
    have hlast : event ∈ w.queue ++ [event] := List.mem_append_right _ (List.mem_singleton_self _)
    refine ⟨h.ids, fun hdue => ?_⟩
    have hin := h.inStep fun hd => hdue ?_
    · refine hin.of_shown_eq rfl (fun _ hb => hb) (fun _ hb => .inl hb) fun j hj => ?_
      rcases hj with ⟨c, hc, hid⟩ | hj | ⟨c, hc, hid⟩
      · exact .inl ⟨c, List.mem_append_left _ hc, hid⟩
      · exact .inr (.inl (herase hj fun he => nomatch he))
      · by_cases hce : LiveEvent.bulletCreated c = event
        · exact .inl ⟨c, hce ▸ hlast, hid⟩
        · exact .inr (.inr ⟨c, herase hc fun he => hce (Pending.publishing.inj he), hid⟩)
    · rcases hd with hd | hd | ⟨e, he, hr⟩ | ⟨p, hp, hr⟩
      · exact .inl hd
      · exact .inr (.inl hd)
      · exact .inr (.inr (.inl ⟨e, List.mem_append_left _ he, hr⟩))
      · by_cases hpe : p = .publishing event
        · subst hpe
          exact .inr (.inr (.inl ⟨event, hlast, hr⟩))
        · exact .inr (.inr (.inr ⟨p, herase hp hpe, hr⟩))
  · cases hstep

omit [DecidableEq Key] in
theorem onMessage_reconciles {event : LiveEvent Seen} {queue : List (LiveEvent Seen)}
    (h : event.created = none ∨ w.fetch.isFetching) : (w.onMessage event queue).Due := by
  rw [onMessage, if_pos (h.imp_left Option.isNone_iff_eq_none.mpr)]
  exact due_reconcile

omit [DecidableEq Key] in
theorem onMessage_applies {queue : List (LiveEvent Seen)} (h : w.fetch = .idle) :
    w.onMessage (.bulletCreated bullet) queue = { w with queue, data := upsertBullet w.data bullet } := by
  rw [onMessage, if_neg (by simp [LiveEvent.created, h, Fetch.isFetching])]
  rfl

private theorem inv_deliver (h : w.Inv sessionId) (hshows : w.Shows sessionId (.deliver : Act Key Seen))
    (hstep : w.step sessionId .deliver = some w') : w'.Inv sessionId := by
  rw [step] at hstep
  split at hstep
  · next event queue hqueue =>
    cases hstep
    have hids : ((w.onMessage event queue).db.bulletHoles.map (·.id)).Nodup := by
      rw [onMessage]
      split_ifs
      · exact h.ids
      · exact h.ids
    refine ⟨hids, fun hdue => ?_⟩
    have hfetch : w.fetch = .idle := by
      cases hfetch : w.fetch with
      | idle => rfl
      | unread => exact absurd (onMessage_reconciles (.inr (by rw [hfetch]; rfl))) hdue
      | read bullets => exact absurd (onMessage_reconciles (.inr (by rw [hfetch]; rfl))) hdue
    cases event with
    | bulletDeleted i => exact absurd (onMessage_reconciles (.inl rfl)) hdue
    | other => exact absurd (onMessage_reconciles (.inl rfl)) hdue
    | bulletCreated bullet =>
      rw [onMessage_applies hfetch] at hdue ⊢
      have hnot : ¬ w.Due := by
        refine fun hd => hdue ?_
        rcases hd with hd | hd | ⟨e, he, hr⟩ | hd
        · exact .inl hd
        · exact .inr (.inl hd)
        · rw [hqueue] at he
          rcases List.mem_cons.mp he with rfl | he
          · exact hr.elim
          · exact .inr (.inr (.inl ⟨e, he, hr⟩))
        · exact .inr (.inr (.inr hd))
      have hin := h.inStep hnot
      have hbullet : bullet ∈ w.stored sessionId := by
        rcases hshows bullet (by rw [hqueue]; rfl) with hb | hb | hb
        · exact hb
        · rw [hfetch] at hb
          cases hb
        · exact absurd hb hnot
      have hshown : w.shown = w.data := by rw [shown, hfetch]
      have hshown' : ({ w with queue, data := upsertBullet w.data bullet } : World Key Seen).shown =
          upsertBullet w.data bullet := by
        simp [shown, hfetch]
      refine ⟨fun b hb => ?_, fun b hb => ?_, ?_⟩
      · rw [hshown'] at hb
        rcases mem_upsertBullet.mp hb with rfl | ⟨hb, -⟩
        · exact hbullet
        · exact hin.sound b (hshown ▸ hb)
      · rw [hshown']
        by_cases hid : b.id = bullet.id
        · exact .inl (mem_upsertBullet.mpr (.inl (stored_unique h.ids hb hbullet hid)))
        · rcases hin.complete b hb with hb | ⟨c, hc, hcid⟩ | hb
          · exact .inl (mem_upsertBullet.mpr (.inr ⟨hshown ▸ hb, hid⟩))
          · rw [hqueue] at hc
            rcases List.mem_cons.mp hc with hc | hc
            · cases hc
              exact absurd hcid.symm hid
            · exact .inr (.inl ⟨c, hc, hcid⟩)
          · exact .inr (.inr hb)
      · rw [hshown']
        exact nodup_upsertBullet (hshown ▸ hin.distinct)
  · cases hstep

theorem inv_step {a : Act Key Seen} (h : w.Inv sessionId) (hshows : w.Shows sessionId a)
    (hstep : w.step sessionId a = some w') : w'.Inv sessionId := by
  cases a with
  | report id body =>
    rw [step] at hstep
    split_ifs at hstep with hid
    cases hstep
    exact inv_reportBullet h hid
  | delete bulletId now => cases hstep; exact inv_deleteBullet h
  | refresh n => exact inv_refresh h hstep
  | publish n => exact inv_publish h hstep
  | publishOther =>
    cases hstep
    exact ⟨h.ids, fun hdue =>
      absurd (.inr (.inr (.inl ⟨.other, List.mem_append_right _ (List.mem_singleton_self _), trivial⟩))) hdue⟩
  | deliver => exact inv_deliver h hshows hstep
  | opened => cases hstep; exact ⟨h.ids, fun hdue => absurd due_reconcile hdue⟩
  | read =>
    rw [step] at hstep
    split at hstep
    · cases hstep
      exact ⟨h.ids, fun _ => ⟨fun _ hb => hb, fun _ hb => .inl hb, nodup_stored h.ids⟩⟩
    · cases hstep
  | answer =>
    rw [step] at hstep
    split at hstep
    · next bullets hfetch =>
      cases hstep
      refine ⟨h.ids, fun hdue => ?_⟩
      have hin := h.inStep fun hd => hdue ?_
      · refine hin.of_shown_eq ?_ (fun _ hb => hb) (fun _ hb => .inl hb) fun _ hi => hi
        simp [shown, hfetch]
      · rcases hd with hd | hd
        · rw [hfetch] at hd
          cases hd
        · exact .inr hd
    · cases hstep
  | fail =>
    rw [step] at hstep
    split_ifs at hstep
    cases hstep
    exact ⟨h.ids, fun hdue => absurd (.inr (.inl rfl)) hdue⟩
  | retried =>
    rw [step] at hstep
    split_ifs at hstep
    cases hstep
    exact ⟨h.ids, fun hdue => absurd due_reconcile hdue⟩

theorem inv_run {acts : List (Act Key Seen)} (h : w.Inv sessionId)
    (hshows : w.EveryStepShows sessionId acts) (hrun : w.run sessionId acts = some w') :
    w'.Inv sessionId :=
  ConditionalRuns.runTaken_keeps (fun _ _ _ h hshows hstep => inv_step h hshows hstep) h hshows hrun

end

theorem Opened.inv (h : w.Opened) : w.Inv sessionId :=
  ⟨h.1, fun hdue => absurd (.inl h.2.2) hdue⟩

theorem Settled.not_due (h : w.Settled) : ¬ w.Due := by
  obtain ⟨hpending, hqueue, hfetch, hretry⟩ := h
  simp [Due, hpending, hqueue, hfetch, hretry]

theorem Settled.not_awaits (h : w.Settled) : ¬ w.Awaits i := by
  obtain ⟨hpending, hqueue, -, -⟩ := h
  simp [Awaits, hpending, hqueue]

private theorem perm_of_settled (h : w.Inv sessionId) (hsettled : w.Settled) : w.data.Perm (w.stored sessionId) := by
  have hin := h.inStep hsettled.not_due
  have hshown : w.shown = w.data := by rw [shown, hsettled.2.2.1]
  rw [← hshown, List.perm_ext_iff_of_nodup hin.distinct.of_map (nodup_stored h.ids).of_map]
  intro b
  refine ⟨hin.sound b, fun hb => ?_⟩
  exact (hin.complete b hb).resolve_right hsettled.not_awaits

section
variable [DecidableEq Key]

/-- An event that does not say what is stored, with no refetch to come, is what the window goes on showing. -/
theorem stale_of_not_shows (hshows : ¬ w.Shows sessionId (.deliver : Act Key Seen))
    (hstep : w.step sessionId .deliver = some w') :
    ¬ w'.Due ∧ w'.fetch = .idle ∧ ∃ b ∈ w'.data, b ∉ w'.stored sessionId := by
  rw [Shows] at hshows
  push Not at hshows
  obtain ⟨bullet, hhead, hstale, hfetching, hnot⟩ := hshows
  obtain ⟨event, hevent, hcreated⟩ := Option.bind_eq_some_iff.mp hhead
  obtain ⟨queue, hqueue⟩ := List.head?_eq_some_iff.mp hevent
  have hfetch : w.fetch = .idle := by
    cases hfetch : w.fetch with
    | idle => rfl
    | unread => rw [hfetch] at hfetching; exact absurd rfl hfetching
    | read bullets => rw [hfetch] at hfetching; exact absurd rfl hfetching
  cases event with
  | bulletDeleted i => cases hcreated
  | other => cases hcreated
  | bulletCreated c =>
    cases hcreated
    rw [step, hqueue] at hstep
    cases (hstep : some (w.onMessage _ queue) = some w')
    rw [onMessage_applies hfetch]
    refine ⟨fun hd => hnot ?_, hfetch, bullet, mem_upsertBullet.mpr (.inl rfl), hstale⟩
    rcases hd with hd | hd | ⟨e, he, hr⟩ | hd
    · exact .inl hd
    · exact .inr (.inl hd)
    · exact .inr (.inr (.inl ⟨e, hqueue ▸ List.mem_cons_of_mem _ he, hr⟩))
    · exact .inr (.inr (.inr hd))

end

/-- Once every event is applied and every refetch answered, the window shows the Session's Bullet Holes
that are not deleted, at their ranks. -/
theorem window_agrees [DecidableEq Key] {acts : List (Act Key Seen)} (h : w.Opened)
    (hshows : w.EveryStepShows sessionId acts) (hrun : w.run sessionId acts = some w')
    (hsettled : w'.Settled) : w'.data.Perm (w'.stored sessionId) :=
  perm_of_settled (inv_run h.inv hshows hrun) hsettled

instance : DecidablePred (LiveEvent.Refetches : LiveEvent Seen → Prop)
  | .bulletCreated _ => inferInstanceAs (Decidable False)
  | .bulletDeleted _ | .other => inferInstanceAs (Decidable True)

instance : DecidablePred (Pending.Refetches : Pending Seen → Prop)
  | .stored _ => inferInstanceAs (Decidable False)
  | .publishing event => inferInstanceAs (Decidable event.Refetches)

section
variable [DecidableEq Key] [DecidableEq Seen]

instance : Decidable w.Due := inferInstanceAs (Decidable (_ ∨ _ ∨ _ ∨ _))

instance : Decidable w.Opened := inferInstanceAs (Decidable (_ ∧ _ ∧ _))

instance : Decidable w.Settled := inferInstanceAs (Decidable (_ ∧ _ ∧ _ ∧ _))

instance (a : Act Key Seen) : Decidable (w.Shows sessionId a) := by
  unfold Shows
  split <;> infer_instance

end

def empty : World ℕ Unit where
  db := { status := fun _ => some .active, bulletHoles := [] }
  pending := []
  queue := []
  data := []
  fetch := .unread
  retry := false

/-- Reported, published, shown. -/
def reported (id key : ℕ) : List (Act ℕ Unit) :=
  [.report id ⟨.model, some key, ()⟩, .refresh 0, .publish 0, .deliver]

/-- Deleted, published, shown, confirmed with the backend. -/
def deleted (id : ℕ) : List (Act ℕ Unit) :=
  [.delete id 0, .publish 0, .deliver, .read, .answer]

/-- The first of two Bullet Holes is reported again, then deleted. -/
theorem window_agrees_reportedAgain :
    ∃ w, empty.run 0 ([.read, .answer] ++ reported 0 7 ++ reported 1 8 ++
      [.report 2 ⟨.model, some 7, ()⟩, .deliver] ++ deleted 0) = some w ∧ w.data.Perm (w.stored 0) := by
  obtain ⟨w, hw⟩ := Option.isSome_iff_exists.mp (show (empty.run 0 ([.read, .answer] ++ reported 0 7 ++
    reported 1 8 ++ [.report 2 ⟨.model, some 7, ()⟩, .deliver] ++ deleted 0)).isSome by decide)
  have hsettled : ∀ w ∈ empty.run 0 ([.read, .answer] ++ reported 0 7 ++ reported 1 8 ++
      [.report 2 ⟨.model, some 7, ()⟩, .deliver] ++ deleted 0), w.Settled := by decide
  exact ⟨w, hw, window_agrees (by decide) (by decide) hw (hsettled w hw)⟩

/-- Reported again after its deletion, the Bullet Hole is on the screen for good. -/
theorem deleted_reported_again_shown :
    empty.Opened ∧ ∃ w, empty.run 0 ([.read, .answer] ++ reported 0 7 ++ deleted 0 ++
      [.report 1 ⟨.model, some 7, ()⟩, .deliver]) = some w ∧ w.Settled ∧ ¬ w.data.Perm (w.stored 0) := by
  obtain ⟨w, hw⟩ := Option.isSome_iff_exists.mp (show (empty.run 0 ([.read, .answer] ++ reported 0 7 ++
    deleted 0 ++ [.report 1 ⟨.model, some 7, ()⟩, .deliver])).isSome by decide)
  have hw' : ∀ w ∈ empty.run 0 ([.read, .answer] ++ reported 0 7 ++ deleted 0 ++
      [.report 1 ⟨.model, some 7, ()⟩, .deliver]), w.Settled ∧ ¬ w.data.Perm (w.stored 0) := by
    decide
  exact ⟨by decide, w, hw, hw' w hw⟩

end World
end Kanat.LiveSession
