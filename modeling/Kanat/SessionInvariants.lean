import Mathlib.Data.List.Pairwise
import Kanat.Sessions

/-! # What holds of the Sessions whatever is requested

A Session's intervals are closed ones in time order, and an open one after them while it is active with
recording on. -/
namespace Kanat.Sessions
open Bullets

/-- The one ends before the other starts, or as it does. -/
def Before (i j : RecordingInterval) : Prop := ∃ e, i.endedAt = some e ∧ e ≤ j.startedAt

def Apart (i j : RecordingInterval) : Prop := Before i j ∨ Before j i

/-- Intervals in time order, all closed by `c`. -/
structure Closed (c : ℤ) (is : List RecordingInterval) : Prop where
  closed : ∀ i ∈ is, ∃ e, i.endedAt = some e ∧ i.startedAt ≤ e ∧ e ≤ c
  inOrder : is.Pairwise Before

/-- The intervals of a Session that is recording, or not, at `c`. -/
inductive Kept (c : ℤ) : Bool → List RecordingInterval → Prop where
  | closed {is} (h : Closed c is) : Kept c false is
  | recording {is start} (h : Closed start is) (hc : start ≤ c) : Kept c true (is ++ [⟨start, none⟩])

variable {c now : ℤ} {is : List RecordingInterval} {recording : Bool} {session s : Session} {db db' : Database}
  {id : Uuid}

theorem Closed.later (h : Closed c is) (hc : c ≤ now) : Closed now is where
  closed i hi := by
    obtain ⟨e, he, hs, hec⟩ := h.closed i hi
    exact ⟨e, he, hs, hec.trans hc⟩
  inOrder := h.inOrder

theorem Kept.later (h : Kept c recording is) (hc : c ≤ now) : Kept now recording is := by
  cases h with
  | closed h => exact .closed (h.later hc)
  | recording h hs => exact .recording h (hs.trans hc)

theorem Closed.not_open (h : Closed c is) : ∀ i ∈ is, i.isOpen = false := by
  intro i hi
  obtain ⟨e, he, -, -⟩ := h.closed i hi
  simp [RecordingInterval.isOpen, he]

theorem Closed.find?_eq_none (h : Closed c is) : is.find? RecordingInterval.isOpen = none := by
  rw [List.find?_eq_none]
  intro i hi
  simp [h.not_open i hi]

theorem Closed.concat (h : Closed c is) {start e : ℤ} (hc : c ≤ start) (he : start ≤ e) :
    Closed e (is ++ [⟨start, some e⟩]) where
  closed i hi := by
    rcases List.mem_append.mp hi with hi | hi
    · exact (h.later (hc.trans he)).closed i hi
    · rw [List.mem_singleton.mp hi]
      exact ⟨e, rfl, he, le_refl e⟩
  inOrder := by
    rw [List.pairwise_append]
    refine ⟨h.inOrder, List.pairwise_singleton _ _, fun i hi j hj => ?_⟩
    obtain ⟨e', he', -, hec⟩ := h.closed i hi
    rw [List.mem_singleton.mp hj]
    exact ⟨e', he', hec.trans hc⟩

private theorem closeInterval_concat (h : ∀ i ∈ is, i.isOpen = false) {start e : ℤ} :
    closeInterval e (is ++ [⟨start, none⟩]) = is ++ [⟨start, some e⟩] := by
  induction is with
  | nil => rfl
  | cons i is ih =>
    rw [List.cons_append, closeInterval, if_neg (by simp [h i List.mem_cons_self])]
    rw [ih fun j hj => h j (List.mem_cons_of_mem _ hj)]
    rfl

/-- An interval kept, the open one closed, or one opened now. -/
def FromOld (now : ℤ) (session : Session) (i : RecordingInterval) : Prop :=
  i ∈ session.recordingIntervals ∨ (∃ j ∈ session.recordingIntervals, j.isOpen ∧ i.startedAt = j.startedAt) ∨
    i = ⟨now, none⟩ ∧ session.record = true ∧ session.isActive = true

/-- An interval as it is later. -/
def Grown (c now : ℤ) (i j : RecordingInterval) : Prop :=
  j.startedAt = i.startedAt ∧ i.endedAt.getD c ≤ j.endedAt.getD now

theorem grown_self (hc : c ≤ now) (i : RecordingInterval) : Grown c now i i := by
  refine ⟨rfl, ?_⟩
  cases i.endedAt with
  | none => exact hc
  | some e => exact le_refl e

theorem followRecording_spec (h : Kept c recording session.recordingIntervals) (hnow : c ≤ now)
    (hended : recording = true → c ≤ session.endedAt.getD now ∧ session.endedAt.getD now ≤ now) :
    ∃ is, followRecording session now = { session with recordingIntervals := is } ∧
      Kept now (session.record && session.isActive) is ∧ (∀ i ∈ is, FromOld now session i) ∧
        ∀ i ∈ session.recordingIntervals, ∃ j ∈ is, Grown c now i j := by
  have hself : ∀ i ∈ session.recordingIntervals, ∃ j ∈ session.recordingIntervals, Grown c now i j :=
    fun i hi => ⟨i, hi, grown_self hnow i⟩
  generalize hold : session.recordingIntervals = old at h
  cases hrec : session.record && session.isActive with
  | true =>
    cases h with
    | closed h =>
      refine ⟨old ++ [⟨now, none⟩], ?_, .recording (h.later hnow) (le_refl now), fun i hi => ?_,
        fun i hi => ⟨i, List.mem_append_left _ hi, grown_self hnow i⟩⟩
      · simp only [followRecording, hold, h.find?_eq_none, hrec, if_true]
      · rcases List.mem_append.mp hi with hi | hi
        · exact .inl (hold ▸ hi)
        · exact .inr (.inr ⟨List.mem_singleton.mp hi, by simpa using hrec⟩)
    | @recording is start h hs =>
      refine ⟨session.recordingIntervals, show followRecording session now = session from ?_,
        hold ▸ .recording h (hs.trans hnow), fun i hi => .inl hi, hold ▸ hself⟩
      simp [followRecording, hold, List.find?_append, h.find?_eq_none, hrec, RecordingInterval.isOpen]
  | false =>
    cases h with
    | closed h =>
      refine ⟨session.recordingIntervals, show followRecording session now = session from ?_,
        hold ▸ .closed (h.later hnow), fun i hi => .inl hi, hold ▸ hself⟩
      simp [followRecording, hold, h.find?_eq_none, hrec]
    | @recording is start h hs =>
      obtain ⟨hc, hle⟩ := hended rfl
      refine ⟨is ++ [⟨start, some (session.endedAt.getD now)⟩], ?_,
        .closed ((h.concat (le_refl start) (hs.trans hc)).later hle), fun i hi => ?_, fun i hi => ?_⟩
      · simp [followRecording, hold, List.find?_append, h.find?_eq_none, hrec, RecordingInterval.isOpen,
          closeInterval_concat h.not_open]
      · rcases List.mem_append.mp hi with hi | hi
        · exact .inl (hold ▸ List.mem_append_left _ hi)
        · refine .inr (.inl ⟨⟨start, none⟩, hold ▸ List.mem_append_right _ (List.mem_singleton_self _), rfl, ?_⟩)
          rw [List.mem_singleton.mp hi]
      · rcases List.mem_append.mp hi with hi | hi
        · exact ⟨i, List.mem_append_left _ hi, grown_self hnow i⟩
        · rw [List.mem_singleton.mp hi]
          exact ⟨_, List.mem_append_right _ (List.mem_singleton_self _), rfl, hc⟩

/-- What holds of the Sessions at `c`. -/
structure Inv (c : ℤ) (db : Database) : Prop where
  ids : (db.sessions.map (·.id)).Nodup
  one : db.oneActive = true
  ended : ∀ s ∈ db.sessions, s.endedAt = none ↔ s.isActive = true
  kept : ∀ s ∈ db.sessions, Kept c (s.record && s.isActive) s.recordingIntervals
  apart : ∀ s ∈ db.sessions, ∀ t ∈ db.sessions, s.id ≠ t.id →
    ∀ i ∈ s.recordingIntervals, ∀ j ∈ t.recordingIntervals, Apart i j

theorem Inv.later (h : Inv c db) (hc : c ≤ now) : Inv now db :=
  { h with kept := fun s hs => (h.kept s hs).later hc }

private theorem eq_of_active (h : db.oneActive = true) {s t : Session} (hs : s ∈ db.sessions) (ht : t ∈ db.sessions)
    (hsa : s.isActive = true) (hta : t.isActive = true) : s = t := by
  rw [Database.oneActive, decide_eq_true_eq] at h
  have hs' := List.mem_filter.mpr ⟨hs, hsa⟩
  have ht' := List.mem_filter.mpr ⟨ht, hta⟩
  generalize db.sessions.filter Session.isActive = active at h hs' ht'
  match active, h with
  | [], _ => cases hs'
  | [a], _ => rw [List.mem_singleton.mp hs', List.mem_singleton.mp ht']
  | a :: b :: active, h => simp at h

theorem Kept.mem (h : Kept c recording is) {i : RecordingInterval} (hi : i ∈ is) :
    (i.isOpen = true ∧ recording = true) ∨ ∃ e, i.endedAt = some e ∧ i.startedAt ≤ e ∧ e ≤ c := by
  cases h with
  | closed h => exact .inr (h.closed i hi)
  | @recording is start h hs =>
    rcases List.mem_append.mp hi with hi | hi
    · exact .inr ((h.later hs).closed i hi)
    · rw [List.mem_singleton.mp hi]
      exact .inl ⟨rfl, rfl⟩

theorem Apart.symm {i j : RecordingInterval} (h : Apart i j) : Apart j i := Or.symm h

/-- Every interval of another Session keeps apart from those a request leaves this one. -/
theorem apart_of_fromOld {t : Session} (hapart : ∀ i ∈ session.recordingIntervals,
      ∀ j ∈ t.recordingIntervals, Apart i j)
    (ht : Kept c (t.record && t.isActive) t.recordingIntervals) (hnow : c ≤ now)
    (hone : session.isActive = true → t.isActive = false) {i j : RecordingInterval}
    (hi : FromOld now session i) (hj : j ∈ t.recordingIntervals) : Apart i j := by
  rcases hi with hi | ⟨o, ho, hopen, hstart⟩ | ⟨rfl, -, hactive⟩
  · exact hapart i hi j hj
  · rcases hapart o ho j hj with ⟨e, he, -⟩ | ⟨e, he, hle⟩
    · simp [RecordingInterval.isOpen, he] at hopen
    · exact .inr ⟨e, he, hstart ▸ hle⟩
  · rcases ht.mem hj with ⟨-, hrec⟩ | ⟨e, he, -, hle⟩
    · rw [hone hactive, Bool.and_false] at hrec
      cases hrec
    · exact .inr ⟨e, he, hle.trans hnow⟩

theorem commit_ok {working : Database} {other : Option Uuid} (h : commit db working other = .ok db') :
    db' = working ∧ db'.oneActive = true ∧ (db'.sessions.map (·.id)).Nodup := by
  rw [commit] at h
  split_ifs at h with hone hrest
  cases h
  simp only [Bool.not_eq_true', Bool.not_eq_false, Bool.and_eq_true, Database.distinct,
    decide_eq_true_eq] at hone hrest
  exact ⟨rfl, hone, hrest.1⟩

/-- One Session stored anew from `base`, the others as they were. -/
structure Stored (c now : ℤ) (db db' : Database) (base s : Session) : Prop where
  one : db'.oneActive = true
  ids : (db'.sessions.map (·.id)).Nodup
  mem : s ∈ db'.sessions
  others : ∀ t ∈ db'.sessions, t = s ∨ t ∈ db.sessions ∧ t.id ≠ s.id
  ended : s.endedAt = none ↔ s.isActive = true
  kept : Kept now (s.record && s.isActive) s.recordingIntervals
  active : base.isActive = s.isActive
  fromOld : ∀ i ∈ s.recordingIntervals, FromOld now base i
  grown : ∀ t ∈ db.sessions, t ∈ db'.sessions ∨ ∀ i ∈ t.recordingIntervals, ∃ j ∈ s.recordingIntervals, Grown c now i j
  base : ∀ i ∈ base.recordingIntervals, ∃ t ∈ db.sessions, t.id = s.id ∧ i ∈ t.recordingIntervals

theorem Inv.stored {base : Session} (h : Inv c db) (hnow : c ≤ now) (hst : Stored c now db db' base s) :
    Inv now db' := by
  have hnew : ∀ t ∈ db'.sessions, t.id ≠ s.id → ∀ i ∈ s.recordingIntervals,
      ∀ j ∈ t.recordingIntervals, Apart i j := by
    intro t ht hid i hi j hj
    obtain rfl | ⟨hold, -⟩ := hst.others t ht
    · exact absurd rfl hid
    · have hapart : ∀ i ∈ base.recordingIntervals, ∀ j ∈ t.recordingIntervals, Apart i j := by
        intro i hi j hj
        obtain ⟨u, hu, huid, hiu⟩ := hst.base i hi
        exact h.apart u hu t hold (fun heq => hid (heq.symm.trans huid)) i hiu j hj
      refine apart_of_fromOld hapart (h.kept t hold) hnow (fun hb => ?_) (hst.fromOld i hi) hj
      by_contra hta
      exact hid (congrArg Session.id
        (eq_of_active hst.one ht hst.mem (by simpa using hta) (hst.active ▸ hb)))
  refine ⟨hst.ids, hst.one, fun t ht => ?_, fun t ht => ?_, fun t ht u hu hid i hi j hj => ?_⟩
  · obtain rfl | ⟨hold, -⟩ := hst.others t ht
    · exact hst.ended
    · exact h.ended t hold
  · obtain rfl | ⟨hold, -⟩ := hst.others t ht
    · exact hst.kept
    · exact (h.kept t hold).later hnow
  · obtain rfl | ⟨hold, -⟩ := hst.others t ht
    · exact hnew u hu (Ne.symm hid) i hi j hj
    · obtain rfl | ⟨hold', -⟩ := hst.others u hu
      · exact (hnew t ht hid j hj i hi).symm
      · exact h.apart t hold u hold' hid i hi j hj

theorem createSession_cases (id : Uuid) (now : ℤ) (db : Database) (body : SessionCreate) :
    (∃ e, createSession id body now db = (.error e, db)) ∨
      ∃ session, session = followRecording (newSession id body now) now ∧
        createSession id body now db = (.ok session, { db with sessions := db.sessions ++ [session] }) ∧
        ({ db with sessions := db.sessions ++ [session] } : Database).oneActive = true ∧
        ((db.sessions ++ [session]).map (·.id)).Nodup := by
  rw [createSession]
  split
  · exact .inl ⟨_, rfl⟩
  · exact .inl ⟨_, rfl⟩
  · dsimp only
    split
    · exact .inl ⟨_, rfl⟩
    · next db' hcommit =>
      obtain ⟨rfl, hone, hids⟩ := commit_ok hcommit
      exact .inr ⟨_, rfl, rfl, hone, hids⟩

theorem createSession_stored (id : Uuid) (db : Database) (body : SessionCreate) (hnow : c ≤ now) :
    (createSession id body now db).2 = db ∨
      ∃ base s, s.id = id ∧ Stored c now db (createSession id body now db).2 base s := by
  rcases createSession_cases id now db body with ⟨e, he⟩ | ⟨session, hs, he, hone, hids⟩
  · exact .inl (by rw [he])
  · rw [he]
    have hbare : Kept c false (newSession id body now).recordingIntervals := .closed ⟨nofun, List.Pairwise.nil⟩
    obtain ⟨is, hfollow, hkept, hfrom, -⟩ := followRecording_spec hbare hnow nofun
    rw [hfollow] at hs
    subst hs
    refine .inr ⟨newSession id body now, _, rfl, hone, hids,
      List.mem_append_right _ (List.mem_singleton_self _), fun t ht => ?_,
      by simp [newSession, Session.isActive], hkept, rfl, hfrom,
      fun t ht => .inl (List.mem_append_left _ ht), nofun⟩
    rcases List.mem_append.mp ht with ht | ht
    · rw [List.map_append] at hids
      have hne := (List.nodup_append.mp hids).2.2 t.id (List.mem_map_of_mem ht)
      exact .inr ⟨ht, hne _ (List.mem_singleton_self _)⟩
    · exact .inl (List.mem_singleton.mp ht)

private theorem inv_createSession (body : SessionCreate) (h : Inv c db) (hnow : c ≤ now) :
    Inv now (createSession id body now db).2 := by
  rcases createSession_stored id db body hnow with heq | ⟨base, s, -, hst⟩
  · rw [heq]
    exact h.later hnow
  · exact h.stored hnow hst

/-- A status followed changes nothing but the status and the end. -/
theorem followStatus_frame {before : SessionStatus} {status : Option SessionStatus} {changed : Session}
    (h : followStatus db before session now status = .ok changed) :
    changed.id = session.id ∧ changed.record = session.record ∧
      changed.recordingIntervals = session.recordingIntervals := by
  cases status with
  | none =>
    cases h
    exact ⟨rfl, rfl, rfl⟩
  | some status =>
    cases status with
    | completed =>
      cases h
      exact ⟨rfl, rfl, rfl⟩
    | active =>
      rw [followStatus] at h
      split at h
      · cases h
      · cases h
        exact ⟨rfl, rfl, rfl⟩

private theorem followStatus_ended {before : SessionStatus} {status : Option SessionStatus} {changed : Session}
    (h : followStatus db before session now status = .ok changed)
    (hended : session.endedAt = none ↔ session.isActive = true) :
    (changed.endedAt = none ↔ changed.isActive = true) ∧
      (session.isActive = true → changed.endedAt = none ∨ changed.endedAt = some now) := by
  cases status with
  | none =>
    cases h
    exact ⟨hended, fun ha => .inl (hended.mpr ha)⟩
  | some status =>
    cases status with
    | completed =>
      cases h
      refine ⟨?_, fun ha => .inr ?_⟩
      · cases session.endedAt <;> simp [Session.isActive]
      · simp [hended.mpr ha]
    | active =>
      rw [followStatus] at h
      split at h
      · cases h
      · cases h
        exact ⟨by simp [Session.isActive], fun _ => .inl rfl⟩

theorem of_get (h : db.get id = some session) : session ∈ db.sessions ∧ session.id = id := by
  have hid := List.find?_some h
  exact ⟨List.mem_of_find?_eq_some h, by simpa using hid⟩

private theorem get_put (h : db.get id = some session) (hid : s.id = id) : (db.put s).get id = some s := by
  obtain ⟨hmem, hsid⟩ := of_get h
  rw [Database.get, Database.put, List.find?_map]
  have hfind : db.sessions.find? ((fun t : Session => decide (t.id = id)) ∘
      fun t => if t.id = s.id then s else t) = some session := by
    rw [← h, Database.get]
    congr 1
    funext t
    dsimp only [Function.comp]
    split_ifs with ht
    · simp [hid, ht]
    · rfl
  rw [hfind, Option.map_some, if_pos (hsid.trans hid.symm)]

theorem updateSession_cases (id : Uuid) (now : ℤ) (db : Database) (body : SessionUpdate) (now₁ : ℤ) :
    (∃ e, updateSession id body now₁ now db = (.error e, db)) ∨
      ∃ session changed s', db.get id = some session ∧
        followStatus db session.status { session with
          name := body.name.getD session.name
          record := body.record.getD session.record } now₁ body.status = .ok changed ∧
        s' = followRecording changed now ∧
        updateSession id body now₁ now db = (getSessionDetail id (db.put s'), db.put s') ∧
        (db.put s').oneActive = true ∧ ((db.put s').sessions.map (·.id)).Nodup := by
  rw [updateSession]
  split
  · exact .inl ⟨_, rfl⟩
  · next session hget =>
    dsimp only
    split
    · exact .inl ⟨_, rfl⟩
    · next changed hchanged =>
      split
      · exact .inl ⟨_, rfl⟩
      · next db' hcommit =>
        obtain ⟨rfl, hone, hids⟩ := commit_ok hcommit
        exact .inr ⟨session, changed, _, hget, hchanged, rfl, rfl, hone, hids⟩

private theorem followRecording_id : (followRecording session now).id = session.id := by
  rw [followRecording]
  split <;> split_ifs <;> rfl

theorem updateSession_stored (id : Uuid) (body : SessionUpdate) {now₁ : ℤ} (h : Inv c db) (hnow₁ : c ≤ now₁)
    (hnow : now₁ ≤ now) : (updateSession id body now₁ now db).2 = db ∨
      ∃ base s, s.id = id ∧ (∃ t ∈ db.sessions, t.id = id) ∧
        Stored c now db (updateSession id body now₁ now db).2 base s := by
  rcases updateSession_cases id now db body now₁ with
    ⟨e, he⟩ | ⟨session, changed, s', hget, hchanged, hs', he, hone, hids⟩
  · exact .inl (by rw [he])
  · rw [he]
    obtain ⟨hmem, hid⟩ := of_get hget
    obtain ⟨hcid, hcrec, hcint⟩ := followStatus_frame hchanged
    obtain ⟨hcended, hend⟩ := followStatus_ended hchanged (h.ended session hmem)
    have hkept : Kept c (session.record && session.isActive) changed.recordingIntervals :=
      hcint ▸ h.kept session hmem
    obtain ⟨is, hfollow, hkept', hfrom, hgrown⟩ := followRecording_spec hkept (hnow₁.trans hnow) fun hrec => by
      rw [Bool.and_eq_true] at hrec
      rcases hend hrec.2 with hnone | hsome
      · rw [hnone]
        exact ⟨hnow₁.trans hnow, le_refl now⟩
      · rw [hsome]
        exact ⟨hnow₁, hnow⟩
    rw [hfollow] at hs'
    subst hs'
    refine .inr ⟨changed, { changed with recordingIntervals := is }, hcid.trans hid, ⟨session, hmem, hid⟩, hone, hids,
      ?_, fun t ht => ?_, hcended, hkept', rfl, hfrom, fun t ht => ?_,
      fun i hi => ⟨session, hmem, hcid.symm, hcint ▸ hi⟩⟩
    · refine List.mem_map.mpr ⟨session, hmem, ?_⟩
      rw [if_pos hcid.symm]
    · obtain ⟨u, hu, rfl⟩ := List.mem_map.mp ht
      split_ifs with huid
      · exact .inl rfl
      · exact .inr ⟨hu, huid⟩
    · by_cases htid : t.id = changed.id
      · have heq : t = session := List.inj_on_of_nodup_map h.ids ht hmem (htid.trans hcid)
        refine .inr fun i hi => hgrown i ?_
        rw [hcint]
        exact heq ▸ hi
      · exact .inl (List.mem_map.mpr ⟨t, ht, if_neg htid⟩)

private theorem inv_updateSession (body : SessionUpdate) {now₁ : ℤ} (h : Inv c db) (hnow₁ : c ≤ now₁)
    (hnow : now₁ ≤ now) : Inv now (updateSession id body now₁ now db).2 := by
  rcases updateSession_stored id body h hnow₁ hnow with heq | ⟨base, s, -, -, hst⟩
  · rw [heq]
    exact h.later (hnow₁.trans hnow)
  · exact h.stored (hnow₁.trans hnow) hst

theorem inv_deleteSession (id : Uuid) (h : Inv c db) (hnow : c ≤ now) : Inv now (deleteSession id now db).2 := by
  rw [deleteSession]
  split
  · exact h.later hnow
  · have hsub : (db.sessions.filter (·.id ≠ id)).Sublist db.sessions := List.filter_sublist
    refine ⟨h.ids.sublist (hsub.map _), ?_, fun s hs => h.ended s (hsub.mem hs),
      fun s hs => (h.kept s (hsub.mem hs)).later hnow, fun s hs t ht => h.apart s (hsub.mem hs) t (hsub.mem ht)⟩
    have hone := h.one
    simp only [Database.oneActive, decide_eq_true_eq] at hone ⊢
    exact (hsub.filter _).length_le.trans hone

inductive Request where
  | create (id : Uuid) (body : SessionCreate)
  | update (id : Uuid) (body : SessionUpdate)
  | delete (id : Uuid)

/-- A request and what the clock reads while it is answered, the second reading not always taken. -/
structure Asked where
  request : Request
  now₁ : ℤ
  now₂ : ℤ

namespace Asked

def answer (a : Asked) (db : Database) : Answer (Session ⊕ List (ℤ × ℤ)) :=
  match a.request with
  | .create id body => (createSession id body a.now₁ db).map (Except.map .inl) fun db => db
  | .update id body => (updateSession id body a.now₁ a.now₂ db).map (Except.map .inl) fun db => db
  | .delete id => (deleteSession id a.now₁ db).map (Except.map .inr) fun db => db

end Asked

/-- The database after the requests, from one without Sessions. -/
def answered (cameras : List Camera) (asked : List Asked) : Database :=
  asked.foldl (fun db a => (a.answer db).2) ⟨cameras, []⟩

def readings (asked : List Asked) : List ℤ := asked.flatMap fun a => [a.now₁, a.now₂]

private theorem getSessionDetail_put (h : db.get id = some session) (hid : s.id = id) :
    getSessionDetail id (db.put s) = .ok s := by
  rw [getSessionDetail, get_put h hid]

/-- A request that is refused stores nothing. -/
theorem Asked.refused (a : Asked) {e : Failure} (h : (a.answer db).1 = .error e) : (a.answer db).2 = db := by
  obtain ⟨request, now₁, now₂⟩ := a
  cases request with
  | create id body =>
    simp only [Asked.answer] at h ⊢
    rcases createSession_cases id now₁ db body with ⟨e, he⟩ | ⟨session, -, he, -, -⟩
    · rw [he]
      rfl
    · rw [he] at h
      cases h
  | update id body =>
    simp only [Asked.answer] at h ⊢
    rcases updateSession_cases id now₂ db body now₁ with
      ⟨e, he⟩ | ⟨session, changed, s', hget, hchanged, hs', he, -, -⟩
    · rw [he]
      rfl
    · have hid : s'.id = id := by
        rw [hs', followRecording_id, (followStatus_frame hchanged).1]
        exact (of_get hget).2
      rw [he, getSessionDetail_put hget hid] at h
      cases h
  | delete id =>
    simp only [Asked.answer, deleteSession] at h ⊢
    cases hget : db.get id with
    | none => rfl
    | some session =>
      rw [hget] at h
      cases h

theorem Asked.inv (a : Asked) (h : Inv c db) (hc : c ≤ a.now₁) (hnow : a.now₁ ≤ a.now₂) :
    Inv a.now₂ (a.answer db).2 := by
  obtain ⟨request, now₁, now₂⟩ := a
  cases request with
  | create id body => exact (inv_createSession body h hc).later hnow
  | update id body => exact inv_updateSession body h hc hnow
  | delete id => exact (inv_deleteSession id h hc).later hnow

theorem inv_foldl (asked : List Asked) (h : Inv c db) (hclock : (c :: readings asked).Pairwise (· ≤ ·)) :
    ∃ now, Inv now (asked.foldl (fun db a => (a.answer db).2) db) := by
  induction asked generalizing c db with
  | nil => exact ⟨c, h⟩
  | cons a asked ih =>
    obtain ⟨hc, hrest⟩ := List.pairwise_cons.mp hclock
    obtain ⟨hnow, hrest⟩ := List.pairwise_cons.mp hrest
    exact ih (a.inv h (hc _ List.mem_cons_self) (hnow _ List.mem_cons_self)) hrest

private theorem inv_answered (cameras : List Camera) (asked : List Asked) (h : (readings asked).Pairwise (· ≤ ·)) :
    ∃ now, Inv now (answered cameras asked) := by
  have hempty (c : ℤ) : Inv c ⟨cameras, []⟩ := ⟨List.Pairwise.nil, rfl, nofun, nofun, nofun⟩
  cases asked with
  | nil => exact ⟨0, hempty 0⟩
  | cons a asked =>
    refine inv_foldl (a :: asked) (hempty a.now₁) (List.pairwise_cons.mpr ⟨fun now hnow => ?_, h⟩)
    rcases List.mem_cons.mp hnow with rfl | hnow
    · exact le_refl _
    · exact (List.pairwise_cons.mp h).1 now hnow

/-- What the operator may rely on. -/
structure Sound (db : Database) : Prop where
  oneActive : (db.sessions.filter Session.isActive).length ≤ 1
  ended : ∀ s ∈ db.sessions, s.endedAt = none ↔ s.isActive = true
  oneOpen : ∀ s ∈ db.sessions, (s.recordingIntervals.filter RecordingInterval.isOpen).length ≤ 1
  recording : ∀ s ∈ db.sessions,
    (∃ i ∈ s.recordingIntervals, i.isOpen = true) ↔ s.isActive = true ∧ s.record = true
  startsFirst : ∀ s ∈ db.sessions, ∀ i ∈ s.recordingIntervals, ∀ e, i.endedAt = some e → i.startedAt ≤ e
  apart : (db.sessions.flatMap (·.recordingIntervals)).Pairwise Apart

theorem Closed.filter_eq_nil (h : Closed c is) : is.filter RecordingInterval.isOpen = [] := by
  rw [List.filter_eq_nil_iff]
  intro i hi
  simp [h.not_open i hi]

theorem Kept.oneOpen (h : Kept c recording is) : (is.filter RecordingInterval.isOpen).length ≤ 1 := by
  cases h with
  | closed h => simp [h.filter_eq_nil]
  | recording h hc =>
    rw [List.filter_append, h.filter_eq_nil]
    exact le_refl 1

theorem Kept.recording_iff (h : Kept c recording is) : (∃ i ∈ is, i.isOpen = true) ↔ recording = true := by
  cases h with
  | closed h => simpa using h.not_open
  | @recording is start h hc =>
    refine iff_of_true ⟨⟨start, none⟩, List.mem_append_right _ (List.mem_singleton_self _), rfl⟩ rfl

theorem Kept.inOrder (h : Kept c recording is) : is.Pairwise Before := by
  cases h with
  | closed h => exact h.inOrder
  | recording h hc =>
    rw [List.pairwise_append]
    refine ⟨h.inOrder, List.pairwise_singleton _ _, fun i hi j hj => ?_⟩
    obtain ⟨e, he, -, hec⟩ := h.closed i hi
    exact ⟨e, he, List.mem_singleton.mp hj ▸ hec⟩

theorem Inv.sound (h : Inv c db) : Sound db where
  oneActive := by simpa [Database.oneActive] using h.one
  ended := h.ended
  oneOpen s hs := (h.kept s hs).oneOpen
  recording s hs := by
    rw [(h.kept s hs).recording_iff, Bool.and_eq_true, and_comm]
  startsFirst s hs i hi e he := by
    rcases (h.kept s hs).mem hi with ⟨hopen, -⟩ | ⟨e', he', hle, -⟩
    · simp [RecordingInterval.isOpen, he] at hopen
    · rw [he] at he'
      cases he'
      exact hle
  apart := by
    rw [List.pairwise_flatMap]
    refine ⟨fun s hs => (h.kept s hs).inOrder.imp .inl, ?_⟩
    refine (List.pairwise_map.mp h.ids).imp_of_mem fun hs ht hid i hi j hj => ?_
    exact h.apart _ hs _ ht hid i hi j hj

/-- However Sessions are created, updated and deleted, with a clock that does not go back. -/
theorem sessions_sound (cameras : List Camera) (asked : List Asked)
    (hclock : (readings asked).Pairwise (· ≤ ·)) : Sound (answered cameras asked) ∧
      ∀ (a : Asked) (e : Failure), (a.answer (answered cameras asked)).1 = .error e →
        (a.answer (answered cameras asked)).2 = answered cameras asked := by
  obtain ⟨now, h⟩ := inv_answered cameras asked hclock
  exact ⟨h.sound, fun a e he => a.refused he⟩

/-- Two Sessions one after another, the first reopened in vain, then deleted. -/
def twoSessions : List Asked := [
  ⟨.create 1 ⟨"a", true, none⟩, 10, 10⟩,
  ⟨.update 1 ⟨none, some .completed, some false⟩, 20, 21⟩,
  ⟨.create 2 ⟨"b", false, none⟩, 30, 30⟩,
  ⟨.update 1 ⟨some "c", some .active, some true⟩, 35, 35⟩,
  ⟨.update 2 ⟨none, none, some true⟩, 40, 40⟩,
  ⟨.delete 1, 50, 50⟩]

theorem sessions_sound_twoSessions : Sound (answered [] twoSessions) ∧
    (answered [] twoSessions).sessions.map (·.recordingIntervals) = [[⟨40, none⟩]] :=
  ⟨(sessions_sound [] twoSessions (by decide)).1, by decide⟩

end Kanat.Sessions
