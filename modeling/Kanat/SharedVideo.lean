import Kanat.ListUpdates
import Kanat.RecordedFiles

/-! # Video goes with the last Session that recorded it

Whose a file is, the deletion decides by the windows of the Sessions left when it read them and by how far the
file has been written. That is right of every file MediaMTX had ended by then, and of one that has been written
into another Session's window already. -/
namespace Kanat.RecordedFiles
open ListUpdates Recordings Sessions
open Bullets (Uuid)

variable {c now : ℤ} {db db' : Database} {a : Asked}

/-- A create or update request leaves the Sessions, or stores one of them anew. -/
theorem answer_stored (h : Sessions.Inv c db) (hc : c ≤ a.now₁) (hnow : a.now₁ ≤ a.now₂)
    (hdelete : ∀ id, a.request ≠ .delete id) : (a.answer db).2 = db ∨
      ∃ now base s, c ≤ now ∧ now ≤ a.now₂ ∧ Stored c now db (a.answer db).2 base s ∧
        ((∃ body, a.request = .create s.id body) ∨ ∃ t ∈ db.sessions, t.id = s.id) := by
  obtain ⟨request, now₁, now₂⟩ := a
  cases request with
  | create id body =>
    rcases createSession_stored id db body hc with heq | ⟨base, s, rfl, hst⟩
    · exact .inl heq
    · exact .inr ⟨now₁, base, s, hc, hnow, hst, .inl ⟨body, rfl⟩⟩
  | update id body =>
    rcases updateSession_stored id body h hc hnow with heq | ⟨base, s, rfl, hold, hst⟩
    · exact .inl heq
    · exact .inr ⟨now₂, base, s, hc.trans hnow, le_refl now₂, hst, .inr hold⟩
  | delete id => exact absurd rfl (hdelete id)

private theorem answer_ids (h : Sessions.Inv c db) (hc : c ≤ a.now₁) (hnow : a.now₁ ≤ a.now₂)
    (hdelete : ∀ id, a.request ≠ .delete id) {s : Session} (hs : s ∈ (a.answer db).2.sessions) :
    (∃ body, a.request = .create s.id body) ∨ ∃ t ∈ db.sessions, t.id = s.id := by
  rcases answer_stored h hc hnow hdelete with heq | ⟨now, base, t, -, -, hst, hid⟩
  · exact .inr ⟨s, heq ▸ hs, rfl⟩
  · rcases hst.others s hs with rfl | ⟨hold, -⟩
    · exact hid
    · exact .inr ⟨s, hold, rfl⟩

/-- Each interval was there, was open, or starts now. -/
theorem answer_intervals (h : Sessions.Inv c db) (hc : c ≤ a.now₁) (hnow : a.now₁ ≤ a.now₂)
    (hdelete : ∀ id, a.request ≠ .delete id) {s : Session} (hs : s ∈ (a.answer db).2.sessions)
    {i : RecordingInterval} (hi : i ∈ s.recordingIntervals) :
    (∃ t ∈ db.sessions, i ∈ t.recordingIntervals) ∨
      (∃ t ∈ db.sessions, ∃ j ∈ t.recordingIntervals, j.isOpen = true ∧ i.startedAt = j.startedAt) ∨
        c ≤ i.startedAt := by
  rcases answer_stored h hc hnow hdelete with heq | ⟨now, base, t, hle, -, hst, -⟩
  · exact .inl ⟨s, heq ▸ hs, hi⟩
  · rcases hst.others s hs with rfl | ⟨hold, -⟩
    · rcases hst.fromOld i hi with hi | ⟨j, hj, hopen, hstart⟩ | ⟨rfl, -⟩
      · obtain ⟨t, ht, -, hit⟩ := hst.base i hi
        exact .inl ⟨t, ht, hit⟩
      · obtain ⟨t, ht, -, hjt⟩ := hst.base j hj
        exact .inr (.inl ⟨t, ht, j, hjt, hopen, hstart⟩)
      · exact .inr (.inr hle)
    · exact .inl ⟨s, hold, hi⟩

/-- No interval is lost or cut short. -/
theorem answer_grown (h : Sessions.Inv c db) (hc : c ≤ a.now₁) (hnow : a.now₁ ≤ a.now₂)
    (hdelete : ∀ id, a.request ≠ .delete id) {s : Session} (hs : s ∈ db.sessions) {i : RecordingInterval}
    (hi : i ∈ s.recordingIntervals) :
    ∃ t ∈ (a.answer db).2.sessions, ∃ j ∈ t.recordingIntervals, Grown c a.now₂ i j := by
  rcases answer_stored h hc hnow hdelete with heq | ⟨now, base, t, -, hle, hst, -⟩
  · exact ⟨s, heq.symm ▸ hs, i, hi, grown_self (hc.trans hnow) i⟩
  · rcases hst.grown s hs with hkept | hgrown
    · exact ⟨s, hkept, i, hi, grown_self (hc.trans hnow) i⟩
    · obtain ⟨j, hj, hstart, hend⟩ := hgrown i hi
      refine ⟨t, hst.mem, j, hj, hstart, hend.trans ?_⟩
      exact (grown_self hle j).2

variable {w w' : World} {d d' : Deletion} {f f' : RecordedFile} {k : ℕ} {deletions : List Deletion}
  {files files' : List RecordedFile}

namespace Stage

def hasRead : Stage → Bool
  | .committed | .synced => false
  | _ => true

/-- The files the deletion has listed and not yet done with. -/
def left : Stage → List FileName
  | .scanning left => left
  | .removing file left => file :: left
  | _ => []

/-- Whether the deletion has looked at every file, or at all but those left. -/
def scanned : Stage → Bool
  | .scanning _ | .removing _ _ | .finished => true
  | _ => false

end Stage

/-- An interval of a Session as the deletion has read it, unless it started since. -/
def Covered (d : Deletion) (i : RecordingInterval) : Prop :=
  d.readAt ≤ i.startedAt ∨
    ∃ o ∈ d.otherWindows, o.1 = i.startedAt ∧ (i.endedAt = some o.2 ∨ o.2 = d.readAt)

/-- A window read of a Session that is there still, or was deleted after. -/
def Backed (now : ℤ) (db : Database) (deletions : List Deletion) (k : ℕ) (o : Window) : Prop :=
  (∃ s ∈ db.sessions, ∃ i ∈ s.recordingIntervals, i.startedAt = o.1 ∧ o.2 ≤ i.endedAt.getD now) ∨
    ∃ j, k < j ∧ ∃ d, deletions[j]? = some d ∧ ∃ window ∈ d.windows, window.1 = o.1 ∧ o.2 ≤ window.2

/-- What the deletions have read of the Sessions. -/
structure Read (now : ℤ) (db : Database) (deletions : List Deletion) : Prop where
  sessions : Sessions.Inv now db
  windows : ∀ d ∈ deletions, d.readAt ≤ now ∧ ∀ window ∈ d.windows, window.2 ≤ d.readAt
  gone : ∀ d ∈ deletions, ∀ s ∈ db.sessions, s.id ≠ d.sessionId
  covered : ∀ d ∈ deletions, d.stage.hasRead = true → ∀ s ∈ db.sessions, ∀ i ∈ s.recordingIntervals, Covered d i
  backed : ∀ k d, deletions[k]? = some d → ∀ o ∈ d.otherWindows, Backed now db deletions k o

/-- A file that is written by the clock and is no longer than a segment. -/
structure Clocked (now : ℤ) (f : RecordedFile) : Prop where
  written : f.began ≤ f.written ∧ f.written ≤ f.began + Recordings.segment ∧ f.written ≤ now
  ended : ∀ e, f.ended = some e → f.written ≤ e ∧ e ≤ now

def overlapping (windows : List Window) (f : RecordedFile) : Bool := windows.any (overlaps f.began f.written)

/-- A file that had ended when the deletion read the others' windows, and is in none of them. -/
structure Sole (d : Deletion) (f : RecordedFile) : Prop where
  ended : ∃ e, f.ended = some e ∧ e ≤ d.readAt
  began : f.began < d.readAt
  others : overlapping d.otherWindows f = false

/-- A file the deletion has left: it started after what the Session recorded, is another's too, or had ended and
was not the Session's. -/
def Left (d : Deletion) (f : RecordedFile) : Prop :=
  (∀ window ∈ d.windows, window.2 ≤ f.began) ∨ overlapping d.otherWindows f = true ∨
    (∃ e, f.ended = some e ∧ e ≤ d.readAt) ∧ overlapping d.windows f = false

/-- What the deletions have made of the files. -/
structure Judged (files : List RecordedFile) (deletions : List Deletion) : Prop where
  listed : ∀ d ∈ deletions, ∀ file ∈ d.stage.left, file ∈ files.map RecordedFile.name
  removing : ∀ d ∈ deletions, ∀ file left, d.stage = .removing file left →
    ∀ f ∈ files, f.name = file → f.present = true → Sole d f
  removed : ∀ f ∈ files, f.present = false → ∃ d ∈ deletions, d.stage.hasRead = true ∧ Sole d f
  left : ∀ d ∈ deletions, d.stage.scanned = true → ∀ f ∈ files, f.present = true → f.name ∉ d.stage.left →
    cameraFolder d.configPaths f.cameraAlias = true → Left d f

structure World.Inv (w : World) : Prop where
  read : Read w.now w.db w.deletions
  clocked : ∀ f ∈ w.files, Clocked w.now f
  names : (w.files.map RecordedFile.name).Nodup
  judged : Judged w.files w.deletions

theorem Backed.imp {now' : ℤ} {deletions' : List Deletion} {o : Window} (h : Backed now db deletions k o)
    (hdb : ∀ s ∈ db.sessions, ∀ i ∈ s.recordingIntervals,
      (∃ t ∈ db'.sessions, ∃ j ∈ t.recordingIntervals, Grown now now' i j) ∨ ∃ j, k < j ∧ ∃ d,
        deletions'[j]? = some d ∧ ∃ window ∈ d.windows, window.1 = i.startedAt ∧ i.endedAt.getD now ≤ window.2)
    (hdeletions : ∀ j d, k < j → deletions[j]? = some d → ∃ d', deletions'[j]? = some d' ∧ d'.windows = d.windows) :
    Backed now' db' deletions' k o := by
  rcases h with ⟨s, hs, i, hi, hstart, hend⟩ | ⟨j, hj, d, hd, window, hwindow, hstart, hend⟩
  · rcases hdb s hs i hi with ⟨t, ht, j, hj, hstart', hend'⟩ | ⟨j, hj, d, hd, window, hwindow, hstart', hend'⟩
    · exact .inl ⟨t, ht, j, hj, hstart'.trans hstart, hend.trans hend'⟩
    · exact .inr ⟨j, hj, d, hd, window, hwindow, hstart'.trans hstart, hend.trans hend'⟩
  · obtain ⟨d', hd', heq⟩ := hdeletions j d hj hd
    exact .inr ⟨j, hj, d', hd', window, heq ▸ hwindow, hstart, hend⟩

theorem Read.later {now' : ℤ} (h : Read now db deletions) (hc : now ≤ now') : Read now' db deletions where
  sessions := h.sessions.later hc
  windows d hd := ⟨(h.windows d hd).1.trans hc, (h.windows d hd).2⟩
  gone := h.gone
  covered := h.covered
  backed k d hd o ho := (h.backed k d hd o ho).imp
    (fun s hs i hi => .inl ⟨s, hs, i, hi, grown_self hc i⟩) fun _ d _ hd => ⟨d, hd, rfl⟩

theorem Read.asked (h : Read now db deletions) (hc : now ≤ a.now₁) (hnow : a.now₁ ≤ a.now₂)
    (hdelete : ∀ id, a.request ≠ .delete id)
    (hfresh : ∀ id body, a.request = .create id body → ∀ d ∈ deletions, d.sessionId ≠ id) :
    Read a.now₂ (a.answer db).2 deletions where
  sessions := a.inv h.sessions hc hnow
  windows d hd := ⟨(h.windows d hd).1.trans (hc.trans hnow), (h.windows d hd).2⟩
  gone d hd s hs := by
    rcases answer_ids h.sessions hc hnow hdelete hs with ⟨body, hbody⟩ | ⟨t, ht, hid⟩
    · exact (hfresh s.id body hbody d hd).symm
    · exact hid ▸ h.gone d hd t ht
  covered d hd hread s hs i hi := by
    rcases answer_intervals h.sessions hc hnow hdelete hs hi with
      ⟨t, ht, hit⟩ | ⟨t, ht, j, hj, hopen, hstart⟩ | hlate
    · exact h.covered d hd hread t ht i hit
    · rcases h.covered d hd hread t ht j hj with hlate | ⟨o, ho, hstart', hend⟩
      · exact .inl (hstart.symm ▸ hlate)
      · refine .inr ⟨o, ho, hstart'.trans hstart.symm, .inr (hend.resolve_left fun hclosed => ?_)⟩
        simp [RecordingInterval.isOpen, hclosed] at hopen
    · exact .inl ((h.windows d hd).1.trans hlate)
  backed k d hd o ho := (h.backed k d hd o ho).imp
    (fun s hs i hi => .inl (answer_grown h.sessions hc hnow hdelete hs hi)) fun _ d _ hd => ⟨d, hd, rfl⟩

theorem Read.committed {id : Uuid} {windows : List Window} (h : Read now db deletions)
    (hdeleted : deleteSession id now db = (.ok windows, db')) :
    Read now db' (deletions ++ [⟨id, windows, [], now, none, .committed⟩]) := by
  have hinv := inv_deleteSession id h.sessions (le_refl now)
  rw [hdeleted] at hinv
  rw [deleteSession] at hdeleted
  split at hdeleted
  · cases hdeleted
  · next session hget =>
    cases hdeleted
    obtain ⟨hmem, hid⟩ := of_get hget
    have hkept : ∀ s ∈ db.sessions.filter (·.id ≠ id), s ∈ db.sessions ∧ s.id ≠ id := by
      intro s hs
      simpa using List.mem_filter.mp hs
    have hnew : ∀ d ∈ deletions ++ [⟨id, recordedWindows now session.recordingIntervals, [], now, none, .committed⟩],
        d ∈ deletions ∨ d = ⟨id, recordedWindows now session.recordingIntervals, [], now, none, .committed⟩ := by
      intro d hd
      simpa using hd
    refine ⟨hinv, fun d hd => ?_, fun d hd s hs => ?_, fun d hd hread s hs i hi => ?_, fun k d hd o ho => ?_⟩
    · rcases hnew d hd with hd | rfl
      · exact h.windows d hd
      · refine ⟨le_refl now, fun window hwindow => ?_⟩
        obtain ⟨i, hi, rfl⟩ := List.mem_map.mp hwindow
        rcases (h.sessions.kept session hmem).mem hi with ⟨hopen, -⟩ | ⟨e, he, -, hle⟩
        · rw [RecordingInterval.isOpen, Option.isNone_iff_eq_none] at hopen
          simp [hopen]
        · simpa [he] using hle
    · rcases hnew d hd with hd | rfl
      · exact h.gone d hd s (hkept s hs).1
      · exact (hkept s hs).2
    · rcases hnew d hd with hd | rfl
      · exact h.covered d hd hread s (hkept s hs).1 i hi
      · cases hread
    · rcases hnew d (List.mem_of_getElem? hd) with hold | rfl
      · rcases Nat.lt_or_ge k deletions.length with hk | hk
        · rw [List.getElem?_append_left hk] at hd
          refine (h.backed k d hd o ho).imp (fun s hs i hi => ?_) fun j d hj hd => ⟨d, ?_, rfl⟩
          · by_cases hsid : s.id = id
            · have heq : s = session := List.inj_on_of_nodup_map h.sessions.ids hs hmem (hsid.trans hid.symm)
              refine .inr ⟨deletions.length, hk, _, List.getElem?_concat_length, _,
                List.mem_map_of_mem (heq ▸ hi), rfl, le_refl _⟩
            · exact .inl ⟨s, List.mem_filter.mpr ⟨hs, by simpa using hsid⟩, i, hi, grown_self (le_refl now) i⟩
          · rw [List.getElem?_append_left (List.getElem?_eq_some_iff.mp hd).1, hd]
        · rw [List.getElem?_append_right hk] at hd
          have hd' := List.mem_singleton.mp (List.mem_of_getElem? hd)
          rw [hd'] at ho
          cases ho
      · cases ho

/-- A deletion goes on. -/
theorem Read.set (h : Read now db deletions) (hd : deletions[k]? = some d) (hwindows : d'.windows = d.windows)
    (hid : d'.sessionId = d.sessionId) (hat : d.readAt ≤ d'.readAt) (hnow : d'.readAt ≤ now)
    (hcovered : d'.stage.hasRead = true → ∀ s ∈ db.sessions, ∀ i ∈ s.recordingIntervals, Covered d' i)
    (hbacked : ∀ o ∈ d'.otherWindows, Backed now db deletions k o) : Read now db (deletions.set k d') := by
  have hmem := List.mem_of_getElem? hd
  have hset : ∀ e ∈ deletions.set k d', e = d' ∨ e ∈ deletions := fun e he => (List.mem_or_eq_of_mem_set he).symm
  refine ⟨h.sessions, fun e he => ?_, fun e he => ?_, fun e he hread => ?_, fun j e he o ho => ?_⟩
  · rcases hset e he with rfl | he
    · rw [hwindows]
      exact ⟨hnow, fun window hwindow => ((h.windows d hmem).2 window hwindow).trans hat⟩
    · exact h.windows e he
  · rcases hset e he with rfl | he
    · rw [hid]
      exact h.gone d hmem
    · exact h.gone e he
  · rcases hset e he with rfl | he
    · exact hcovered hread
    · exact h.covered e he hread
  · have hback : Backed now db deletions j o := by
      rcases eq_or_ne k j with rfl | hne
      · rw [List.getElem?_set_self (List.getElem?_eq_some_iff.mp hd).1, Option.some_inj] at he
        rw [← he] at ho
        exact hbacked o ho
      · rw [List.getElem?_set_ne hne] at he
        exact h.backed j e he o ho
    refine hback.imp (fun s hs i hi => .inl ⟨s, hs, i, hi, grown_self (le_refl now) i⟩) fun l e _ hl => ?_
    rcases eq_or_ne k l with rfl | hne
    · rw [hd, Option.some_inj] at hl
      exact ⟨d', List.getElem?_set_self (List.getElem?_eq_some_iff.mp hd).1, hwindows.trans (hl ▸ rfl)⟩
    · exact ⟨e, by rw [List.getElem?_set_ne hne, hl], rfl⟩

/-- A step of a deletion that reads nothing of the Sessions. -/
theorem Read.goes (h : Read now db deletions) (hd : deletions[k]? = some d) (configPaths : Option ConfigPaths)
    {stage : Stage} (hread : stage.hasRead = true → d.stage.hasRead = true) :
    Read now db (deletions.set k { d with configPaths, stage }) := by
  have hmem := List.mem_of_getElem? hd
  exact h.set hd rfl rfl (le_refl _) (h.windows d hmem).1
    (fun hread' s hs i hi => h.covered d hmem (hread hread') s hs i hi) (h.backed k d hd)

theorem Read.reads (h : Read now db deletions) (hd : deletions[k]? = some d) :
    Read now db (deletions.set k { d with
      otherWindows := otherRecordedWindows d.sessionId now db
      readAt := now
      stage := .read }) := by
  have hmem := List.mem_of_getElem? hd
  have hgone := h.gone d hmem
  have hothers : ∀ o, o ∈ otherRecordedWindows d.sessionId now db ↔
      ∃ s ∈ db.sessions, ∃ i ∈ s.recordingIntervals, (i.startedAt, i.endedAt.getD now) = o := by
    intro o
    simp only [otherRecordedWindows, recordedWindows, List.mem_map, List.mem_flatMap, List.mem_filter,
      decide_eq_true_eq]
    constructor
    · rintro ⟨i, ⟨s, ⟨hs, -⟩, hi⟩, ho⟩
      exact ⟨s, hs, i, hi, ho⟩
    · rintro ⟨s, hs, i, hi, ho⟩
      exact ⟨i, ⟨s, ⟨hs, hgone s hs⟩, hi⟩, ho⟩
  refine h.set hd rfl rfl (h.windows d hmem).1 (le_refl now) (fun _ s hs i hi => ?_) fun o ho => ?_
  · refine .inr ⟨_, (hothers _).mpr ⟨s, hs, i, hi, rfl⟩, rfl, ?_⟩
    cases hend : i.endedAt with
    | none => exact .inr rfl
    | some e => exact .inl rfl
  · obtain ⟨s, hs, i, hi, rfl⟩ := (hothers o).mp ho
    exact .inl ⟨s, hs, i, hi, rfl, le_refl _⟩

theorem overlapping_iff {windows : List Window} :
    overlapping windows f = true ↔ ∃ window ∈ windows, f.began < window.2 ∧ window.1 < f.written := by
  simp [overlapping, overlaps]

/-- A file a while later: one that had ended is as it was. -/
structure Onward (f f' : RecordedFile) : Prop where
  name : f'.name = f.name
  present : f'.present = f.present
  written : f.written ≤ f'.written
  ended : ∀ e, f.ended = some e → f' = f

theorem Onward.began (h : Onward f f') : f'.began = f.began := congrArg Prod.snd h.name

theorem Onward.cameraAlias (h : Onward f f') : f'.cameraAlias = f.cameraAlias := congrArg Prod.fst h.name

theorem Sole.onward (h : Sole d f) (hf : Onward f f') : Sole d f' := by
  obtain ⟨e, he, -⟩ := h.ended
  rw [hf.ended e he]
  exact h

theorem Left.onward (h : Left d f) (hf : Onward f f') : Left d f' := by
  rcases h with hlate | hothers | ⟨⟨e, he, hle⟩, hnot⟩
  · exact .inl fun window hwindow => hf.began ▸ hlate window hwindow
  · obtain ⟨o, ho, hbegan, hwritten⟩ := overlapping_iff.mp hothers
    exact .inr (.inl (overlapping_iff.mpr ⟨o, ho, hf.began ▸ hbegan, hwritten.trans_le hf.written⟩))
  · rw [hf.ended e he]
    exact .inr (.inr ⟨⟨e, he, hle⟩, hnot⟩)

/-- MediaMTX writes to files and ends them. -/
theorem Judged.onward (h : Judged files deletions) {g : RecordedFile → RecordedFile}
    (hg : ∀ f ∈ files, Onward f (g f)) : Judged (files.map g) deletions where
  listed d hd file hfile := by
    obtain ⟨f, hf, rfl⟩ := List.mem_map.mp (h.listed d hd file hfile)
    exact List.mem_map.mpr ⟨g f, List.mem_map_of_mem hf, (hg f hf).name⟩
  removing d hd file left hstage f' hf' hname hpresent := by
    obtain ⟨f, hf, rfl⟩ := List.mem_map.mp hf'
    refine (h.removing d hd file left hstage f hf ?_ ?_).onward (hg f hf)
    · rw [← (hg f hf).name, hname]
    · rw [← (hg f hf).present, hpresent]
  removed f' hf' hpresent := by
    obtain ⟨f, hf, rfl⟩ := List.mem_map.mp hf'
    rw [(hg f hf).present] at hpresent
    obtain ⟨d, hd, hread, hsole⟩ := h.removed f hf hpresent
    exact ⟨d, hd, hread, hsole.onward (hg f hf)⟩
  left d hd hscanned f' hf' hpresent hleft hfolder := by
    obtain ⟨f, hf, rfl⟩ := List.mem_map.mp hf'
    rw [(hg f hf).present] at hpresent
    rw [(hg f hf).name] at hleft
    rw [(hg f hf).cameraAlias] at hfolder
    exact (h.left d hd hscanned f hf hpresent hleft hfolder).onward (hg f hf)

/-- MediaMTX starts a file, after all that the deleted Sessions recorded. -/
theorem Judged.started (h : Judged files deletions) {cameraAlias : String} (hread : Read now db deletions)
    (hfresh : ∀ f ∈ files, f.name ≠ (cameraAlias, now)) :
    Judged (files ++ [⟨cameraAlias, now, now, none, true⟩]) deletions where
  listed d hd file hfile := by
    rw [List.map_append]
    exact List.mem_append_left _ (h.listed d hd file hfile)
  removing d hd file left hstage f hf hname hpresent := by
    rcases List.mem_append.mp hf with hf | hf
    · exact h.removing d hd file left hstage f hf hname hpresent
    · obtain ⟨f', hf', hname'⟩ := List.mem_map.mp (h.listed d hd file (by rw [hstage]; exact List.mem_cons_self))
      rw [List.mem_singleton.mp hf] at hname
      exact absurd (hname'.trans hname.symm) (hfresh f' hf')
  removed f hf hpresent := by
    rcases List.mem_append.mp hf with hf | hf
    · exact h.removed f hf hpresent
    · rw [List.mem_singleton.mp hf] at hpresent
      cases hpresent
  left d hd hscanned f hf hpresent hleft hfolder := by
    rcases List.mem_append.mp hf with hf | hf
    · exact h.left d hd hscanned f hf hpresent hleft hfolder
    · rw [List.mem_singleton.mp hf]
      obtain ⟨hat, hwindows⟩ := hread.windows d hd
      exact .inl fun window hwindow => (hwindows window hwindow).trans hat

/-- Whether how far the file has been written tells whose it is: it started after what the Session recorded, had
ended when the others' windows were read, or has been written into one of these. -/
def Deletion.knows (d : Deletion) (f : RecordedFile) : Bool :=
  d.windows.all (fun window => window.2 ≤ f.began) || f.ended.any (· ≤ d.readAt) ||
    d.otherWindows.any (overlaps f.began (fileEnd (some f.written) f.began))

theorem fileEnd_written (h : Clocked now f) : fileEnd (some f.written) f.began = f.written := by
  obtain ⟨hbegan, hsegment, -⟩ := h.written
  rw [fileEnd, Option.getD_some, max_eq_left hbegan, min_eq_left hsegment]

theorem Judged.committed (h : Judged files deletions) {id : Uuid} {windows : List Window} :
    Judged files (deletions ++ [⟨id, windows, [], now, none, .committed⟩]) where
  listed d hd file hfile := by
    rcases List.mem_append.mp hd with hd | hd
    · exact h.listed d hd file hfile
    · rw [List.mem_singleton.mp hd] at hfile
      cases hfile
  removing d hd file left hstage := by
    rcases List.mem_append.mp hd with hd | hd
    · exact h.removing d hd file left hstage
    · rw [List.mem_singleton.mp hd] at hstage
      cases hstage
  removed f hf hpresent := by
    obtain ⟨d, hd, hsole⟩ := h.removed f hf hpresent
    exact ⟨d, List.mem_append_left _ hd, hsole⟩
  left d hd hscanned := by
    rcases List.mem_append.mp hd with hd | hd
    · exact h.left d hd hscanned
    · rw [List.mem_singleton.mp hd] at hscanned
      cases hscanned

/-- A deletion goes on and removes nothing. -/
theorem Judged.set (h : Judged files deletions) (hd : deletions[k]? = some d)
    (hlisted : ∀ file ∈ d'.stage.left, file ∈ files.map RecordedFile.name)
    (hremoving : ∀ file left, d'.stage = .removing file left →
      ∀ f ∈ files, f.name = file → f.present = true → Sole d' f)
    (hsame : d.stage.hasRead = true → d'.stage.hasRead = true ∧ ∀ f, Sole d f → Sole d' f)
    (hleft : d'.stage.scanned = true → ∀ f ∈ files, f.present = true → f.name ∉ d'.stage.left →
      cameraFolder d'.configPaths f.cameraAlias = true → Left d' f) :
    Judged files (deletions.set k d') := by
  have hset : ∀ e ∈ deletions.set k d', e = d' ∨ e ∈ deletions := fun e he => (List.mem_or_eq_of_mem_set he).symm
  refine ⟨fun e he => ?_, fun e he => ?_, fun f hf hpresent => ?_, fun e he => ?_⟩
  · rcases hset e he with rfl | he
    · exact hlisted
    · exact h.listed e he
  · rcases hset e he with rfl | he
    · exact hremoving
    · exact h.removing e he
  · obtain ⟨e, he, hread, hsole⟩ := h.removed f hf hpresent
    rcases eq_or_mem_set hd he _ with rfl | hin
    · exact ⟨d', mem_set_self hd _, (hsame hread).1, (hsame hread).2 f hsole⟩
    · exact ⟨e, hin, hread, hsole⟩
  · rcases hset e he with rfl | he
    · exact hleft
    · exact h.left e he

theorem Sole.goes {configPaths : Option ConfigPaths} {stage : Stage} (h : Sole d f) :
    Sole { d with configPaths, stage } f := ⟨h.ended, h.began, h.others⟩

theorem Left.goes {configPaths : Option ConfigPaths} {stage : Stage} (h : Left d f) :
    Left { d with configPaths, stage } f := h

/-- A deletion with no file left to look at. -/
theorem Judged.goes (h : Judged files deletions) (hd : deletions[k]? = some d) {stage : Stage}
    (hleft : stage.left = []) (hread : d.stage.hasRead = true → stage.hasRead = true)
    (hscanned : stage.scanned = true → d.stage = .scanning []) :
    Judged files (deletions.set k { d with stage }) := by
  have hmem := List.mem_of_getElem? hd
  refine h.set hd (fun file hfile => ?_) (fun file left hstage => ?_)
    (fun hold => ⟨hread hold, fun f hf => hf.goes⟩) fun hdone f hf hpresent _ hfolder => ?_
  · rw [hleft] at hfile
    cases hfile
  · rw [show stage = .removing file left from hstage] at hleft
    cases hleft
  · have hstage := hscanned hdone
    exact (h.left d hmem (by rw [hstage]; rfl) f hf hpresent (by rw [hstage]; exact List.not_mem_nil) hfolder).goes

theorem World.listed_iff {configPaths : Option ConfigPaths} {name : FileName} :
    name ∈ w.listed configPaths ↔
      ∃ f ∈ w.files, f.name = name ∧ f.present = true ∧ cameraFolder configPaths f.cameraAlias = true := by
  simp only [World.listed, List.mem_map, List.mem_filter, Bool.and_eq_true]
  constructor
  · rintro ⟨f, ⟨hf, hpresent, hfolder⟩, hname⟩
    exact ⟨f, hf, hname, hpresent, hfolder⟩
  · rintro ⟨f, hf, hname, hpresent, hfolder⟩
    exact ⟨f, ⟨hf, hpresent, hfolder⟩, hname⟩

theorem Judged.scans (h : Judged w.files w.deletions) (hd : w.deletions[k]? = some d)
    {configPaths : Option ConfigPaths} {listed : List FileName}
    (hlisted : ∀ name, name ∈ listed ↔ name ∈ w.listed configPaths) :
    Judged w.files (w.deletions.set k { d with configPaths, stage := .scanning listed }) := by
  refine h.set hd (fun file hfile => ?_) nofun (fun _ => ⟨rfl, fun f hf => hf.goes⟩)
    fun _ f hf hpresent hleft hfolder => ?_
  · obtain ⟨f, hf, hname, -⟩ := World.listed_iff.mp ((hlisted file).mp hfile)
    exact hname ▸ List.mem_map_of_mem hf
  · exact absurd ((hlisted f.name).mpr (World.listed_iff.mpr ⟨f, hf, rfl, hpresent, hfolder⟩)) hleft

theorem World.find_of_mem (hnames : (w.files.map RecordedFile.name).Nodup) (hf : f ∈ w.files)
    (hpresent : f.present = true) : w.find f.name = some f := by
  have hsome : (w.find f.name).isSome = true := by
    rw [World.find, List.find?_isSome]
    exact ⟨f, hf, by simp [hpresent]⟩
  obtain ⟨f', hfind⟩ := Option.isSome_iff_exists.mp hsome
  have hname : f'.name = f.name := by
    have hp := List.find?_some hfind
    simp only [Bool.and_eq_true, decide_eq_true_eq] at hp
    exact hp.1
  rw [hfind, List.inj_on_of_nodup_map hnames (List.mem_of_find?_eq_some hfind) hf hname]

/-- The deletion looks at a file it knows enough of. -/
theorem Judged.looks (h : w.Inv) (hd : w.deletions[k]? = some d) {file : FileName} {left : List FileName}
    (hstage : d.stage = .scanning (file :: left))
    (hknown : ∀ f ∈ w.files, f.name = file → f.present = true → d.knows f = true) :
    Judged w.files (w.deletions.set k
      { d with stage := if w.takes d file then .removing file left else .scanning left }) := by
  have hmem := List.mem_of_getElem? hd
  have hold := h.judged.left d hmem (by rw [hstage]; rfl)
  rw [hstage] at hold
  have hlisted := h.judged.listed d hmem
  rw [hstage] at hlisted
  obtain ⟨hat, hwindows⟩ := h.read.windows d hmem
  have htakes : ∀ f ∈ w.files, f.name = file → f.present = true →
      w.takes d file = (overlapping d.windows f && !overlapping d.otherWindows f) := by
    rintro f hf rfl hpresent
    rw [World.takes, World.find_of_mem h.names hf hpresent]
    show belongs d.windows d.otherWindows f.began (fileEnd (some f.written) f.began) = _
    rw [fileEnd_written (h.clocked f hf)]
    rfl
  have hknows : ∀ f ∈ w.files, f.name = file → f.present = true → (∀ window ∈ d.windows, window.2 ≤ f.began) ∨
      (∃ e, f.ended = some e ∧ e ≤ d.readAt) ∨ overlapping d.otherWindows f = true := by
    intro f hf hname hpresent
    have hk := hknown f hf hname hpresent
    rw [Deletion.knows, fileEnd_written (h.clocked f hf)] at hk
    simp only [Bool.or_eq_true, List.all_eq_true, decide_eq_true_eq, or_assoc] at hk
    refine hk.imp_right (Or.imp_left fun hended => ?_)
    cases hend : f.ended with
    | none =>
      rw [hend] at hended
      cases hended
    | some e =>
      rw [hend] at hended
      exact ⟨e, rfl, by simpa using hended⟩
  cases htake : w.takes d file with
  | true =>
    rw [if_pos rfl]
    refine h.judged.set hd hlisted (fun file' left' heq f hf hname hpresent => ?_)
      (fun _ => ⟨rfl, fun f hf => hf.goes⟩) fun _ f hf hpresent hleft hfolder => (hold f hf hpresent hleft hfolder).goes
    cases heq
    have hboth := htakes f hf hname hpresent
    rw [htake, eq_comm, Bool.and_eq_true, Bool.not_eq_true'] at hboth
    obtain ⟨window, hwindow, hbegan, -⟩ := overlapping_iff.mp hboth.1
    refine ⟨?_, hbegan.trans_le (hwindows window hwindow), hboth.2⟩
    rcases hknows f hf hname hpresent with hlate | hended | hothers
    · exact absurd hbegan (not_lt.mpr (hlate window hwindow))
    · exact hended
    · rw [hboth.2] at hothers
      cases hothers
  | false =>
    rw [if_neg Bool.false_ne_true]
    refine h.judged.set hd (fun file' hfile' => hlisted file' (List.mem_cons_of_mem _ hfile')) nofun
      (fun _ => ⟨rfl, fun f hf => hf.goes⟩) fun _ f hf hpresent hleft hfolder => ?_
    by_cases hname : f.name = file
    · have hboth := htakes f hf hname hpresent
      rw [htake, eq_comm, Bool.and_eq_false_iff, Bool.not_eq_false'] at hboth
      rcases hknows f hf hname hpresent with hlate | hended | hothers
      · exact .inl hlate
      · rcases hboth with hnot | hothers
        · exact .inr (.inr ⟨hended, hnot⟩)
        · exact .inr (.inl hothers)
      · exact .inr (.inl hothers)
    · exact (hold f hf hpresent (List.not_mem_cons_of_ne_of_not_mem hname hleft) hfolder).goes

def unlink (file : FileName) (f : RecordedFile) : RecordedFile :=
  if f.name = file then { f with present := false } else f

theorem unlink_cases (file : FileName) (f : RecordedFile) :
    unlink file f = f ∧ f.name ≠ file ∨ unlink file f = { f with present := false } ∧ f.name = file := by
  rw [unlink]
  split_ifs with h
  · exact .inr ⟨rfl, h⟩
  · exact .inl ⟨rfl, h⟩

private theorem unlink_name (file : FileName) (f : RecordedFile) : (unlink file f).name = f.name := by
  rcases unlink_cases file f with ⟨heq, -⟩ | ⟨heq, -⟩ <;> rw [heq]
  rfl

theorem map_unlink_name (file : FileName) :
    (files.map (unlink file)).map RecordedFile.name = files.map RecordedFile.name := by
  rw [List.map_map]
  exact List.map_congr_left fun f _ => unlink_name file f

/-- A file still there was not the one unlinked. -/
theorem of_unlink_present {file : FileName} (h : (unlink file f).present = true) :
    unlink file f = f ∧ f.name ≠ file ∧ f.present = true := by
  rcases unlink_cases file f with ⟨heq, hname⟩ | ⟨heq, -⟩
  · exact ⟨heq, hname, heq ▸ h⟩
  · rw [heq] at h
    cases h

theorem Judged.unlinks (h : Judged files deletions) (hd : deletions[k]? = some d) {file : FileName}
    {left : List FileName} (hstage : d.stage = .removing file left) :
    Judged (files.map (unlink file)) (deletions.set k { d with stage := .scanning left }) := by
  have hmem := List.mem_of_getElem? hd
  have hlisted := h.listed d hmem
  rw [hstage] at hlisted
  have hset : ∀ e ∈ deletions.set k { d with stage := .scanning left },
      e = { d with stage := .scanning left } ∨ e ∈ deletions := fun e he => (List.mem_or_eq_of_mem_set he).symm
  refine ⟨fun e he file' hfile' => ?_, fun e he file' left' heq f' hf' hname hpresent => ?_,
    fun f' hf' hpresent => ?_, fun e he hscanned f' hf' hpresent hleft hfolder => ?_⟩
  · rw [map_unlink_name]
    rcases hset e he with rfl | he
    · exact hlisted file' (List.mem_cons_of_mem _ hfile')
    · exact h.listed e he file' hfile'
  · obtain ⟨f, hf, rfl⟩ := List.mem_map.mp hf'
    obtain ⟨hsame, -, hold⟩ := of_unlink_present hpresent
    rw [hsame] at hname ⊢
    rcases hset e he with rfl | he
    · cases heq
    · exact h.removing e he file' left' heq f hf hname hold
  · obtain ⟨f, hf, rfl⟩ := List.mem_map.mp hf'
    have hmine : ∃ e ∈ deletions, e.stage.hasRead = true ∧ Sole e f := by
      rcases unlink_cases file f with ⟨heq, hname⟩ | ⟨heq, hname⟩
      · exact h.removed f hf (heq ▸ hpresent)
      · cases hold : f.present with
        | false => exact h.removed f hf hold
        | true => exact ⟨d, hmem, by rw [hstage]; rfl, h.removing d hmem file left hstage f hf hname hold⟩
    obtain ⟨e, he, hread, hsole⟩ := hmine
    have hsole' : Sole e (unlink file f) := by
      rcases unlink_cases file f with ⟨heq, -⟩ | ⟨heq, -⟩ <;> rw [heq]
      · exact hsole
      · exact ⟨hsole.ended, hsole.began, hsole.others⟩
    rcases eq_or_mem_set hd he { d with stage := .scanning left } with rfl | hin
    · exact ⟨_, mem_set_self hd _, rfl, hsole'.goes⟩
    · exact ⟨e, hin, hread, hsole'⟩
  · obtain ⟨f, hf, rfl⟩ := List.mem_map.mp hf'
    obtain ⟨hsame, hname, hold⟩ := of_unlink_present hpresent
    rw [hsame] at hleft hfolder ⊢
    rcases hset e he with rfl | he
    · refine (h.left d hmem (by rw [hstage]; rfl) f hf hold ?_ hfolder).goes
      rw [hstage]
      exact List.not_mem_cons_of_ne_of_not_mem hname hleft
    · exact h.left e he hscanned f hf hold hleft hfolder

namespace World

/-- Whether a deletion that looks at a file knows enough of it. -/
def known (w : World) : Act → Bool
  | .looks k => match w.deletions[k]? with
    | some d => match d.stage with
      | .scanning (file :: _) => w.files.all fun f => f.name ≠ file || !f.present || d.knows f
      | _ => true
    | none => true
  | _ => true

/-- Every look in the run is at a file known enough of. -/
abbrev AllKnown (w : World) (acts : List Act) : Prop := ConditionalRuns.EachTaken step (fun w a => w.known a = true) w acts

def endIf (cameraAlias : String) (now : ℤ) (f : RecordedFile) : RecordedFile :=
  if f.running cameraAlias then { f with ended := some now } else f

def writeIf (cameraAlias : String) (now : ℤ) (f : RecordedFile) : RecordedFile :=
  if f.running cameraAlias then { f with written := now } else f

theorem ended_of_running {cameraAlias : String} (h : f.running cameraAlias = true) : f.ended = none := by
  rw [RecordedFile.running, Bool.and_eq_true, Option.isNone_iff_eq_none] at h
  exact h.2

theorem onward_endIf (cameraAlias : String) (now : ℤ) (f : RecordedFile) : Onward f (endIf cameraAlias now f) := by
  rw [endIf]
  split_ifs with h
  · exact ⟨rfl, rfl, le_refl _, fun e he => by rw [ended_of_running h] at he; cases he⟩
  · exact ⟨rfl, rfl, le_refl _, fun _ _ => rfl⟩

theorem onward_writeIf {cameraAlias : String} (hle : f.written ≤ now) : Onward f (writeIf cameraAlias now f) := by
  rw [writeIf]
  split_ifs with h
  · exact ⟨rfl, rfl, hle, fun e he => by rw [ended_of_running h] at he; cases he⟩
  · exact ⟨rfl, rfl, le_refl _, fun _ _ => rfl⟩

theorem clocked_endIf (cameraAlias : String) (h : Clocked now f) : Clocked now (endIf cameraAlias now f) := by
  rw [endIf]
  split_ifs
  · refine ⟨h.written, fun e he => ?_⟩
    cases he
    exact ⟨h.written.2.2, le_refl now⟩
  · exact h

private theorem clocked_writeIf {cameraAlias : String} (h : Clocked now f)
    (hsegment : f.running cameraAlias = true → now ≤ f.began + Recordings.segment) : Clocked now (writeIf cameraAlias now f) := by
  rw [writeIf]
  split_ifs with hrunning
  · refine ⟨⟨h.written.1.trans h.written.2.2, hsegment hrunning, le_refl now⟩, fun e he => ?_⟩
    rw [ended_of_running hrunning] at he
    cases he
  · exact h

theorem Inv.onward (h : w.Inv) {g : RecordedFile → RecordedFile} (hg : ∀ f ∈ w.files, Onward f (g f))
    (hclocked : ∀ f ∈ w.files, Clocked w.now (g f)) (record : List String) :
    Inv { w with record, files := w.files.map g } where
  read := h.read
  clocked f' hf' := by
    obtain ⟨f, hf, rfl⟩ := List.mem_map.mp hf'
    exact hclocked f hf
  names := by
    have hmap : (w.files.map g).map RecordedFile.name = w.files.map RecordedFile.name := by
      rw [List.map_map]
      exact List.map_congr_left fun f hf => (hg f hf).name
    rw [hmap]
    exact h.names
  judged := h.judged.onward hg

theorem Inv.setRecord (h : w.Inv) (cameraAlias : String) (record : Bool) : Inv (w.setRecord cameraAlias record) := by
  rw [World.setRecord]
  split_ifs
  · exact ⟨h.read, h.clocked, h.names, h.judged⟩
  · exact h.onward (fun f _ => onward_endIf cameraAlias w.now f)
      (fun f hf => clocked_endIf cameraAlias (h.clocked f hf)) _

private theorem setRecord_frame (w : World) (cameraAlias : String) (record : Bool) :
    (w.setRecord cameraAlias record).now = w.now ∧ (w.setRecord cameraAlias record).db = w.db ∧
      (w.setRecord cameraAlias record).deletions = w.deletions := by
  rw [World.setRecord]
  split_ifs <;> exact ⟨rfl, rfl, rfl⟩

theorem Inv.sync (h : w.Inv) (reached : List (String × Bool)) : Inv (w.sync reached) := by
  unfold World.sync
  generalize recordingSessionActive w.db = active
  induction reached generalizing w with
  | nil => exact h
  | cons camera reached ih => exact ih (h.setRecord camera.1 (active && camera.2))

theorem sync_frame (w : World) (reached : List (String × Bool)) :
    (w.sync reached).now = w.now ∧ (w.sync reached).deletions = w.deletions := by
  unfold World.sync
  generalize recordingSessionActive w.db = active
  induction reached generalizing w with
  | nil => exact ⟨rfl, rfl⟩
  | cons camera reached ih =>
    obtain ⟨hnow, hdeletions⟩ := ih (w.setRecord camera.1 (active && camera.2))
    obtain ⟨hnow', -, hdeletions'⟩ := setRecord_frame w camera.1 (active && camera.2)
    exact ⟨hnow.trans hnow', hdeletions.trans hdeletions'⟩

/-- With no Session recording, a sync ends the files of the cameras it reaches. -/
theorem sync_ends (hidle : recordingSessionActive w.db = false) {reached : List (String × Bool)} :
    ∀ f' ∈ (w.sync reached).files, ∃ f ∈ w.files, Onward f f' ∧
      (f.cameraAlias ∈ reached.map Prod.fst → f'.ended.isSome = true) := by
  unfold World.sync
  rw [hidle]
  induction reached generalizing w with
  | nil =>
    intro f hf
    exact ⟨f, hf, ⟨rfl, rfl, le_refl _, fun _ _ => rfl⟩, nofun⟩
  | cons camera reached ih =>
    intro f' hf'
    have hset : w.setRecord camera.1 (false && camera.2) = { w with
        record := w.record.filter (· ≠ camera.1)
        files := w.files.map (endIf camera.1 w.now) } := rfl
    rw [List.foldl_cons, hset] at hf'
    obtain ⟨f₁, hf₁, hon, hends⟩ := ih (w := { w with
        record := w.record.filter (· ≠ camera.1)
        files := w.files.map (endIf camera.1 w.now) }) hidle f' hf'
    obtain ⟨f, hf, rfl⟩ := List.mem_map.mp hf₁
    have hfirst := onward_endIf camera.1 w.now f
    refine ⟨f, hf, ⟨hon.name.trans hfirst.name, hon.present.trans hfirst.present, hfirst.written.trans hon.written,
      fun e he => ?_⟩, fun hin => ?_⟩
    · have hsame := hfirst.ended e he
      rw [hsame] at hon
      exact hon.ended e he
    · rcases List.mem_cons.mp hin with heq | hin
      · obtain ⟨e, he⟩ : ∃ e, (endIf camera.1 w.now f).ended = some e := by
          rw [endIf]
          split_ifs with hrunning
          · exact ⟨_, rfl⟩
          · rw [RecordedFile.running, heq] at hrunning
            simpa [Option.ne_none_iff_exists'] using hrunning
        rw [hon.ended e he, he]
        rfl
      · exact hends (hfirst.cameraAlias ▸ hin)

/-- A deletion that had the cameras stopped before it read the others' windows knows enough of every file there is. -/
theorem knows_of_synced (h : w.Inv) (hidle : recordingSessionActive w.db = false) {reached : List (String × Bool)}
    (hall : ∀ f ∈ w.files, f.cameraAlias ∈ reached.map Prod.fst) (hat : w.now ≤ d.readAt) :
    ∀ f ∈ (w.sync reached).files, d.knows f = true := by
  intro f' hf'
  obtain ⟨f, hf, -, hends⟩ := sync_ends hidle f' hf'
  obtain ⟨e, he⟩ := Option.isSome_iff_exists.mp (hends (hall f hf))
  have hle := (((h.sync reached).clocked f' hf').ended e he).2
  rw [(sync_frame w reached).1] at hle
  simp [Deletion.knows, he, hle.trans hat]

theorem clocked_later {now' : ℤ} (h : Clocked now f) (hc : now ≤ now') : Clocked now' f where
  written := ⟨h.written.1, h.written.2.1, h.written.2.2.trans hc⟩
  ended e he := ⟨(h.ended e he).1, (h.ended e he).2.trans hc⟩

/-- A step of a deletion that reads nothing of the Sessions. -/
theorem Inv.goes (h : w.Inv) (hd : w.deletions[k]? = some d) (configPaths : Option ConfigPaths) {stage : Stage}
    (hread : stage.hasRead = true → d.stage.hasRead = true)
    (hjudged : Judged w.files (w.deletions.set k { d with configPaths, stage })) :
    Inv { w with deletions := w.deletions.set k { d with configPaths, stage } } :=
  ⟨h.read.goes hd configPaths hread, h.clocked, h.names, hjudged⟩

private theorem asks_iff : w.asks a = true ↔ w.now ≤ a.now₁ ∧ a.now₁ ≤ a.now₂ ∧ (∀ id, a.request ≠ .delete id) ∧
    ∀ id body, a.request = .create id body → ∀ d ∈ w.deletions, d.sessionId ≠ id := by
  obtain ⟨request, now₁, now₂⟩ := a
  cases request <;> simp [asks, and_assoc]

theorem Inv.ticks (h : w.Inv) {now : ℤ} (hle : w.now ≤ now) : Inv { w with now } :=
  ⟨h.read.later hle, fun f hf => clocked_later (h.clocked f hf) hle, h.names, h.judged⟩

theorem Inv.asked (h : w.Inv) (hasks : w.asks a = true) : Inv { w with now := a.now₂, db := (a.answer w.db).2 } := by
  obtain ⟨hc, hnow, hdelete, hfresh⟩ := asks_iff.mp hasks
  exact ⟨h.read.asked hc hnow hdelete hfresh, fun f hf => clocked_later (h.clocked f hf) (hc.trans hnow), h.names,
    h.judged⟩

/-- A file that starts has a name of its own. -/
theorem Inv.starts (h : w.Inv) {cameraAlias : String} (hfresh : ∀ f ∈ w.files, f.name ≠ (cameraAlias, w.now)) :
    Inv { w with files := w.files ++ [⟨cameraAlias, w.now, w.now, none, true⟩] } := by
  refine ⟨h.read, fun f hf => ?_, ?_, h.judged.started h.read hfresh⟩
  · rcases List.mem_append.mp hf with hf | hf
    · exact h.clocked f hf
    · rw [List.mem_singleton.mp hf]
      refine ⟨⟨le_refl _, ?_, le_refl _⟩, nofun⟩
      show w.now ≤ w.now + Recordings.segment
      unfold Recordings.segment
      omega
  · rw [List.map_append, List.nodup_append]
    refine ⟨h.names, List.nodup_singleton _, fun name hname name' hname' => ?_⟩
    obtain ⟨f, hf, rfl⟩ := List.mem_map.mp hname
    rw [List.mem_singleton.mp hname']
    exact hfresh f hf

theorem Inv.syncs (h : w.Inv) (hd : w.deletions[k]? = some d) (hs : d.stage = .committed)
    (reached : List (String × Bool)) : Inv ((w.sync reached).goes k d .synced) := by
  have hinv := h.sync reached
  rw [← (sync_frame w reached).2] at hd
  exact hinv.goes hd d.configPaths nofun (hinv.judged.goes hd rfl (by rw [hs]; nofun) nofun)

/-- What it looks at next it knows enough of. -/
theorem Inv.looks (h : w.Inv) (hknown : w.known (.looks k) = true) (hd : w.deletions[k]? = some d)
    {file : FileName} {left : List FileName} (hs : d.stage = .scanning (file :: left)) :
    Inv (w.goes k d (if w.takes d file then .removing file left else .scanning left)) := by
  have hknows : ∀ f ∈ w.files, f.name = file → f.present = true → d.knows f = true := by
    intro f hf hname hpresent
    simp only [known, hd, hs, List.all_eq_true] at hknown
    simpa [hname, hpresent] using hknown f hf
  exact h.goes hd d.configPaths (fun _ => by rw [hs]; rfl) (Judged.looks h hd hs hknows)

theorem Inv.unlinks (h : w.Inv) (hd : w.deletions[k]? = some d) {file : FileName} {left : List FileName}
    (hs : d.stage = .removing file left) :
    Inv { w.goes k d (.scanning left) with files := w.files.map (unlink file) } := by
  have hclocked : ∀ f ∈ w.files, Clocked w.now (unlink file f) := by
    intro f hf
    rcases unlink_cases file f with ⟨heq, -⟩ | ⟨heq, -⟩ <;> rw [heq]
    · exact h.clocked f hf
    · exact ⟨(h.clocked f hf).written, (h.clocked f hf).ended⟩
  refine ⟨h.read.goes hd d.configPaths (fun _ => by rw [hs]; rfl), fun f' hf' => ?_, ?_, h.judged.unlinks hd hs⟩
  · obtain ⟨f, hf, rfl⟩ := List.mem_map.mp hf'
    exact hclocked f hf
  · exact (map_unlink_name file).symm ▸ h.names

theorem Inv.fails (h : w.Inv) (hd : w.deletions[k]? = some d) (hread : d.stage.hasRead = true) :
    Inv (w.goes k d .failed) :=
  h.goes hd d.configPaths (fun _ => hread) (h.judged.goes hd rfl (fun _ => rfl) nofun)

theorem Inv.step (h : w.Inv) {a : Act} (hknown : w.known a = true) (hstep : w.step a = some w') : w'.Inv := by
  cases a with
  | tick now =>
    simp only [World.step] at hstep
    split_ifs at hstep with hle
    cases hstep
    exact h.ticks hle
  | ask a =>
    simp only [World.step] at hstep
    split_ifs at hstep with hasks
    cases hstep
    exact h.asked hasks
  | sync reached =>
    cases hstep
    exact h.sync reached
  | start cameraAlias =>
    simp only [World.step] at hstep
    split_ifs at hstep with hstart
    cases hstep
    rw [Bool.and_eq_true, List.all_eq_true] at hstart
    refine h.starts fun f hf => ?_
    have hp := hstart.2 f hf
    rw [Bool.and_eq_true, decide_eq_true_eq] at hp
    exact hp.2
  | write cameraAlias =>
    simp only [World.step] at hstep
    split_ifs at hstep with hall
    cases hstep
    rw [List.all_eq_true] at hall
    refine h.onward (g := writeIf cameraAlias w.now) (fun f hf => onward_writeIf (h.clocked f hf).written.2.2)
      (fun f hf => clocked_writeIf (h.clocked f hf) fun hrunning => ?_) w.record
    simpa [hrunning] using hall f hf
  | stop cameraAlias =>
    cases hstep
    exact h.onward (g := endIf cameraAlias w.now) (fun f _ => onward_endIf cameraAlias w.now f)
      (fun f hf => clocked_endIf cameraAlias (h.clocked f hf)) w.record
  | commit sessionId =>
    simp only [World.step] at hstep
    split at hstep
    · cases hstep
    · next windows db hdeleted =>
      cases hstep
      exact ⟨h.read.committed hdeleted, h.clocked, h.names, h.judged.committed⟩
  | syncs k reached =>
    obtain ⟨d, hd, hstep⟩ := Option.bind_eq_some_iff.mp hstep
    split_ifs at hstep with hs
    cases hstep
    exact h.syncs hd hs reached
  | reads k =>
    obtain ⟨d, hd, hstep⟩ := Option.bind_eq_some_iff.mp hstep
    split_ifs at hstep with hs
    cases hstep
    exact ⟨h.read.reads (d := d) hd, h.clocked, h.names, h.judged.set hd nofun nofun (by rw [hs]; nofun) nofun⟩
  | scans k configPaths listed =>
    obtain ⟨d, hd, hstep⟩ := Option.bind_eq_some_iff.mp hstep
    split_ifs at hstep with hs
    cases hstep
    rw [Bool.and_eq_true, decide_eq_true_eq, List.isPerm_iff] at hs
    exact h.goes hd configPaths (by rw [hs.1]; exact id) (h.judged.scans hd fun name => hs.2.mem_iff)
  | looks k =>
    obtain ⟨d, hd, hstep⟩ := Option.bind_eq_some_iff.mp hstep
    split at hstep
    · next file left hs =>
      cases hstep
      exact h.looks hknown hd hs
    · cases hstep
  | unlinks k =>
    obtain ⟨d, hd, hstep⟩ := Option.bind_eq_some_iff.mp hstep
    split at hstep
    · next file left hs =>
      cases hstep
      exact h.unlinks hd hs
    · cases hstep
  | finishes k =>
    obtain ⟨d, hd, hstep⟩ := Option.bind_eq_some_iff.mp hstep
    split_ifs at hstep with hs
    cases hstep
    exact h.goes hd d.configPaths (by rw [hs]; exact id) (h.judged.goes hd rfl (fun _ => rfl) fun _ => hs)
  | fails k =>
    obtain ⟨d, hd, hstep⟩ := Option.bind_eq_some_iff.mp hstep
    split at hstep
    · next hs =>
      cases hstep
      exact h.fails hd (by rw [hs]; rfl)
    · next hs =>
      cases hstep
      exact h.fails hd (by rw [hs]; rfl)
    · next hs =>
      cases hstep
      exact h.fails hd (by rw [hs]; rfl)
    · cases hstep

theorem Inv.run (h : w.Inv) {acts : List Act} (hknown : w.AllKnown acts) (hrun : w.run acts = some w') : w'.Inv :=
  ConditionalRuns.runTaken_keeps (fun _ _ _ h hknown hstep => h.step hknown hstep) h hknown hrun

theorem inv_empty (now : ℤ) (cameras : List Camera) (record : List String) : (empty now cameras record).Inv where
  read := ⟨⟨List.Pairwise.nil, rfl, nofun, nofun, nofun⟩, nofun, nofun, nofun, nofun⟩
  clocked := nofun
  names := List.nodup_nil
  judged := ⟨nofun, nofun, nofun, nofun⟩

/-- No file removed is in what a remaining Session recorded. -/
def Keeps (w : World) : Prop :=
  ∀ f ∈ w.files, f.present = false → ∀ s ∈ w.db.sessions,
    overlapping (recordedWindows w.now s.recordingIntervals) f = false

/-- A file is gone once every Session that recorded it is deleted and the deletions have finished, each with its
folder known to be a camera's. -/
def Goes (w : World) : Prop :=
  ∀ f ∈ w.files, (∃ d ∈ w.deletions, overlapping d.windows f = true) →
    (∀ d ∈ w.deletions, overlapping d.windows f = true →
      d.stage = .finished ∧ cameraFolder d.configPaths f.cameraAlias = true) →
    (∀ s ∈ w.db.sessions, overlapping (recordedWindows w.now s.recordingIntervals) f = false) → f.present = false

theorem Inv.keeps (h : w.Inv) : w.Keeps := by
  intro f hf hpresent s hs
  obtain ⟨d, hd, hread, ⟨e, he, hle⟩, hbegan, hothers⟩ := h.judged.removed f hf hpresent
  by_contra hover
  obtain ⟨window, hwindow, hfrom, hto⟩ := overlapping_iff.mp (by simpa using hover)
  obtain ⟨i, hi, rfl⟩ := List.mem_map.mp hwindow
  have hwritten := ((h.clocked f hf).ended e he).1
  rcases h.read.covered d hd hread s hs i hi with hlate | ⟨o, ho, hstart, hend⟩
  · exact absurd hto (not_lt.mpr (hwritten.trans (hle.trans hlate)))
  · have hnot : ¬ f.began < o.2 := by
      intro hlt
      have hin : overlapping d.otherWindows f = true := overlapping_iff.mpr ⟨o, ho, hlt, hstart ▸ hto⟩
      rw [hothers] at hin
      cases hin
    rcases hend with hclosed | hopen
    · simp only [hclosed, Option.getD_some] at hfrom
      exact hnot hfrom
    · exact hnot (hopen ▸ hbegan)

/-- A file that is there was recorded by a Session that is there, or by one deleted later. -/
theorem Inv.goes_on (h : w.Inv) (hf : f ∈ w.files) (hpresent : f.present = true)
    (hfinished : ∀ d ∈ w.deletions, overlapping d.windows f = true →
      d.stage = .finished ∧ cameraFolder d.configPaths f.cameraAlias = true)
    (hsessions : ∀ s ∈ w.db.sessions, overlapping (recordedWindows w.now s.recordingIntervals) f = false)
    (hd : w.deletions[k]? = some d) (hover : overlapping d.windows f = true) :
    ∃ j, k < j ∧ ∃ d, w.deletions[j]? = some d ∧ overlapping d.windows f = true := by
  have hmem := List.mem_of_getElem? hd
  obtain ⟨hstage, hfolder⟩ := hfinished d hmem hover
  obtain ⟨window, hwindow, hbegan, -⟩ := overlapping_iff.mp hover
  rcases h.judged.left d hmem (by rw [hstage]; rfl) f hf hpresent (by rw [hstage]; exact List.not_mem_nil) hfolder with
    hlate | hothers | ⟨-, hnot⟩
  · exact absurd hbegan (not_lt.mpr (hlate window hwindow))
  · obtain ⟨o, ho, hfrom, hto⟩ := overlapping_iff.mp hothers
    rcases h.read.backed k d hd o ho with ⟨s, hs, i, hi, hstart, hend⟩ | ⟨j, hj, e, he, other, hother, hstart, hend⟩
    · have hin : overlapping (recordedWindows w.now s.recordingIntervals) f = true :=
        overlapping_iff.mpr ⟨_, List.mem_map_of_mem hi, hfrom.trans_le hend, hstart.symm ▸ hto⟩
      rw [hsessions s hs] at hin
      cases hin
    · exact ⟨j, hj, e, he, overlapping_iff.mpr ⟨other, hother, hfrom.trans_le hend, hstart.symm ▸ hto⟩⟩
  · rw [hover] at hnot
    cases hnot

theorem Inv.goes_all (h : w.Inv) : w.Goes := by
  intro f hf ⟨d, hd, hover⟩ hfinished hsessions
  by_contra hpresent
  rw [Bool.not_eq_false] at hpresent
  have hlater : ∀ n : ℕ, ∃ k : ℕ, n ≤ k ∧ ∃ d : Deletion, w.deletions[k]? = some d ∧ overlapping d.windows f = true := by
    intro n
    induction n with
    | zero =>
      obtain ⟨k, hk⟩ := List.mem_iff_getElem?.mp hd
      exact ⟨k, Nat.zero_le k, d, hk, hover⟩
    | succ n ih =>
      obtain ⟨k, hn, d, hd, hover⟩ := ih
      obtain ⟨j, hj, hrest⟩ := h.goes_on hf hpresent hfinished hsessions hd hover
      exact ⟨j, by omega, hrest⟩
  obtain ⟨k, hk, d, hd, -⟩ := hlater w.deletions.length
  have hlt := (List.getElem?_eq_some_iff.mp hd).1
  omega

/-- Video goes with the last Session that recorded it, and no other's goes, where the deletions know enough of the
files they look at. -/
theorem video_goes_with_the_last {now : ℤ} {cameras : List Camera} {record : List String} {acts : List Act}
    (hrun : (empty now cameras record).run acts = some w)
    (hknown : (empty now cameras record).AllKnown acts) : w.Keeps ∧ w.Goes := by
  have h := (inv_empty now cameras record).run hknown hrun
  exact ⟨h.keeps, h.goes_all⟩

/-- One segment that two Sessions share: it stays when the first is deleted, and goes with the second. -/
def shared : List Act := [
  .ask ⟨.create 1 ⟨"a", true, none⟩, 10, 10⟩, .sync [("cam1", true)], .start "cam1", .tick 30, .write "cam1",
  .ask ⟨.update 1 ⟨none, some .completed, none⟩, 40, 40⟩, .ask ⟨.create 2 ⟨"b", true, none⟩, 41, 41⟩,
  .tick 43, .write "cam1",
  .commit 1, .syncs 0 [("cam1", true)], .reads 0, .scans 0 (some ⟨[], [], false⟩) [("cam1", 10)], .looks 0,
  .finishes 0, .tick 50,
  .commit 2, .syncs 1 [("cam1", true)], .reads 1, .scans 1 (some ⟨[], [], false⟩) [("cam1", 10)], .looks 1,
  .unlinks 1, .finishes 1]

theorem video_goes_with_the_last_shared : ∃ w, (empty 0 [] []).run shared = some w ∧
    (w.Keeps ∧ w.Goes) ∧ w.files.map (·.present) = [false] := by
  obtain ⟨w, hw⟩ := Option.isSome_iff_exists.mp (show ((empty 0 [] []).run shared).isSome by decide)
  have hgone : ∀ w ∈ (empty 0 [] []).run shared, w.files.map (·.present) = [false] := by decide
  exact ⟨w, hw, video_goes_with_the_last hw (by decide), hgone w hw⟩

instance : Decidable w.Keeps := by
  unfold Keeps
  infer_instance

/-- MediaMTX is not reached, and goes on writing the file that the deletion removes. -/
def unreached : List Act := [
  .ask ⟨.create 1 ⟨"a", true, none⟩, 10, 10⟩, .sync [("cam1", true)], .start "cam1", .tick 20, .write "cam1",
  .commit 1, .syncs 0 [], .reads 0, .scans 0 (some ⟨[], [], false⟩) [("cam1", 10)], .looks 0, .unlinks 0,
  .finishes 0,
  .ask ⟨.create 2 ⟨"b", true, none⟩, 30, 30⟩, .tick 40, .write "cam1"]

theorem video_of_another_removed : ∃ w, (empty 0 [] []).run unreached = some w ∧ ¬ w.Keeps := by
  obtain ⟨w, hw⟩ := Option.isSome_iff_exists.mp (show ((empty 0 [] []).run unreached).isSome by decide)
  have hlost : ∀ w ∈ (empty 0 [] []).run unreached, ¬ w.Keeps := by decide
  exact ⟨w, hw, hlost w hw⟩

end World
end Kanat.RecordedFiles
