import Kanat.DetectionSync

/-! # The backend's requests and ticks over one database and one memory

The world is the database's Sessions, the Detection Service's Run and the memory; a thread's next call is answered in
it, as a `Choice` leaves open. The lemmas say which call touches which part. -/
namespace Kanat.DetectionSync
open ResumptionPrograms InterleavedThreads

variable {Id : Type} [DecidableEq Id]

structure Db (Id : Type) where
  cameras : List (Camera Id)
  sessions : List (Session Id)

namespace Db

def session (db : Db Id) (id : Id) : Option (Session Id) :=
  db.sessions.find? fun session => session.id = id

def Active (db : Db Id) (id : Id) : Prop :=
  ∃ session ∈ db.session id, session.status = .active

instance (db : Db Id) (id : Id) : Decidable (db.Active id) :=
  inferInstanceAs (Decidable (∃ session ∈ db.session id, session.status = .active))

def listActive (db : Db Id) : List (Session Id) :=
  db.sessions.filter fun session => session.status = .active

/-- Is another Session active? -/
def anotherIsActive (db : Db Id) (id : Id) : Bool :=
  db.listActive.any fun session => session.id ≠ id

/-- `update_session` up to its commit, its row locked from its read on. -/
def save (db : Db Id) (id : Id) (status : Option Status) : Except (Exn Id) (Db Id) :=
  match db.session id with
  | none => .error (.http 404)
  | some row =>
      if status = some .active ∧ row.status ≠ .active ∧ db.anotherIsActive id then
        .error (.http 409)
      else
        .ok { db with
          sessions := db.sessions.map fun session =>
            if session.id = id then { session with status := status.getD session.status }
            else session }

def delete (db : Db Id) (id : Id) : Except (Exn Id) (Db Id) :=
  match db.session id with
  | none => .error (.http 404)
  | some _ => .ok { db with sessions := db.sessions.filter fun session => session.id ≠ id }

def add (db : Db Id) (id : Id) (camera : Option Id) : Except (Exn Id) (Db Id) :=
  if db.listActive ≠ [] then .error (.http 409)
  else if ∃ c ∈ camera, ¬∃ row ∈ db.cameras, row.id = c ∧ row.enabled then .error (.http 422)
  else .ok { db with
    sessions := db.sessions ++ [{ id := id, status := .active, camera := camera }] }

end Db

structure World (Id : Type) where
  memory : Memory Id
  clock : ℚ
  db : Db Id

/-- What an answer or a change from outside leaves open. -/
inductive Choice (Id : Type) where
  | done
  | raises (e : Exn Id)
  | commitsThenRaises (e : Exn Id)
  | run (run : Option (Run Id))
  | created (id : Id)
  | later (seconds : ℚ)
  | camera (camera : Camera Id)
  | noCamera (camera : Id)

/-- A read of the database, or its failure. -/
def read {α : Type} (w : World Id) (a : α) : Choice Id → Option (Except (Exn Id) α × World Id)
  | .done => some (.ok a, w)
  | .raises e => some (.error e, w)
  | _ => none

/-- A write of the database, which may fail before its commit or after it. -/
def write {α : Type} (w : World Id) (a : α) (committed : Except (Exn Id) (Db Id)) :
    Choice Id → Option (Except (Exn Id) α × World Id)
  | .raises e => some (.error e, w)
  | .commitsThenRaises e => committed.toOption.map fun db => (.error e, { w with db := db })
  | .done | .created _ =>
      match committed with
      | .ok db => some (.ok a, { w with db := db })
      | .error e => some (.error e, w)
  | _ => none

/-- A new Session's id is one that nothing has named yet. -/
def World.Fresh (w : World Id) (id : Id) : Prop :=
  (∀ session ∈ w.db.sessions, session.id ≠ id) ∧ w.memory.states.get id = none ∧
    id ∉ w.memory.watched

instance (w : World Id) (id : Id) : Decidable (w.Fresh id) :=
  inferInstanceAs (Decidable (_ ∧ _ ∧ _))

def answer (w : World Id) : (o : Op Id) → Choice Id → Option (Ans Id o × World Id)
  | .status, .run run => some (.ok run, w)
  | .status, .raises e => some (.error e, w)
  | .startRun .., .run (some run) => some (.ok run, w)
  | .startRun .., .raises e => some (.error e, w)
  | .endRun _, .run run => some (.ok run, w)
  | .endRun _, .raises e => some (.error e, w)
  | .storeRun .., .done => some ((), w)
  | .follow .., .done => some ((), w)
  | .set session detection onlyFrom, .done =>
      let changed := w.memory.set w.clock session detection onlyFrom
      some (changed.1, { w with memory := changed.2 })
  | .stateOf session, .done => some (w.memory.stateOf session, w)
  | .inStates session, .done => some ((w.memory.states.get session).isSome, w)
  | .discardWatched session, .done =>
      let memory := { w.memory with watched := w.memory.watched.erase session }
      some ((), { w with memory := memory })
  | .lockedRead activeIds, .done =>
      some ((w.memory.ended activeIds, w.memory.stuck w.clock), w)
  | .listCameras, choice => read w w.db.cameras choice
  | .listActive, choice => read w w.db.listActive choice
  | .getSession session, choice => read w (w.db.session session) choice
  | .readSession session, choice => read w (w.db.session session) choice
  | .sessionDetail session, choice =>
      if (w.db.session session).isSome then read w () choice
      else some (.error (.http 404), w)
  | .cameraAlias camera, choice =>
      match w.db.cameras.find? fun c => c.id = camera with
      | some c => read w c.aliasName choice
      | none => some (.error (.http 404), w)
  | .addSession camera, .created id =>
      if w.Fresh id then
        write w { id := id, status := .active, camera := camera } (w.db.add id camera) (.created id)
      else none
  | .addSession _, .raises e => some (.error e, w)
  | .saveSession session status, choice => write w () (w.db.save session status) choice
  | .deleteSession session, choice => write w () (w.db.delete session) choice
  | _, _ => none

/-- Time passes; cameras are added, changed and deleted. -/
def drift (w : World Id) : Choice Id → Option (World Id)
  | .later seconds => if 0 ≤ seconds then some { w with clock := w.clock + seconds } else none
  | .camera camera =>
      let others := w.db.cameras.filter fun c => c.id ≠ camera.id
      some { w with db := { w.db with cameras := others ++ [camera] } }
  | .noCamera camera =>
      some { w with db := {
        cameras := w.db.cameras.filter fun c => c.id ≠ camera
        sessions := w.db.sessions.map fun session =>
          if session.camera = some camera then { session with camera := none } else session } }
  | _ => none

inductive Request (Id : Type) where
  | tick
  | watch (session : Id) (aliasName : String)
  | create (camera : Option Id)
  | update (session : Id) (status : Option Status)
  | delete (session : Id)
deriving DecidableEq

def program : Request Id → M Id (Option (Request Id))
  | .tick => do reconcile; return none
  | .watch session aliasName => do watch session aliasName [.starting]; return none
  | .create camera => do createSession camera; return none
  | .update session status => do updateSession session status; return none
  | .delete session => do deleteSession session; return none

def backend : System (Ans Id) (Exn Id) (World Id) (Request Id) (Choice Id) where
  program := program
  answer := answer
  drift := drift

section
variable {w w' : World Id} {o : Op Id} {choice : Choice Id} {r : Ans Id o} {session id : Id}

omit [DecidableEq Id] in
theorem read_world {α : Type} {a : α} {r : Except (Exn Id) α}
    (h : read w a choice = some (r, w')) : w' = w ∧ ∀ b, r = .ok b → b = a := by
  cases choice <;> simp only [read] at h <;> cases h
  · exact ⟨rfl, fun b hb => (Except.ok.inj hb).symm⟩
  · exact ⟨rfl, nofun⟩

omit [DecidableEq Id] in
theorem write_world {α : Type} {a : α} {committed : Except (Exn Id) (Db Id)}
    {r : Except (Exn Id) α} (h : write w a committed choice = some (r, w')) :
    w'.memory = w.memory ∧ (w'.db = w.db ∧ r.isOk = false ∨ committed = .ok w'.db) := by
  cases choice with
  | raises e =>
    cases h
    exact ⟨rfl, Or.inl ⟨rfl, rfl⟩⟩
  | commitsThenRaises e =>
    obtain ⟨db, hdb, h⟩ := Option.map_eq_some_iff.mp h
    cases h
    cases committed with
    | ok db' =>
      cases hdb
      exact ⟨rfl, Or.inr rfl⟩
    | error e => cases hdb
  | done | created =>
    cases committed with
    | ok db =>
      cases h
      exact ⟨rfl, Or.inr rfl⟩
    | error e =>
      cases h
      exact ⟨rfl, Or.inl ⟨rfl, rfl⟩⟩
  | _ => cases h

theorem answer_set {s : Id} {d : Detection} {f : Option (List DetectionState)} {r : Bool}
    (h : answer w (.set s d f) choice = some (r, w')) :
    r = (w.memory.set w.clock s d f).1 ∧ w'.memory = (w.memory.set w.clock s d f).2 ∧
      w'.db = w.db := by
  cases choice <;> cases h
  exact ⟨rfl, rfl, rfl⟩

theorem answer_discard {s : Id} {r : Unit}
    (h : answer w (.discardWatched s) choice = some (r, w')) :
    w'.memory = { w.memory with watched := w.memory.watched.erase s } ∧ w'.db = w.db := by
  cases choice <;> cases h
  exact ⟨rfl, rfl⟩

theorem answer_add {camera : Option Id} {r : Except (Exn Id) (Session Id)}
    (h : answer w (.addSession camera) choice = some (r, w')) :
    w'.memory = w.memory ∧
      (w'.db = w.db ∨ ∃ id, w.Fresh id ∧ w.db.add id camera = .ok w'.db) := by
  cases choice with
  | raises e =>
    cases h
    exact ⟨rfl, Or.inl rfl⟩
  | created id =>
    change (if w.Fresh id then write w _ (w.db.add id camera) (.created id) else none) = _ at h
    split_ifs at h with hfresh
    obtain ⟨hm, hd⟩ := write_world h
    exact ⟨hm, hd.imp And.left fun hd => ⟨_, hfresh, hd⟩⟩
  | _ => cases h

theorem answer_sessionDetail {r : Except (Exn Id) Unit}
    (h : answer w (.sessionDetail session) choice = some (r, w')) : w' = w := by
  change (if (w.db.session session).isSome then read w () choice else some (.error (.http 404), w)) = _ at h
  split_ifs at h
  · exact (read_world h).1
  · cases h
    rfl

theorem answer_cameraAlias {camera : Id} {r : Except (Exn Id) String}
    (h : answer w (.cameraAlias camera) choice = some (r, w')) : w' = w := by
  change (match w.db.cameras.find? fun c => c.id = camera with
    | some c => read w c.aliasName choice
    | none => some (.error (.http 404), w)) = _ at h
  split at h
  · exact (read_world h).1
  · cases h
    rfl

/-- Only `_set` and a confirmed end touch the memory. -/
theorem memory_of_answer (h : answer w o choice = some (r, w'))
    (hset : ∀ s d f, o ≠ .set s d f) (hdiscard : ∀ s, o ≠ .discardWatched s) :
    w'.memory = w.memory := by
  cases o with
  | set s d f => exact absurd rfl (hset s d f)
  | discardWatched s => exact absurd rfl (hdiscard s)
  | listCameras => rw [(read_world h).1]
  | listActive => rw [(read_world h).1]
  | getSession s => rw [(read_world h).1]
  | readSession s => rw [(read_world h).1]
  | sessionDetail s => rw [answer_sessionDetail h]
  | cameraAlias c => rw [answer_cameraAlias h]
  | addSession c => exact (answer_add h).1
  | saveSession s st => exact (write_world h).1
  | deleteSession s => exact (write_world h).1
  | _ => cases choice with
    | run run => cases run <;> cases h <;> rfl
    | _ => cases h <;> rfl

/-- Only a request's commit touches the database. -/
theorem db_of_answer (h : answer w o choice = some (r, w')) (hadd : ∀ c, o ≠ .addSession c)
    (hsave : ∀ s st, o ≠ .saveSession s st) (hdelete : ∀ s, o ≠ .deleteSession s) :
    w'.db = w.db := by
  cases o with
  | set s d f => exact (answer_set h).2.2
  | discardWatched s => exact (answer_discard h).2
  | listCameras => rw [(read_world h).1]
  | listActive => rw [(read_world h).1]
  | getSession s => rw [(read_world h).1]
  | readSession s => rw [(read_world h).1]
  | sessionDetail s => rw [answer_sessionDetail h]
  | cameraAlias c => rw [answer_cameraAlias h]
  | addSession c => exact absurd rfl (hadd c)
  | saveSession s st => exact absurd rfl (hsave s st)
  | deleteSession s => exact absurd rfl (hdelete s)
  | _ => cases choice with
    | run run => cases run <;> cases h <;> rfl
    | _ => cases h <;> rfl

namespace Db
variable {db db' : Db Id} {status : Option Status}

theorem session_map {rows : List (Session Id)} {f : Session Id → Session Id}
    (hf : ∀ row, (f row).id = row.id) :
    ((rows.map f).find? fun row => row.id = id) = (rows.find? fun row => row.id = id).map f := by
  simp only [List.find?_map, Function.comp_def, hf]

/-- What a saved row reads. -/
theorem session_save (h : db.save session status = .ok db') (id : Id) :
    db'.session id = (db.session id).map fun row =>
      if row.id = session then { row with status := status.getD row.status } else row := by
  unfold save at h
  split at h
  · cases h
  · split_ifs at h
    cases h
    exact session_map fun row => by split_ifs <;> rfl

theorem id_of_session {row : Session Id} (h : db.session id = some row) : row.id = id := by
  simpa using List.find?_some h

theorem active_save_of_ne (h : db.save session status = .ok db') (hne : id ≠ session) :
    db'.Active id ↔ db.Active id := by
  unfold Active
  rw [session_save h]
  cases hrow : db.session id with
  | none => simp
  | some row => simp [id_of_session hrow, hne]

theorem not_active_save_completed (h : db.save session (some .completed) = .ok db') :
    ¬db'.Active session := by
  unfold Active
  rw [session_save h]
  cases hrow : db.session session with
  | none => simp
  | some row => simp [id_of_session hrow]

theorem active_save_none (h : db.save session none = .ok db') : db'.Active id ↔ db.Active id := by
  unfold Active
  rw [session_save h]
  cases hrow : db.session id <;> simp

theorem session_delete (h : db.delete session = .ok db') (id : Id) :
    db'.session id = if id = session then none else db.session id := by
  unfold delete at h
  split at h
  · cases h
  · cases h
    simp only [Db.session, List.find?_filter]
    split_ifs with hid
    · subst hid
      simp
    · congr 1
      funext row
      by_cases hrow : row.id = id
      · simp [hrow, hid]
      · simp [hrow]

theorem not_active_delete (h : db.delete session = .ok db') : ¬db'.Active session := by
  simp [Active, session_delete h]

theorem active_delete_of_ne (h : db.delete session = .ok db') (hne : id ≠ session) :
    db'.Active id ↔ db.Active id := by
  simp [Active, session_delete h, hne]

private theorem session_add {camera : Option Id} (h : db.add session camera = .ok db') (id : Id) :
    db'.session id = (db.session id).or
      (if id = session then some { id := session, status := .active, camera := camera }
        else none) := by
  unfold add at h
  split_ifs at h
  cases h
  simp only [Db.session, List.find?_append, List.find?_singleton, decide_eq_true_eq]
  simp only [eq_comm (a := id)]

theorem active_add_of_ne {camera : Option Id} (h : db.add session camera = .ok db')
    (hne : id ≠ session) : db'.Active id ↔ db.Active id := by
  simp [Active, session_add h, hne]

end Db

end

theorem active_of_drift {w w' : World Id} {choice : Choice Id} (h : drift w choice = some w')
    (id : Id) : w'.db.Active id ↔ w.db.Active id := by
  cases choice <;> simp only [drift] at h <;> try cases h
  · split_ifs at h
    cases h
    rfl
  · rfl
  · simp only [Db.Active, Db.session]
    rw [Db.session_map fun row => by split_ifs <;> rfl]
    cases List.find? _ _ with
    | none => simp
    | some row =>
      simp only [Option.map_some, Option.mem_some_iff, exists_eq_left']
      split_ifs <;> rfl

theorem memory_of_drift {w w' : World Id} {choice : Choice Id} (h : drift w choice = some w') :
    w'.memory = w.memory := by
  cases choice <;> simp only [drift] at h <;> try cases h
  · split_ifs at h
    cases h
    rfl
  · rfl
  · rfl

end Kanat.DetectionSync
