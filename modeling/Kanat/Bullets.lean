import Mathlib.Data.List.Nodup

/-! # Bullet Holes stored by the backend

`services/bullets.py` over `repositories/bullets.py`, each request whole under its Session's row lock. -/
namespace Kanat.Bullets

abbrev Uuid := ℕ

inductive SessionStatus where
  | active | completed
  deriving DecidableEq

inductive Source where
  | model | manual
  deriving DecidableEq

/-- `Seen` is when and where: first seen at, position, target, millimetres. -/
structure BulletCreate (Key Seen : Type) where
  source : Source
  idempotencyKey : Option Key
  seen : Seen
  deriving DecidableEq

structure BulletHole (Key Seen : Type) where
  id : Uuid
  sessionId : Uuid
  seen : Seen
  source : Source
  idempotencyKey : Option Key
  rank : ℕ
  deletedAt : Option ℕ
  deriving DecidableEq

structure HTTPException where
  statusCode : ℕ
  detail : String
  deriving DecidableEq

/-- What a request may raise; `integrityError` is the unique index's refusal, a 500. -/
inductive Failure where
  | http (e : HTTPException)
  | integrityError
  deriving DecidableEq

structure Database (Key Seen : Type) where
  status : Uuid → Option SessionStatus
  bulletHoles : List (BulletHole Key Seen)

variable {Key Seen : Type}

def BulletHole.activeIn (sessionId : Uuid) (b : BulletHole Key Seen) : Bool :=
  b.sessionId = sessionId ∧ b.deletedAt.isNone

namespace Database

def findByIdempotencyKey [DecidableEq Key] (db : Database Key Seen) (sessionId : Uuid) (key : Key) :
    Option (BulletHole Key Seen) :=
  db.bulletHoles.find? fun b => b.idempotencyKey = some key ∧ b.sessionId = sessionId

/-- The Session's Bullet Holes that are not deleted. -/
def current (db : Database Key Seen) (sessionId : Uuid) : List (BulletHole Key Seen) :=
  db.bulletHoles.filter (BulletHole.activeIn sessionId)

def countActive (db : Database Key Seen) (sessionId : Uuid) : ℕ :=
  (db.current sessionId).length

def getActive (db : Database Key Seen) (sessionId bulletId : Uuid) : Option (BulletHole Key Seen) :=
  db.bulletHoles.find? fun b => b.id = bulletId ∧ b.activeIn sessionId

def softDelete (db : Database Key Seen) (bulletId : Uuid) (now : ℕ) : Database Key Seen :=
  { db with bulletHoles := db.bulletHoles.map fun b =>
      if b.id = bulletId then { b with deletedAt := some now } else b }

def moveUpAfter (db : Database Key Seen) (sessionId : Uuid) (rank : ℕ) : Database Key Seen :=
  { db with bulletHoles := db.bulletHoles.map fun b =>
      if b.activeIn sessionId ∧ rank < b.rank then { b with rank := b.rank - 1 } else b }

/-- `uq_bullet_holes_session_idempotency_key` refuses it; null keys do not clash. -/
def clashes [DecidableEq Key] (db : Database Key Seen) (bullet : BulletHole Key Seen) : Bool :=
  db.bulletHoles.any fun b =>
    b.idempotencyKey.isSome ∧ b.idempotencyKey = bullet.idempotencyKey ∧ b.sessionId = bullet.sessionId

def add [DecidableEq Key] (db : Database Key Seen) (bullet : BulletHole Key Seen) :
    Except Failure (BulletHole Key Seen × Database Key Seen) :=
  if db.clashes bullet then .error .integrityError
  else .ok (bullet, { db with bulletHoles := db.bulletHoles ++ [bullet] })

end Database

def sessionNotFound : Failure := .http ⟨404, "Session not found"⟩

/-- The checks before anything is looked up or stored. -/
def accept : Option SessionStatus → Source → Except Failure Unit
  | none, _ => .error sessionNotFound
  | some .completed, .model =>
    .error (.http ⟨409, "Session is completed; model cannot add bullets to a closed session"⟩)
  | some .active, .manual =>
    .error (.http
      ⟨409, "Session is still active; manual bullets can only be added after the session ends"⟩)
  | some .active, .model => .ok ()
  | some .completed, .manual => .ok ()

def newBullet (id sessionId : Uuid) (body : BulletCreate Key Seen) (db : Database Key Seen) :
    BulletHole Key Seen where
  id
  sessionId
  seen := body.seen
  source := body.source
  idempotencyKey := body.idempotencyKey
  rank := db.countActive sessionId + 1
  deletedAt := none

/-- `id` is the `uuid4` drawn for the row, should one be stored. -/
def createBullet [DecidableEq Key] (id sessionId : Uuid) (body : BulletCreate Key Seen)
    (db : Database Key Seen) : Except Failure (BulletHole Key Seen × Database Key Seen) := do
  accept (db.status sessionId) body.source
  match body.idempotencyKey.bind (db.findByIdempotencyKey sessionId) with
  -- the model retried a POST whose answer it did not get
  | some dup => return (dup, db)
  | none => db.add (newBullet id sessionId body db)

def deleteBullet (sessionId bulletId : Uuid) (now : ℕ) (db : Database Key Seen) :
    Except Failure (Database Key Seen) :=
  match db.status sessionId, db.getActive sessionId bulletId with
  | none, _ => .error sessionNotFound
  | some _, none => .error (.http ⟨404, "Bullet hole not found"⟩)
  | some _, some bullet =>
    .ok ((db.softDelete bulletId now).moveUpAfter sessionId bullet.rank)

section
variable [DecidableEq Key] {id sessionId bulletId : Uuid} {now : ℕ} {key : Key}
  {body : BulletCreate Key Seen} {db db' : Database Key Seen} {b : BulletHole Key Seen}

private theorem of_findByIdempotencyKey (h : db.findByIdempotencyKey sessionId key = some b) :
    b ∈ db.bulletHoles ∧ b.idempotencyKey = some key ∧ b.sessionId = sessionId := by
  have hb := List.find?_some h
  simp only [decide_eq_true_eq] at hb
  exact ⟨List.mem_of_find?_eq_some h, hb⟩

theorem findByIdempotencyKey_eq_none : db.findByIdempotencyKey sessionId key = none ↔
    ∀ b ∈ db.bulletHoles, b.sessionId = sessionId → b.idempotencyKey ≠ some key := by
  simp only [Database.findByIdempotencyKey, List.find?_eq_none, decide_eq_true_eq, not_and]
  exact forall₂_congr fun b _ => ⟨fun h hs hk => h hk hs, fun h hk hs => h hs hk⟩

private theorem add_ok {r : BulletHole Key Seen × Database Key Seen} (h : db.add b = .ok r) :
    r = (b, { db with bulletHoles := db.bulletHoles ++ [b] }) := by
  rw [Database.add] at h
  split at h
  · cases h
  · exact (Except.ok.inj h).symm

/-- A request answered with a Bullet Hole found it stored, or stored it. -/
theorem createBullet_ok (h : createBullet id sessionId body db = .ok (b, db')) :
    (db' = db ∧ body.idempotencyKey.bind (db.findByIdempotencyKey sessionId) = some b) ∨
      (body.idempotencyKey.bind (db.findByIdempotencyKey sessionId) = none ∧
        b = newBullet id sessionId body db ∧
        db' = { db with bulletHoles := db.bulletHoles ++ [b] }) := by
  rw [createBullet] at h
  cases haccept : accept (db.status sessionId) body.source with
  | error e => rw [haccept] at h; cases h
  | ok u =>
    rw [haccept] at h
    cases hdup : body.idempotencyKey.bind (db.findByIdempotencyKey sessionId) with
    | some dup =>
      rw [hdup] at h
      cases h
      exact .inl ⟨rfl, rfl⟩
    | none =>
      rw [hdup] at h
      cases add_ok (show db.add (newBullet id sessionId body db) = .ok (b, db') from h)
      exact .inr ⟨rfl, rfl, rfl⟩

/-- The Bullet Hole answered is the Session's, under the key of the request. -/
theorem createBullet_mem (h : createBullet id sessionId body db = .ok (b, db')) :
    b ∈ db'.bulletHoles ∧ b.idempotencyKey = body.idempotencyKey ∧ b.sessionId = sessionId := by
  rcases createBullet_ok h with ⟨rfl, hdup⟩ | ⟨-, rfl, rfl⟩
  · obtain ⟨key, hkey, hfind⟩ := Option.bind_eq_some_iff.mp hdup
    obtain ⟨hmem, hb, hs⟩ := of_findByIdempotencyKey hfind
    exact ⟨hmem, hb.trans hkey.symm, hs⟩
  · exact ⟨List.mem_append_right _ (List.mem_singleton_self _), rfl, rfl⟩

omit [DecidableEq Key] in
/-- What a deletion makes of a row. -/
theorem deleteBullet_ok (h : deleteBullet sessionId bulletId now db = .ok db') :
    ∃ bullet ∈ db.current sessionId, bullet.id = bulletId ∧ db'.status = db.status ∧
      db'.bulletHoles = db.bulletHoles.map fun b =>
        if b.id = bulletId then { b with deletedAt := some now }
        else if b.activeIn sessionId ∧ bullet.rank < b.rank then { b with rank := b.rank - 1 }
        else b := by
  rw [deleteBullet] at h
  split at h
  · cases h
  · cases h
  · next bullet _ hget =>
    cases h
    have hb := List.find?_some hget
    simp only [decide_eq_true_eq] at hb
    have hmem := List.mem_of_find?_eq_some hget
    refine ⟨bullet, List.mem_filter.mpr ⟨hmem, hb.2⟩, hb.1, rfl, ?_⟩
    simp only [Database.moveUpAfter, Database.softDelete, List.map_map]
    apply List.map_congr_left
    intro b _
    by_cases hid : b.id = bulletId
    · simp [hid, BulletHole.activeIn]
    · simp [hid]

end
end Kanat.Bullets
