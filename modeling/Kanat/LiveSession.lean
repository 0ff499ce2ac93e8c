import Kanat.Bullets
import Kanat.ConditionalRuns
import Mathlib.Data.List.Sort

/-! # A Session on the screen

The routes of `routers/bullets.py`, the hub's one stream to a window, and what `useSessionLive.ts` does
with it. The database commits of the routes, the reads of them, and what they publish come in any order. -/
namespace Kanat.LiveSession
open Bullets

variable {Key Seen : Type}

structure BulletHoleInSession (Seen : Type) where
  id : Uuid
  sessionId : Uuid
  rank : ℕ
  seen : Seen
  source : Source
  deriving DecidableEq

def modelValidate (b : BulletHole Key Seen) : BulletHoleInSession Seen where
  id := b.id
  sessionId := b.sessionId
  rank := b.rank
  seen := b.seen
  source := b.source

/-- `other` stands for the events that leave the Bullet Holes as they are. -/
inductive LiveEvent (Seen : Type) where
  | bulletCreated (bullet : BulletHoleInSession Seen)
  | bulletDeleted (bulletId : Uuid)
  | other
  deriving DecidableEq

def LiveEvent.created : LiveEvent Seen → Option (BulletHoleInSession Seen)
  | .bulletCreated bullet => some bullet
  | .bulletDeleted _ | .other => none

def upsertBullet (bullets : List (BulletHoleInSession Seen)) (bullet : BulletHoleInSession Seen) :
    List (BulletHoleInSession Seen) :=
  (bullets.filter (·.id ≠ bullet.id) ++ [bullet]).insertionSort (·.rank ≤ ·.rank)

def removeBullet (bullets : List (BulletHoleInSession Seen)) (bulletId : Uuid) :
    List (BulletHoleInSession Seen) :=
  match bullets.find? (·.id = bulletId) with
  | none => bullets
  | some gone => (bullets.filter (·.id ≠ bulletId)).map fun b =>
      if gone.rank < b.rank then { b with rank := b.rank - 1 } else b

def applyEvent (bullets : List (BulletHoleInSession Seen)) :
    LiveEvent Seen → List (BulletHoleInSession Seen)
  | .bulletCreated bullet => upsertBullet bullets bullet
  | .bulletDeleted bulletId => removeBullet bullets bulletId
  | .other => bullets

/-- A request between its commit and its publication. -/
inductive Pending (Seen : Type) where
  /-- Stored, the row not yet read again. -/
  | stored (bulletId : Uuid)
  | publishing (event : LiveEvent Seen)
  deriving DecidableEq

/-- The Session's query: no fetch in flight, one that has not read the database, one that has. -/
inductive Fetch (Seen : Type) where
  | idle
  | unread
  | read (bullets : List (BulletHoleInSession Seen))
  deriving DecidableEq

def Fetch.isFetching : Fetch Seen → Bool
  | .idle => false
  | .unread | .read _ => true

structure World (Key Seen : Type) where
  db : Database Key Seen
  pending : List (Pending Seen)
  /-- Published, not yet applied by the window. -/
  queue : List (LiveEvent Seen)
  /-- The Session's Bullet Holes in the window's query cache. -/
  data : List (BulletHoleInSession Seen)
  fetch : Fetch Seen
  /-- The `reconcileTimer` of a refetch that failed. -/
  retry : Bool

inductive Act (Key Seen : Type) where
  | report (id : Uuid) (body : BulletCreate Key Seen)
  | delete (bulletId : Uuid) (now : ℕ)
  | refresh (n : ℕ)
  | publish (n : ℕ)
  | publishOther
  | deliver
  | opened
  | read
  | answer
  | fail
  | retried

namespace World
variable [DecidableEq Key] (sessionId : Uuid) (w : World Key Seen)

/-- What `GET /sessions/{id}` answers. -/
def stored : List (BulletHoleInSession Seen) :=
  (w.db.current sessionId).map modelValidate

def reconcile : World Key Seen :=
  { w with fetch := .unread, retry := false }

/-- `report_bullet`. A retry's row is published as it is stored: the Session's row, which every write of
its Bullet Holes locks, stays locked until the answer. -/
def reportBullet (id : Uuid) (body : BulletCreate Key Seen) : World Key Seen :=
  match createBullet id sessionId body w.db with
  | .error _ => w
  | .ok (bullet, db) =>
    if bullet.id = id then { w with db, pending := w.pending ++ [.stored id] }
    else { w with db, queue := w.queue ++ [.bulletCreated (modelValidate bullet)] }

def deleteBullet (bulletId : Uuid) (now : ℕ) : World Key Seen :=
  match Bullets.deleteBullet sessionId bulletId now w.db with
  | .error _ => w
  | .ok db => { w with db, pending := w.pending ++ [.publishing (.bulletDeleted bulletId)] }

/-- `onmessage`. -/
def onMessage (event : LiveEvent Seen) (queue : List (LiveEvent Seen)) : World Key Seen :=
  let applied := { w with queue, data := applyEvent w.data event }
  if event.created.isNone ∨ w.fetch.isFetching then applied.reconcile else applied

/-- An act that cannot be taken is none. -/
@[grind =] def step : Act Key Seen → Option (World Key Seen)
  -- `uuid4` draws an id of no row
  | .report id body =>
    if id ∈ w.db.bulletHoles.map (·.id) then none else some (w.reportBullet sessionId id body)
  | .delete bulletId now => some (w.deleteBullet sessionId bulletId now)
  | .refresh n =>
    match w.pending[n]? with
    | some (.stored bulletId) =>
      (w.db.bulletHoles.find? (·.id = bulletId)).map fun b =>
        { w with pending := w.pending.set n (.publishing (.bulletCreated (modelValidate b))) }
    | _ => none
  | .publish n =>
    match w.pending[n]? with
    | some (.publishing event) =>
      some { w with pending := w.pending.eraseIdx n, queue := w.queue ++ [event] }
    | _ => none
  | .publishOther => some { w with queue := w.queue ++ [.other] }
  | .deliver =>
    match w.queue with
    | event :: queue => some (w.onMessage event queue)
    | [] => none
  | .opened => some w.reconcile
  | .read =>
    match w.fetch with
    | .unread => some { w with fetch := .read (w.stored sessionId) }
    | _ => none
  | .answer =>
    match w.fetch with
    | .read bullets => some { w with fetch := .idle, data := bullets }
    | _ => none
  | .fail => if w.fetch.isFetching then some { w with fetch := .idle, retry := true } else none
  | .retried => if w.retry then some w.reconcile else none

def run (w : World Key Seen) (acts : List (Act Key Seen)) : Option (World Key Seen) :=
  ConditionalRuns.runTaken (step sessionId) w acts

/-- All events applied, all refetches answered. -/
def Settled : Prop :=
  w.pending = [] ∧ w.queue = [] ∧ w.fetch = .idle ∧ w.retry = false

/-- The window's stream has just opened: the Session it shows was fetched at any time before, and is
being fetched again. -/
def Opened : Prop :=
  (w.db.bulletHoles.map (·.id)).Nodup ∧ w.queue = [] ∧ w.fetch = .unread

end World
end Kanat.LiveSession
