import Kanat.Bullets
import Mathlib.Data.List.Range
import Mathlib.Logic.Function.Basic

/-! # The ranks of a Session's Bullet Holes, over any requests

Each request has its Session's row lock from its first read to its commit. -/
namespace Kanat.Bullets

variable {Key Seen : Type}

/-- A creation draws `id`, should it store a row; a Session comes, changes its status or goes by other requests. -/
inductive Request (Key Seen : Type) where
  | create (id sessionId : Uuid) (body : BulletCreate Key Seen)
  | delete (sessionId bulletId : Uuid) (now : ℕ)
  | session (sessionId : Uuid) (status : Option SessionStatus)

def Request.sessionId : Request Key Seen → Uuid
  | .create _ sessionId _ => sessionId
  | .delete sessionId _ _ => sessionId
  | .session sessionId _ => sessionId

namespace Database

/-- The primary key. -/
def distinct (db : Database Key Seen) : Bool := (db.bulletHoles.map (·.id)).Nodup

/-- All rows of a Session, deleted or not. -/
def rows (db : Database Key Seen) (sessionId : Uuid) : List (BulletHole Key Seen) :=
  db.bulletHoles.filter (·.sessionId = sessionId)

/-- A Session that goes takes its rows with it. -/
def setSession (db : Database Key Seen) (sessionId : Uuid) (status : Option SessionStatus) : Database Key Seen where
  status := Function.update db.status sessionId status
  bulletHoles := if status.isNone then db.bulletHoles.filter (·.sessionId ≠ sessionId) else db.bulletHoles

/-- A refused request is rolled back. -/
def step [DecidableEq Key] (db : Database Key Seen) : Request Key Seen → Database Key Seen
  | .create id sessionId body =>
    match createBullet id sessionId body db with
    | .ok (_, db') => if db'.distinct then db' else db
    | .error _ => db
  | .delete sessionId bulletId now =>
    match deleteBullet sessionId bulletId now db with
    | .ok db' => db'
    | .error _ => db
  | .session sessionId status => db.setSession sessionId status

def run [DecidableEq Key] (db : Database Key Seen) (requests : List (Request Key Seen)) : Database Key Seen :=
  requests.foldl step db

/-- Without a Bullet Hole. -/
def unused (status : Uuid → Option SessionStatus) : Database Key Seen := ⟨status, []⟩

/-- Rows are in the order they were created in. -/
def Ranked (db : Database Key Seen) (sessionId : Uuid) : Prop :=
  (db.current sessionId).map BulletHole.rank = List.range' 1 (db.countActive sessionId)

/-- What every request keeps. -/
structure Sound (db : Database Key Seen) : Prop where
  distinct : (db.bulletHoles.map BulletHole.id).Nodup
  ranked : ∀ sessionId, db.Ranked sessionId

end Database

/-- A Bullet Hole that is there after the deletion of the one with this rank. -/
def BulletHole.movedUp (rank : ℕ) (b : BulletHole Key Seen) : BulletHole Key Seen :=
  if rank < b.rank then { b with rank := b.rank - 1 } else b

section
variable {id sessionId s bulletId : Uuid} {now rank : ℕ} {body : BulletCreate Key Seen}
  {db db' : Database Key Seen} {b bullet : BulletHole Key Seen}

theorem activeIn_iff : b.activeIn s = true ↔ b.sessionId = s ∧ b.deletedAt = none := by
  simp [BulletHole.activeIn]

/-- The ranks that are left, each past the deleted one moved up, are again without a gap. -/
theorem ranks_movedUp {front back : List (BulletHole Key Seen)}
    (h : (front ++ bullet :: back).map BulletHole.rank = List.range' 1 (front ++ bullet :: back).length) :
    ((front ++ back).map (BulletHole.movedUp bullet.rank)).map BulletHole.rank =
      List.range' 1 (front ++ back).length := by
  have hlength : (front ++ bullet :: back).length = front.length + (back.length + 1) := by simp
  rw [hlength, List.map_append, List.map_cons, ← List.range'_append_1, List.range'_succ] at h
  obtain ⟨hfront, hback⟩ := List.append_inj h (by simp)
  obtain ⟨hrank, hback⟩ := List.cons.inj hback
  rw [List.length_append, ← List.range'_append_1, List.map_append, List.map_append]
  refine congrArg₂ (· ++ ·) ?_ ?_
  · rw [← hfront, List.map_map]
    refine List.map_congr_left fun c hc => ?_
    have hmem : c.rank ∈ List.range' 1 front.length := hfront ▸ List.mem_map_of_mem hc
    have hlt := (List.mem_range'_1.mp hmem).2
    exact congrArg BulletHole.rank (if_neg (by omega))
  · rw [List.map_map]
    have hshift : back.map (BulletHole.rank ∘ BulletHole.movedUp bullet.rank) =
        (back.map BulletHole.rank).map (· - 1) := by
      rw [List.map_map]
      refine List.map_congr_left fun c hc => ?_
      have hmem : c.rank ∈ List.range' (1 + front.length + 1) back.length := hback ▸ List.mem_map_of_mem hc
      have hle := (List.mem_range'_1.mp hmem).1
      exact congrArg BulletHole.rank (if_pos (by omega))
    rw [hshift, hback, List.map_sub_range' (by omega)]
    rfl

/-- What a deletion leaves of its Session. -/
theorem current_deleteBullet (hdistinct : (db.bulletHoles.map BulletHole.id).Nodup)
    (h : deleteBullet sessionId bulletId now db = .ok db') :
    ∃ bullet front back, db.current sessionId = front ++ bullet :: back ∧
      db'.current sessionId = (front ++ back).map (BulletHole.movedUp bullet.rank) := by
  obtain ⟨bullet, hbullet, rfl, -, hrows⟩ := deleteBullet_ok h
  obtain ⟨front, back, hsplit⟩ := List.append_of_mem hbullet
  have hids : ((db.current sessionId).map BulletHole.id).Nodup :=
    (List.filter_sublist.map BulletHole.id).nodup hdistinct
  rw [hsplit, List.map_append, List.map_cons, List.nodup_middle, List.nodup_cons, ← List.map_append] at hids
  have hothers : ∀ c ∈ front ++ back, c.id ≠ bullet.id := fun c hc heq => hids.1 (heq ▸ List.mem_map_of_mem hc)
  have hactive : ∀ c ∈ front ++ back, c.activeIn sessionId = true := by
    intro c hc
    have hmem : c ∈ db.current sessionId := by
      rw [hsplit]
      exact (List.sublist_append_right [bullet] back).append_left front |>.mem hc
    exact (List.mem_filter.mp hmem).2
  refine ⟨bullet, front, back, hsplit, ?_⟩
  rw [Database.current, hrows, List.filter_map]
  have hkeep : db.bulletHoles.filter (BulletHole.activeIn sessionId ∘ fun b =>
      if b.id = bullet.id then { b with deletedAt := some now }
      else if b.activeIn sessionId ∧ bullet.rank < b.rank then { b with rank := b.rank - 1 } else b) =
      (db.current sessionId).filter (·.id ≠ bullet.id) := by
    rw [Database.current, List.filter_filter]
    refine List.filter_congr fun c _ => ?_
    rw [Function.comp_apply]
    split_ifs with hid
    · simp [BulletHole.activeIn, hid]
    · simp [BulletHole.activeIn, hid]
    · simp [hid]
  have hdropped : (db.current sessionId).filter (·.id ≠ bullet.id) = front ++ back := by
    rw [hsplit, List.filter_append, List.filter_cons_of_neg (by simp), ← List.filter_append]
    exact List.filter_eq_self.mpr fun c hc => decide_eq_true (hothers c hc)
  rw [hkeep, hdropped]
  refine List.map_congr_left fun c hc => ?_
  rw [if_neg (hothers c hc), BulletHole.movedUp]
  simp only [hactive c hc, true_and]

/-- The rows of other Sessions stay as they are. -/
theorem rows_deleteBullet (hdistinct : (db.bulletHoles.map BulletHole.id).Nodup)
    (h : deleteBullet sessionId bulletId now db = .ok db') (hs : s ≠ sessionId) : db'.rows s = db.rows s := by
  obtain ⟨bullet, hbullet, rfl, -, hrows⟩ := deleteBullet_ok h
  obtain ⟨hmem, hactive⟩ := List.mem_filter.mp hbullet
  have hself : ∀ c ∈ db.bulletHoles, c.id = bullet.id → c = bullet := fun c hc hid =>
    List.inj_on_of_nodup_map hdistinct hc hmem hid
  rw [Database.rows, hrows, Database.rows, List.filter_map]
  have hkeep : db.bulletHoles.filter ((fun b => decide (b.sessionId = s)) ∘ fun b =>
      if b.id = bullet.id then { b with deletedAt := some now }
      else if b.activeIn sessionId ∧ bullet.rank < b.rank then { b with rank := b.rank - 1 } else b) =
      db.bulletHoles.filter (·.sessionId = s) := by
    refine List.filter_congr fun c _ => ?_
    rw [Function.comp_apply]
    split_ifs <;> rfl
  rw [hkeep]
  refine (List.map_congr_left fun c hc => ?_).trans (List.map_id _)
  obtain ⟨hc, hcs⟩ := List.mem_filter.mp hc
  have hcs : c.sessionId = s := of_decide_eq_true hcs
  have hid : c.id ≠ bullet.id := by
    intro heq
    rw [hself c hc heq, (activeIn_iff.mp hactive).1] at hcs
    exact hs hcs.symm
  have hother : ¬(c.activeIn sessionId = true ∧ bullet.rank < c.rank) := fun h =>
    hs (hcs.symm.trans (activeIn_iff.mp h.1).1)
  rw [if_neg hid, if_neg hother, id]

/-- What the requests on a Session leave of another one's Bullet Holes. -/
theorem current_rows (db : Database Key Seen) (s : Uuid) :
    db.current s = (db.rows s).filter fun b => b.deletedAt.isNone := by
  rw [Database.current, Database.rows, List.filter_filter]
  refine List.filter_congr fun b _ => ?_
  rw [Bool.eq_iff_iff, activeIn_iff]
  simp [and_comm]

theorem Database.Ranked.of_rows (h : db.Ranked s) (hrows : db'.rows s = db.rows s) : db'.Ranked s := by
  rw [Database.Ranked, Database.countActive, current_rows, hrows, ← current_rows]
  exact h

variable [DecidableEq Key]

/-- A row that is stored comes last, ranked after the others. -/
theorem ranked_createBullet (h : db.Ranked s) (hcreate : createBullet id sessionId body db = .ok (b, db')) :
    db'.Ranked s := by
  rcases createBullet_ok hcreate with ⟨rfl, -⟩ | ⟨-, rfl, rfl⟩
  · exact h
  · rw [Database.Ranked, Database.countActive] at h ⊢
    simp only [Database.current, List.filter_append]
    by_cases hs : sessionId = s
    · subst hs
      have hactive : (newBullet id sessionId body db).activeIn sessionId = true := activeIn_iff.mpr ⟨rfl, rfl⟩
      rw [List.filter_singleton, hactive, List.map_append, List.length_append]
      refine (congrArg (· ++ [_]) h).trans ?_
      refine Eq.trans ?_ List.range'_1_concat.symm
      rw [Nat.add_comm 1]
      rfl
    · have hinactive : (newBullet id sessionId body db).activeIn s = false := by
        simp [BulletHole.activeIn, newBullet, hs]
      rw [List.filter_singleton, hinactive]
      simpa [Database.current] using h

private theorem rows_createBullet (hcreate : createBullet id sessionId body db = .ok (b, db')) (hs : s ≠ sessionId) :
    db'.rows s = db.rows s := by
  rcases createBullet_ok hcreate with ⟨rfl, -⟩ | ⟨-, rfl, rfl⟩
  · rfl
  · rw [Database.rows, List.filter_append, List.filter_singleton]
    simp [newBullet, Ne.symm hs, Database.rows]

/-- A request on a Session leaves other Sessions' Bullet Holes as they are. -/
theorem rows_step (h : db.Sound) {request : Request Key Seen} (hs : s ≠ request.sessionId) :
    (db.step request).rows s = db.rows s := by
  cases request with
  | create id sessionId body =>
    rw [Database.step]
    split
    · next b db' hcreate =>
      split_ifs
      · exact rows_createBullet hcreate hs
      · rfl
    · rfl
  | delete sessionId bulletId now =>
    rw [Database.step]
    split
    · next db' hdelete => exact rows_deleteBullet h.distinct hdelete hs
    · rfl
  | session sessionId status =>
    rw [Database.step, Database.setSession, Database.rows]
    split_ifs
    · rw [List.filter_filter]
      refine List.filter_congr fun b _ => ?_
      by_cases hb : b.sessionId = s
      · simp [hb, show s ≠ sessionId from hs]
      · simp [hb]
    · rfl

private theorem sound_step (h : db.Sound) (request : Request Key Seen) : (db.step request).Sound := by
  cases request with
  | create id sessionId body =>
    rw [Database.step]
    split
    · next b db' hcreate =>
      split_ifs with hkey
      · exact ⟨of_decide_eq_true hkey, fun s => ranked_createBullet (h.ranked s) hcreate⟩
      · exact h
    · exact h
  | delete sessionId bulletId now =>
    have hothers : ∀ s, s ≠ sessionId → (db.step (.delete sessionId bulletId now)).rows s = db.rows s :=
      fun s hs => rows_step h hs
    rw [Database.step] at hothers ⊢
    split at hothers
    · next db' hdelete =>
      refine ⟨?_, fun s => ?_⟩
      · obtain ⟨bullet, -, -, -, hrows⟩ := deleteBullet_ok hdelete
        have hids : db'.bulletHoles.map BulletHole.id = db.bulletHoles.map BulletHole.id := by
          rw [hrows, List.map_map]
          refine List.map_congr_left fun c _ => ?_
          rw [Function.comp_apply]
          split_ifs <;> rfl
        exact hids ▸ h.distinct
      · by_cases hs : s = sessionId
        · subst hs
          obtain ⟨bullet, front, back, hbefore, hafter⟩ := current_deleteBullet h.distinct hdelete
          have hranked := h.ranked s
          rw [Database.Ranked, Database.countActive, hbefore] at hranked
          rw [Database.Ranked, Database.countActive, hafter, List.length_map]
          exact ranks_movedUp hranked
        · exact (h.ranked s).of_rows (hothers s hs)
    · exact h
  | session sessionId status =>
    have hothers : ∀ s, s ≠ sessionId → (db.step (.session sessionId status)).rows s = db.rows s :=
      fun s hs => rows_step h hs
    rw [Database.step, Database.setSession] at hothers ⊢
    split_ifs at hothers ⊢
    · refine ⟨(List.filter_sublist.map BulletHole.id).nodup h.distinct, fun s => ?_⟩
      by_cases hs : s = sessionId
      · have hnone : (db.bulletHoles.filter fun b => b.sessionId ≠ sessionId).filter (BulletHole.activeIn s) = [] := by
          rw [List.filter_filter]
          refine List.filter_eq_nil_iff.mpr fun b _ => ?_
          simp +contextual [BulletHole.activeIn, hs]
        rw [Database.Ranked, Database.countActive, Database.current, hnone]
        rfl
      · exact (h.ranked s).of_rows (hothers s hs)
    · exact ⟨h.distinct, h.ranked⟩

theorem sound_run (h : db.Sound) (requests : List (Request Key Seen)) : (db.run requests).Sound := by
  induction requests generalizing db with
  | nil => exact h
  | cons request requests ih => exact ih (sound_step h request)

omit [DecidableEq Key] in
theorem sound_unused (status : Uuid → Option SessionStatus) : (Database.unused status : Database Key Seen).Sound where
  distinct := List.nodup_nil
  ranked _ := rfl

/-- After any requests, a Session's ranks are 1 to n in the order its Bullet Holes were created in, and one more
request leaves every other Session's as they are. -/
theorem ranks_in_order (status : Uuid → Option SessionStatus) (requests : List (Request Key Seen)) :
    let db : Database Key Seen := (Database.unused status).run requests
    (∀ sessionId, (db.current sessionId).map BulletHole.rank = List.range' 1 (db.current sessionId).length) ∧
      ∀ (request : Request Key Seen) (sessionId : Uuid), sessionId ≠ request.sessionId →
        (db.step request).rows sessionId = db.rows sessionId := by
  have hsound : ((Database.unused status : Database Key Seen).run requests).Sound :=
    sound_run (sound_unused status) requests
  exact ⟨hsound.ranked, fun request sessionId hs => rows_step hsound hs⟩

end

example : let body : BulletCreate ℕ Unit := ⟨.model, none, ()⟩
    (((Database.unused fun _ => some .active).run [.create 10 1 body, .create 11 1 body, .create 12 2 body,
      .create 13 1 body, .delete 1 11 7]).current 1).map (fun b => (b.id, b.rank)) = [(10, 1), (13, 2)] := by
  decide

end Kanat.Bullets
