import Kanat.PublisherOutcomes

/-! # Each Bullet Hole published is stored once

The publisher's POSTs, and those of others, served by the backend in any order, each in its steps: the
Session's row locked and the request accepted, the key looked up, the row stored and the lock let go. A
request goes on when its client has given up on it, and may fail before it has stored. -/
namespace Kanat.WebApp
open Bullets

variable {Value Key Seen : Type}

inductive Stage (Key Seen : Type) where
  | arriving
  | locked
  /-- Locked, the key looked up in vain. -/
  | unfound
  | answered (answer : Except Failure (BulletHole Key Seen))

/-- The Session's row is this request's until it has answered. -/
def Stage.Holds : Stage Key Seen → Prop
  | .locked | .unfound => True
  | .arriving | .answered _ => False

structure Request (Key Seen : Type) where
  sessionId : Uuid
  body : BulletCreate Key Seen
  stage : Stage Key Seen

structure World (Value Key Seen : Type) where
  publisher : Publisher Value Key Seen
  /-- The request of the POST last begun. -/
  posting : ℕ
  requests : List (Request Key Seen)
  db : Database Key Seen

inductive Event (Value Key Seen : Type) where
  | publisher (a : Act Value)
  /-- A POST of another client's. -/
  | other (sessionId : Uuid) (body : BulletCreate Key Seen)
  /-- The next step of a request; `id` is the `uuid4` drawn should it store a row. -/
  | serve (n : ℕ) (id : Uuid)
  | fail (n : ℕ)
  | delete (sessionId bulletId : Uuid) (now : ℕ)
  | status (sessionId : Uuid) (status : SessionStatus)

namespace World
variable [DecidableEq Key] (key : Value → Key) (seen : Value → Seen) (sessionId : Uuid)
  (w : World Value Key Seen)

def Free (s : Uuid) : Prop := ∀ r ∈ w.requests, r.sessionId = s → ¬ r.stage.Holds

instance : DecidablePred (Stage.Holds : Stage Key Seen → Prop)
  | .locked | .unfound => inferInstanceAs (Decidable True)
  | .arriving | .answered _ => inferInstanceAs (Decidable False)

instance (s : Uuid) : Decidable (w.Free s) := inferInstanceAs (Decidable (∀ r ∈ _, _ → _))

def atStage (n : ℕ) (r : Request Key Seen) (stage : Stage Key Seen) : World Value Key Seen :=
  { w with requests := w.requests.set n { r with stage } }

/-- `create_bullet`, cut at its lock, its lookup and its commit. -/
def serve (n : ℕ) (r : Request Key Seen) (id : Uuid) : Option (World Value Key Seen) :=
  match r.stage with
  | .arriving =>
    if w.Free r.sessionId then
      match accept (w.db.status r.sessionId) r.body.source with
      | .error e => some (w.atStage n r (.answered (.error e)))
      | .ok _ => some (w.atStage n r .locked)
    else none
  | .locked =>
    match r.body.idempotencyKey.bind (w.db.findByIdempotencyKey r.sessionId) with
    | some dup => some (w.atStage n r (.answered (.ok dup)))
    | none => some (w.atStage n r .unfound)
  | .unfound =>
    match w.db.add (newBullet id r.sessionId r.body w.db) with
    | .error e => some (w.atStage n r (.answered (.error e)))
    | .ok (bullet, db) => some { w.atStage n r (.answered (.ok bullet)) with db }
  | .answered _ => none

/-- Only a request answered with a row is a POST's response; any other outcome may be the network's. -/
def comes : Act Value → Bool
  | .outcome (.response _) =>
    match w.requests[w.posting]? with
    | some ⟨_, _, .answered (.ok _)⟩ => true
    | _ => false
  | _ => true

def act (a : Act Value) : Option (World Value Key Seen) :=
  (w.publisher.step key seen a).map fun publisher =>
    match a, w.publisher.worker with
    | .start, .starting value _ =>
      { w with
        publisher
        posting := w.requests.length
        requests := w.requests ++ [⟨sessionId, payload key seen value, .arriving⟩] }
    | _, _ => { w with publisher }

def step : Event Value Key Seen → Option (World Value Key Seen)
  | .publisher a => if w.comes a then w.act key seen sessionId a else none
  | .other s body => some { w with requests := w.requests ++ [⟨s, body, .arriving⟩] }
  | .serve n id => w.requests[n]?.bind fun r => w.serve n r id
  | .fail n =>
    match w.requests[n]? with
    | some ⟨_, _, .answered _⟩ | none => none
    | some r => some (w.atStage n r (.answered (.error (.http ⟨500, "Internal Server Error"⟩))))
  | .delete s bulletId now =>
    if w.Free s then
      match deleteBullet s bulletId now w.db with
      | .error _ => none
      | .ok db => some { w with db }
    else none
  | .status s status =>
    if w.Free s then some { w with db := { w.db with status := Function.update w.db.status s status } }
    else none

def run : World Value Key Seen → List (Event Value Key Seen) → Option (World Value Key Seen)
  | w, [] => some w
  | w, e :: events => (w.step key seen sessionId e).bind fun w' => w'.run events

end World

def rows [DecidableEq Key] (db : Database Key Seen) (s : Uuid) (k : Key) : ℕ :=
  db.bulletHoles.countP fun b => b.sessionId = s ∧ b.idempotencyKey = some k

section
variable [DecidableEq Key] {db db' : Database Key Seen} {s bulletId : Uuid} {k : Key} {now : ℕ}
  {bullet : BulletHole Key Seen}

theorem rows_eq_zero : rows db s k = 0 ↔ db.findByIdempotencyKey s k = none := by
  rw [rows, List.countP_eq_zero, findByIdempotencyKey_eq_none]
  simp

private theorem rows_pos (h : db.findByIdempotencyKey s k = some bullet) : 1 ≤ rows db s k := by
  refine Nat.one_le_iff_ne_zero.mpr fun h0 => ?_
  rw [rows_eq_zero.mp h0] at h
  cases h

theorem rows_append : rows { db with bulletHoles := db.bulletHoles ++ [bullet] } s k =
    rows db s k + if bullet.sessionId = s ∧ bullet.idempotencyKey = some k then 1 else 0 := by
  simp [rows, List.countP_append, List.countP_singleton]

private theorem not_clashes (h : ∀ k, bullet.idempotencyKey = some k → rows db bullet.sessionId k = 0) :
    db.clashes bullet = false := by
  rw [Database.clashes, List.any_eq_false]
  intro b hb hclash
  simp only [decide_eq_true_eq] at hclash
  obtain ⟨hsome, hkey, hs⟩ := hclash
  obtain ⟨k, hk⟩ := Option.isSome_iff_exists.mp hsome
  have hnone := findByIdempotencyKey_eq_none.mp (rows_eq_zero.mp (h k (hkey.symm.trans hk)))
  exact hnone b hb hs hk

private theorem rows_of_clashes (h : db.clashes bullet = false) (hk : bullet.idempotencyKey = some k) :
    rows db bullet.sessionId k = 0 := by
  rw [rows_eq_zero, findByIdempotencyKey_eq_none]
  intro b hb hs hbk
  rw [Database.clashes, List.any_eq_false] at h
  exact h b hb (by simp [hbk, hk, hs])

theorem rows_deleteBullet (h : deleteBullet s bulletId now db = .ok db') (s' : Uuid) :
    rows db' s' k = rows db s' k := by
  obtain ⟨bullet, -, -, -, hrows⟩ := deleteBullet_ok h
  rw [rows, rows, hrows, List.countP_map]
  congr 1
  funext b
  dsimp only [Function.comp]
  split_ifs <;> rfl

end

namespace World
variable [DecidableEq Key] (key : Value → Key) (seen : Value → Seen) (sessionId : Uuid)
  (w : World Value Key Seen)

structure Inv : Prop where
  publisher : w.publisher.Inv key seen
  one : ∀ s k, rows w.db s k ≤ 1
  answered : ∀ r ∈ w.requests, ∀ bullet, r.stage = .answered (.ok bullet) →
    ∀ k, r.body.idempotencyKey = some k → 1 ≤ rows w.db r.sessionId k
  posting : ∀ value n, w.publisher.worker = .posting value n →
    ∃ r ∈ w.requests[w.posting]?, r.sessionId = sessionId ∧ r.body = payload key seen value
  posted : ∀ e ∈ w.publisher.ends, e.ending = .posted → 1 ≤ rows w.db sessionId (key e.value)
  holder : ∀ (i j : ℕ) (r r' : Request Key Seen), w.requests[i]? = some r → w.requests[j]? = some r' →
    r.sessionId = r'.sessionId → r.stage.Holds → r'.stage.Holds → i = j
  unfound : ∀ r ∈ w.requests, r.stage = .unfound →
    ∀ k, r.body.idempotencyKey = some k → rows w.db r.sessionId k = 0
  unrefused : ∀ r ∈ w.requests, r.stage ≠ .answered (.error .integrityError)

variable {key seen sessionId} {w} {w' : World Value Key Seen} {n : ℕ} {id : Uuid}
  {r : Request Key Seen} {stage : Stage Key Seen}

omit [DecidableEq Key] in
/-- The requests as they were, a request apart that only changed its stage. -/
theorem getElem?_atStage {i : ℕ} {r' : Request Key Seen} (hr : w.requests[n]? = some r)
    (h : (w.atStage n r stage).requests[i]? = some r') :
    i = n ∧ r' = { r with stage } ∨ i ≠ n ∧ w.requests[i]? = some r' := by
  rw [atStage] at h
  dsimp only at h
  by_cases hi : i = n
  · subst hi
    rw [List.getElem?_set_self (List.getElem?_eq_some_iff.mp hr).1] at h
    exact .inl ⟨rfl, (Option.some.inj h).symm⟩
  · rw [List.getElem?_set_ne (Ne.symm hi)] at h
    exact .inr ⟨hi, h⟩

omit [DecidableEq Key] in
theorem mem_atStage {r' : Request Key Seen} (h : r' ∈ (w.atStage n r stage).requests) :
    r' = { r with stage } ∨ r' ∈ w.requests :=
  (List.mem_or_eq_of_mem_set h).symm

theorem inv_atStage (h : w.Inv key seen sessionId) (hr : w.requests[n]? = some r)
    (hanswered : ∀ bullet, stage = .answered (.ok bullet) →
      ∀ k, r.body.idempotencyKey = some k → 1 ≤ rows w.db r.sessionId k)
    (hunfound : stage = .unfound → ∀ k, r.body.idempotencyKey = some k → rows w.db r.sessionId k = 0)
    (hrefused : stage ≠ .answered (.error .integrityError))
    (hholds : stage.Holds → r.stage.Holds ∨ w.Free r.sessionId) :
    (w.atStage n r stage).Inv key seen sessionId where
  publisher := h.publisher
  one := h.one
  answered r' hr' bullet hstage k hk := by
    rcases mem_atStage hr' with rfl | hr'
    · exact hanswered bullet hstage k hk
    · exact h.answered r' hr' bullet hstage k hk
  posting value m hworker := by
    obtain ⟨r', hr', hs, hbody⟩ := h.posting value m hworker
    by_cases hp : w.posting = n
    · have heq : r = r' := Option.some.inj (hr.symm.trans (hp ▸ hr'))
      subst heq
      refine ⟨{ r with stage }, ?_, hs, hbody⟩
      rw [show (w.atStage n r stage).posting = n from hp]
      exact List.getElem?_set_self (List.getElem?_eq_some_iff.mp hr).1
    · refine ⟨r', ?_, hs, hbody⟩
      exact (List.getElem?_set_ne (Ne.symm hp)).trans hr'
  posted := h.posted
  holder i j r₁ r₂ h₁ h₂ hs hheld₁ hheld₂ := by
    have hother : ∀ m r', w.requests[m]? = some r' → m ≠ n → r.sessionId = r'.sessionId → stage.Holds →
        ¬ r'.stage.Holds := by
      intro m r' hm hne hs hstage hheld
      rcases hholds hstage with hold | hfree
      · exact hne (h.holder n m r r' hr hm hs hold hheld).symm
      · exact hfree r' (List.mem_of_getElem? hm) hs.symm hheld
    rcases getElem?_atStage hr h₁ with ⟨hi, rfl⟩ | ⟨hi, h₁'⟩
    · rcases getElem?_atStage hr h₂ with ⟨hj, -⟩ | ⟨hj, h₂'⟩
      · exact hi.trans hj.symm
      · exact absurd hheld₂ (hother j r₂ h₂' hj hs hheld₁)
    · rcases getElem?_atStage hr h₂ with ⟨hj, rfl⟩ | ⟨hj, h₂'⟩
      · exact absurd hheld₁ (hother i r₁ h₁' hi hs.symm hheld₂)
      · exact h.holder i j r₁ r₂ h₁' h₂' hs hheld₁ hheld₂
  unfound r' hr' hstage k hk := by
    rcases mem_atStage hr' with rfl | hr'
    · exact hunfound hstage k hk
    · exact h.unfound r' hr' hstage k hk
  unrefused r' hr' := by
    rcases mem_atStage hr' with rfl | hr'
    · exact hrefused
    · exact h.unrefused r' hr'

/-- A row stored while no request of its Session is between its lookup and its commit. -/
theorem inv_stored {bullet : BulletHole Key Seen} (h : w.Inv key seen sessionId)
    (hclash : w.db.clashes bullet = false)
    (hunfound : ∀ r ∈ w.requests, r.sessionId = bullet.sessionId → r.stage ≠ .unfound) :
    ({ w with db := { w.db with bulletHoles := w.db.bulletHoles ++ [bullet] } } :
      World Value Key Seen).Inv key seen sessionId where
  publisher := h.publisher
  one s k := by
    dsimp only
    rw [rows_append]
    split_ifs with hk
    · have h0 := rows_of_clashes hclash hk.2
      rw [hk.1] at h0
      omega
    · exact h.one s k
  answered r hr bullet hstage k hk := by
    dsimp only
    rw [rows_append]
    exact Nat.le_add_right_of_le (h.answered r hr bullet hstage k hk)
  posting := h.posting
  posted e he hending := by
    dsimp only
    rw [rows_append]
    exact Nat.le_add_right_of_le (h.posted e he hending)
  holder := h.holder
  unfound r hr hstage k hk := by
    dsimp only
    rw [rows_append, if_neg, h.unfound r hr hstage k hk]
    exact fun hb => hunfound r hr hb.1.symm hstage
  unrefused := h.unrefused

theorem inv_db {db : Database Key Seen} (h : w.Inv key seen sessionId)
    (hrows : ∀ s k, rows db s k = rows w.db s k) :
    ({ w with db } : World Value Key Seen).Inv key seen sessionId where
  publisher := h.publisher
  one s k := hrows s k ▸ h.one s k
  answered r hr bullet hstage k hk := hrows _ _ ▸ h.answered r hr bullet hstage k hk
  posting := h.posting
  posted e he hending := hrows _ _ ▸ h.posted e he hending
  holder := h.holder
  unfound r hr hstage k hk := (hrows _ _).trans (h.unfound r hr hstage k hk)
  unrefused := h.unrefused

theorem inv_arrive {s : Uuid} {body : BulletCreate Key Seen} (h : w.Inv key seen sessionId) :
    ({ w with requests := w.requests ++ [⟨s, body, .arriving⟩] } :
      World Value Key Seen).Inv key seen sessionId := by
  have hmem : ∀ r ∈ w.requests ++ [⟨s, body, .arriving⟩], r ∈ w.requests ∨ r = ⟨s, body, .arriving⟩ :=
    fun r hr => (List.mem_append.mp hr).imp_right List.mem_singleton.mp
  have hget : ∀ (i : ℕ) (r : Request Key Seen), (w.requests ++ [⟨s, body, .arriving⟩])[i]? = some r →
      r.stage.Holds → w.requests[i]? = some r := by
    intro i r hi hheld
    rcases Nat.lt_or_ge i w.requests.length with hlt | hge
    · rwa [List.getElem?_append_left hlt] at hi
    · rw [List.getElem?_append_right hge] at hi
      rw [List.mem_singleton.mp (List.mem_of_getElem? hi)] at hheld
      exact hheld.elim
  refine ⟨h.publisher, h.one, fun r hr bullet hstage => ?_, fun value m hworker => ?_, h.posted,
    fun i j r r' hi hj hs hheld hheld' => ?_, fun r hr hstage => ?_, fun r hr => ?_⟩
  · rcases hmem r hr with hr | rfl
    · exact h.answered r hr bullet hstage
    · cases hstage
  · obtain ⟨r, hr, hbody⟩ := h.posting value m hworker
    refine ⟨r, ?_, hbody⟩
    exact (List.getElem?_append_left (List.getElem?_eq_some_iff.mp hr).1).trans hr
  · exact h.holder i j r r' (hget i r hi hheld) (hget j r' hj hheld') hs hheld hheld'
  · rcases hmem r hr with hr | rfl
    · exact h.unfound r hr hstage
    · cases hstage
  · rcases hmem r hr with hr | rfl
    · exact h.unrefused r hr
    · exact nofun

private theorem accept_unrefused {status : Option SessionStatus} {source : Source} {e : Failure}
    (h : accept status source = .error e) : e ≠ .integrityError := by
  unfold accept at h
  split at h <;> cases h <;> exact nofun

private theorem inv_serve (h : w.Inv key seen sessionId) (hr : w.requests[n]? = some r)
    (hserve : w.serve n r id = some w') : w'.Inv key seen sessionId := by
  have hmem := List.mem_of_getElem? hr
  rw [serve] at hserve
  split at hserve
  · split_ifs at hserve with hfree
    split at hserve
    · next e he =>
      cases hserve
      refine inv_atStage h hr (by simp) (by simp) ?_ (by simp [Stage.Holds])
      exact fun heq => accept_unrefused he (Except.error.inj (Stage.answered.inj heq))
    · cases hserve
      exact inv_atStage h hr (by simp) (by simp) (by simp) fun _ => .inr hfree
  · next hstage =>
    have hheld : r.stage.Holds := by rw [hstage]; trivial
    split at hserve
    · next dup hdup =>
      cases hserve
      obtain ⟨k, hk, hfind⟩ := Option.bind_eq_some_iff.mp hdup
      refine inv_atStage h hr (fun _ _ k' hk' => ?_) (by simp) (by simp) (by simp [Stage.Holds])
      cases hk.symm.trans hk'
      exact rows_pos hfind
    · next hnone =>
      cases hserve
      refine inv_atStage h hr (by simp) (fun _ k hk => ?_) (by simp) fun _ => .inl hheld
      rw [rows_eq_zero]
      rwa [hk] at hnone
  · next hstage =>
    have hheld : r.stage.Holds := by rw [hstage]; trivial
    have hclash : w.db.clashes (newBullet id r.sessionId r.body w.db) = false :=
      not_clashes fun k hk => h.unfound r hmem hstage k hk
    rw [Database.add, hclash] at hserve
    cases hserve
    -- the lock let go first, no request of the Session is between its lookup and its commit
    have hgone : (w.atStage n r (.answered (.error sessionNotFound))).Inv key seen sessionId :=
      inv_atStage h hr (by simp) (by simp) (by simp [sessionNotFound]) (by simp [Stage.Holds])
    have hlt := (List.getElem?_eq_some_iff.mp hr).1
    have hstored := inv_stored hgone hclash fun r' hr' hs hstage' => by
      obtain ⟨i, hi⟩ := List.mem_iff_getElem?.mp hr'
      rcases getElem?_atStage hr hi with ⟨-, rfl⟩ | ⟨hne, hi⟩
      · cases hstage'
      · exact hne (h.holder i n r' r hi hr hs (by rw [hstage']; trivial) hheld)
    have hrow := List.getElem?_set_self (a := { r with stage := .answered (.error sessionNotFound) }) hlt
    have hdone : (World.atStage _ n _ (.answered (.ok (newBullet id r.sessionId r.body w.db)))).Inv
        key seen sessionId := inv_atStage hstored hrow (fun _ _ k hk => ?_) (by simp) (by simp) (by simp [Stage.Holds])
    · dsimp only [atStage] at hdone
      rw [List.set_set] at hdone
      exact hdone
    · dsimp only
      rw [rows_append, if_pos ⟨rfl, hk⟩]
      omega
  · cases hserve

theorem inv_publisher {p : Publisher Value Key Seen} (h : w.Inv key seen sessionId) (hp : p.Inv key seen)
    (hposting : ∀ value m, p.worker = .posting value m → w.publisher.worker = .posting value m)
    (hposted : ∀ e ∈ p.ends, e ∈ w.publisher.ends ∨
      (e.ending = .posted → 1 ≤ rows w.db sessionId (key e.value))) :
    ({ w with publisher := p } : World Value Key Seen).Inv key seen sessionId where
  publisher := hp
  one := h.one
  answered := h.answered
  posting value m hworker := h.posting value m (hposting value m hworker)
  posted e he hending := by
    rcases hposted e he with he | hrow
    · exact h.posted e he hending
    · exact hrow hending
  holder := h.holder
  unfound := h.unfound
  unrefused := h.unrefused

/-- The value in hand was posted, as the backend's response says. -/
theorem row_of_comes {status : ℕ} {value : Value} {m : ℕ} (h : w.Inv key seen sessionId)
    (hcomes : w.comes (.outcome (.response status)) = true)
    (hworker : w.publisher.worker = .posting value m) : 1 ≤ rows w.db sessionId (key value) := by
  obtain ⟨r, hr, hs, hbody⟩ := h.posting value m hworker
  rw [comes] at hcomes
  split at hcomes
  · next s body bullet hget =>
    cases hget.symm.trans hr
    dsimp only at hs hbody
    subst hs hbody
    exact h.answered _ (List.mem_of_getElem? hr) bullet rfl _ rfl
  · cases hcomes

theorem inv_finish {ending : Ending} {value : Value} {m : ℕ} (h : w.Inv key seen sessionId)
    (hp : (w.publisher.finish value ending m).Inv key seen)
    (hrow : ending = .posted → 1 ≤ rows w.db sessionId (key value)) :
    ({ w with publisher := w.publisher.finish value ending m } :
      World Value Key Seen).Inv key seen sessionId := by
  refine inv_publisher h hp (fun _ _ hw => by cases hw) fun e he => ?_
  rcases List.mem_append.mp he with he | he
  · exact .inl he
  · rw [List.mem_singleton.mp he]
    exact .inr hrow

private theorem inv_act {a : Act Value} (h : w.Inv key seen sessionId) (hcomes : w.comes a = true)
    (hact : w.act key seen sessionId a = some w') : w'.Inv key seen sessionId := by
  obtain ⟨p, hp, rfl⟩ := Option.map_eq_some_iff.mp hact
  have hpublisher := Publisher.inv_step h.publisher hp
  cases a with
  | publish | leave | timeOut =>
    rw [Publisher.step] at hp
    split_ifs at hp
    cases hp
    exact inv_publisher h hpublisher (fun _ _ hw => hw) fun _ he => .inl he
  | get =>
    rw [Publisher.step] at hp
    split at hp <;> cases hp
    · exact inv_publisher h hpublisher (fun _ _ hw => by cases hw) fun _ he => .inl he
    · exact inv_publisher h hpublisher (fun _ _ hw => by cases hw) fun _ he => .inl he
  | check =>
    rw [Publisher.step] at hp
    split at hp <;> cases hp
    split_ifs at hpublisher ⊢
    · exact inv_finish h hpublisher (by simp)
    · exact inv_publisher h hpublisher (fun _ _ hw => by cases hw) fun _ he => .inl he
  | start =>
    rw [Publisher.step] at hp
    split at hp <;> cases hp
    next value m hworker =>
    have harrived : World.Inv key seen sessionId
        { w with requests := w.requests ++ [⟨sessionId, payload key seen value, .arriving⟩] } :=
      inv_arrive h
    rw [hworker]
    refine ⟨hpublisher, h.one, harrived.answered, fun v n hv => ?_, h.posted, harrived.holder,
      harrived.unfound, harrived.unrefused⟩
    cases hv
    exact ⟨⟨sessionId, payload key seen value, .arriving⟩, by simp, rfl, rfl⟩
  | outcome o =>
    rw [Publisher.step] at hp
    split at hp
    · next value m hworker =>
      split at hp <;> cases hp
      · exact inv_publisher h hpublisher (fun _ _ hw => by cases hw) fun _ he => .inl he
      · refine inv_finish h hpublisher fun hposted => ?_
        cases o with
        | response status => exact row_of_comes h hcomes hworker
        | httpError | exception => cases hposted
      · split_ifs at hpublisher ⊢
        · exact inv_publisher h hpublisher (fun _ _ hw => by cases hw) fun _ he => .inl he
        · exact inv_finish h hpublisher (by simp)
    · cases hp
  | wake =>
    rw [Publisher.step] at hp
    split at hp <;> cases hp
    exact inv_publisher h hpublisher (fun _ _ hw => by cases hw) fun _ he => .inl he

theorem inv_step {e : Event Value Key Seen} (h : w.Inv key seen sessionId)
    (hstep : w.step key seen sessionId e = some w') : w'.Inv key seen sessionId := by
  cases e with
  | publisher a =>
    rw [step] at hstep
    split_ifs at hstep with hcomes
    exact inv_act h hcomes hstep
  | other s body => cases hstep; exact inv_arrive h
  | serve n id =>
    obtain ⟨r, hr, hserve⟩ := Option.bind_eq_some_iff.mp hstep
    exact inv_serve h hr hserve
  | fail n =>
    rw [step] at hstep
    split at hstep
    · cases hstep
    · cases hstep
    · next r _ hr =>
      cases hstep
      exact inv_atStage h hr (by simp) (by simp) (by simp) (by simp [Stage.Holds])
  | delete s bulletId now =>
    rw [step] at hstep
    split_ifs at hstep
    split at hstep <;> cases hstep
    next db hdelete =>
    exact inv_db h fun s' k => rows_deleteBullet hdelete s'
  | status s status =>
    rw [step] at hstep
    split_ifs at hstep
    cases hstep
    exact inv_db h fun _ _ => rfl

theorem inv_run {events : List (Event Value Key Seen)} (h : w.Inv key seen sessionId)
    (hrun : w.run key seen sessionId events = some w') : w'.Inv key seen sessionId := by
  induction events generalizing w with
  | nil => cases hrun; exact h
  | cons e events ih =>
    obtain ⟨v, hstep, hrun⟩ := Option.bind_eq_some_iff.mp hrun
    exact ih (inv_step h hstep) hrun

end World

section
variable {key : Value → Key} {seen : Value → Seen} {made : ℕ}

variable (key seen) in
private theorem replicated_sublist {done : List (Value × ℕ)} (h : ∀ c ∈ done, c.2 ≤ made) :
    (done.flatMap fun c => List.replicate c.2 (payload key seen c.1)).Sublist
      ((done.map (·.1)).flatMap fun v => List.replicate made (payload key seen v)) := by
  induction done with
  | nil => exact List.Sublist.refl _
  | cons c done ih =>
    rw [List.map_cons, List.flatMap_cons, List.flatMap_cons]
    refine List.Sublist.append ?_ (ih fun d hd => h d (List.mem_cons_of_mem _ hd))
    exact (List.replicate_sublist_replicate _).mpr (h c List.mem_cons_self)

private theorem countP_replicated [DecidableEq Key] {values : List Value} {k : Key} :
    (values.flatMap fun v => List.replicate made (payload key seen v)).countP
      (·.idempotencyKey = some k) = made * (values.map key).count k := by
  induction values with
  | nil => simp
  | cons v values ih =>
    rw [List.flatMap_cons, List.countP_append, ih, List.map_cons, List.count_cons, List.countP_replicate]
    by_cases hk : key v = k
    · simp [payload, hk, Nat.mul_add, Nat.add_comm]
    · simp [payload, hk]

end

namespace Publisher
variable {key : Value → Key} {seen : Value → Seen} {p : Publisher Value Key Seen}

theorem Inv.made_le (h : p.Inv key seen) :
    ∀ c ∈ p.ends.map (fun e => (e.value, e.made)) ++ p.worker.inHand, c.2 ≤ attempts := by
  intro c hc
  rcases List.mem_append.mp hc with hc | hc
  · obtain ⟨e, he, rfl⟩ := List.mem_map.mp hc
    have hdue := h.due e he
    cases hending : e.ending with
    | posted | refused => rw [hending] at hdue; exact hdue.2
    | gaveUp => rw [hending] at hdue; exact Nat.le_of_eq hdue
    | notPosted => rw [hending] at hdue; exact hdue.1
  · have hproper := h.proper
    cases hworker : p.worker with
    | getting | ended => rw [hworker] at hc; cases hc
    | checking v n | starting v n | posting v n | waiting v n | died v n =>
      rw [hworker] at hc hproper
      rw [List.mem_singleton.mp hc]
      have := hproper.2
      dsimp only
      omega

/-- POSTs begin in the order the values were published in, at most `attempts` of each. -/
theorem Inv.posts_sublist (h : p.Inv key seen) : (p.posts.map (·.data)).Sublist
    (p.published.flatMap fun v => List.replicate attempts (payload key seen v)) := by
  have hsub := replicated_sublist key seen h.made_le
  have hposts : p.posts.map (·.data) = (p.ends.map (fun e => (e.value, e.made)) ++ p.worker.inHand).flatMap
      fun c => List.replicate c.2 (payload key seen c.1) := by
    rw [h.posts, List.flatMap_append, List.flatMap_map]
  have hpublished : p.published =
      (p.ends.map (fun e => (e.value, e.made)) ++ p.worker.inHand).map (·.1) ++ p.queue.reduceOption := by
    simp [h.carried]
  rw [hposts]
  refine hsub.trans ?_
  rw [hpublished, List.flatMap_append]
  exact List.sublist_append_left _ _

end Publisher

namespace World
variable [DecidableEq Key] (key : Value → Key) (seen : Value → Seen) (sessionId : Uuid)
  (w : World Value Key Seen)

/-- The Run has entered the `with`; the unique index holds of the rows. -/
structure Begun : Prop where
  publisher : w.publisher = .entered
  requests : w.requests = []
  index : ∀ s k, rows w.db s k ≤ 1

structure ExactlyOnce : Prop where
  inOrder : (w.publisher.posts.map (·.data)).Sublist
    (w.publisher.published.flatMap fun v => List.replicate attempts (payload key seen v))
  atMost : ∀ v ∈ w.publisher.published,
    w.publisher.posts.countP (·.data.idempotencyKey = some (key v)) ≤ attempts
  afterTold : w.publisher.posts.countP (·.told) ≤ 1
  storedOnce : ∀ s k, rows w.db s k ≤ 1
  stored : ∀ e ∈ w.publisher.ends, e.ending = .posted → rows w.db sessionId (key e.value) = 1
  /-- The lock and the lookup leave the unique index nothing to refuse. -/
  unrefused : ∀ r ∈ w.requests, r.stage ≠ .answered (.error .integrityError)

variable {key seen sessionId} {w} {w' : World Value Key Seen}

theorem Begun.inv (h : w.Begun) : w.Inv key seen sessionId := by
  obtain ⟨hpublisher, hrequests, hindex⟩ := h
  refine ⟨hpublisher ▸ Publisher.inv_entered, hindex, ?_, ?_, ?_, ?_, ?_, ?_⟩
  · simp [hrequests]
  · rw [hpublisher]
    exact nofun
  · rw [hpublisher]
    exact nofun
  · simp [hrequests]
  · simp [hrequests]
  · simp [hrequests]

/-- Whatever each POST comes to, and in whatever order the requests are served. -/
theorem published_exactly_once {events : List (Event Value Key Seen)} (h : w.Begun)
    (hrun : w.run key seen sessionId events = some w')
    (hkeys : (w'.publisher.published.map key).Nodup) : w'.ExactlyOnce key seen sessionId := by
  have hinv := inv_run h.inv hrun
  have hsub := hinv.publisher.posts_sublist
  refine ⟨hsub, fun v hv => ?_, hinv.publisher.told, hinv.one, fun e he hending => ?_, hinv.unrefused⟩
  · have hcount := hsub.countP_le (p := fun d => d.idempotencyKey = some (key v))
    rw [countP_replicated, List.countP_map] at hcount
    have hone := List.nodup_iff_count_le_one.mp hkeys (key v)
    calc w'.publisher.posts.countP (·.data.idempotencyKey = some (key v))
        ≤ attempts * (w'.publisher.published.map key).count (key v) := hcount
      _ ≤ attempts * 1 := Nat.mul_le_mul_left _ hone
      _ = attempts := Nat.mul_one _
  · exact Nat.le_antisymm (hinv.one sessionId _) (hinv.posted e he hending)

def withEntered : World ℕ ℕ ℕ where
  publisher := .entered
  posting := 0
  requests := []
  db := { status := fun _ => some .active, bulletHoles := [] }

/-- The client gives up on its first POST, and the retry is stored before it. -/
def overtaken : List (Event ℕ ℕ ℕ) :=
  [.publisher (.publish 3), .publisher .get, .publisher .check, .publisher .start,
    .publisher (.outcome .exception), .publisher .wake, .publisher .check, .publisher .start,
    .serve 1 0, .serve 1 0, .serve 1 0, .serve 0 1, .publisher (.outcome (.response 201)), .serve 0 1]

theorem published_exactly_once_overtaken :
    ∃ w, withEntered.run id id 0 overtaken = some w ∧ w.ExactlyOnce id id 0 := by
  obtain ⟨w, hw⟩ := Option.isSome_iff_exists.mp
    (show (withEntered.run id id 0 overtaken).isSome by decide)
  have hkeys : ∀ w ∈ withEntered.run id id 0 overtaken, (w.publisher.published.map id).Nodup := by
    decide
  exact ⟨w, hw, published_exactly_once ⟨rfl, rfl, fun _ _ => Nat.zero_le _⟩ hw (hkeys w hw)⟩

end World
end Kanat.WebApp
