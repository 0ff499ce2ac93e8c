import Kanat.ListUpdates
import Kanat.ReplayCache

/-! # A deleted Session's video does not come back

A request let past its check holds its part's lock, and the deletion, which looks at the locks in use once the
Session is gone, waits for it. -/
namespace Kanat.ReplayCache
open Recordings
open Bullets (Uuid)

namespace Locks
variable {locks locks' : Locks} {path : CacheName} {party : Party}

theorem entry_insert (locks : Locks) (path q : CacheName) (e : PartLock) :
    entry (locks.insert path e) q = if q = path then e else entry locks q := by
  unfold entry
  split_ifs with h
  · rw [h, AList.lookup_insert]
    rfl
  · rw [AList.lookup_insert_ne h]

theorem entry_erase (locks : Locks) (path q : CacheName) :
    entry (locks.erase path) q = if q = path then ⟨none, 0⟩ else entry locks q := by
  unfold entry
  split_ifs with h
  · rw [h, AList.lookup_erase]
    rfl
  · rw [AList.lookup_erase_ne h]

private theorem mem_keys_of_users (h : 0 < (locks.entry path).users) : path ∈ locks.keys := by
  rw [← AList.mem_keys]
  by_contra hnone
  rw [entry, AList.lookup_eq_none.mpr hnone] at h
  exact absurd h (by decide)

theorem entry_enter (q : CacheName) : (locks.enter path).entry q =
    if q = path then ⟨(locks.entry path).holder, (locks.entry path).users + 1⟩ else locks.entry q :=
  entry_insert _ _ _ _

theorem entry_release (q : CacheName) : (locks.release path).entry q =
    if q = path then ⟨none, (locks.entry path).users⟩ else locks.entry q :=
  entry_insert _ _ _ _

theorem entry_acquire (h : locks.acquire path party = some locks') : (locks.entry path).holder = none ∧
    ∀ q, locks'.entry q = if q = path then ⟨some party, (locks.entry path).users⟩ else locks.entry q := by
  rw [acquire] at h
  split_ifs at h with hnone
  cases h
  exact ⟨hnone, fun q => entry_insert _ _ _ _⟩

theorem users_enter (q : CacheName) : ((locks.enter path).entry q).users =
    (locks.entry q).users + if q = path then 1 else 0 := by
  rw [entry_enter]
  split_ifs with hq
  · rw [hq]
  · rfl

theorem users_acquire (h : locks.acquire path party = some locks') (q : CacheName) :
    (locks'.entry q).users = (locks.entry q).users := by
  rw [(entry_acquire h).2]
  split_ifs with hq
  · rw [hq]
  · rfl

theorem users_release (q : CacheName) : ((locks.release path).entry q).users = (locks.entry q).users := by
  rw [entry_release]
  split_ifs with hq
  · rw [hq]
  · rfl

theorem users_leave (q : CacheName) : ((locks.leave path).entry q).users =
    (locks.entry q).users - if q = path then 1 else 0 := by
  unfold leave
  split_ifs with h hq hq
  · rw [entry_erase, if_pos hq, hq, h]
  · rw [entry_erase, if_neg hq, Nat.sub_zero]
  · rw [entry_insert, if_pos hq, hq]
  · rw [entry_insert, if_neg hq, Nat.sub_zero]

private theorem holder_leave {q : CacheName} (h : q ≠ path ∨ 1 < (locks.entry path).users) :
    ((locks.leave path).entry q).holder = (locks.entry q).holder := by
  unfold leave
  split_ifs with hone
  · have hq : q ≠ path := h.resolve_right (by omega)
    rw [entry_erase, if_neg hq]
  · rw [entry_insert]
    split_ifs with hq
    · rw [hq]
    · rfl

section

variable {q : CacheName} {other : Party}

theorem holder_enter (h : (locks.entry q).holder = some other) : ((locks.enter path).entry q).holder = some other := by
  rw [entry_enter]
  split_ifs with heq
  · exact heq ▸ h
  · exact h

theorem holder_acquire (hacquire : locks.acquire path party = some locks') (h : (locks.entry q).holder = some other) :
    (locks'.entry q).holder = some other := by
  obtain ⟨hnone, hentry⟩ := entry_acquire hacquire
  rw [hentry]
  split_ifs with heq
  · rw [heq, hnone] at h
    cases h
  · exact h

theorem holder_release (hholder : (locks.entry path).holder = some party) (hne : other ≠ party)
    (h : (locks.entry q).holder = some other) : ((locks.release path).entry q).holder = some other := by
  rw [entry_release]
  split_ifs with heq
  · rw [heq, hholder] at h
    exact absurd (Option.some_inj.mp h).symm hne
  · exact h

/-- A lock that still has users is not dropped, nor its holder. -/
theorem holder_of_left (hleft : 0 < ((locks.leave path).entry q).users) (h : (locks.entry q).holder = some other) :
    ((locks.leave path).entry q).holder = some other := by
  rw [users_leave] at hleft
  rw [holder_leave, h]
  by_cases heq : q = path
  · rw [if_pos heq] at hleft
    exact .inr (heq ▸ by omega)
  · exact .inl heq

end

end Locks

namespace Stage

@[grind =] def registered (p : CacheName) : Stage → Bool
  | .waiting copy _ | .holding copy _ | .unlinking copy _ | .leaving copy _ | .released copy _ => copy = p
  | _ => false

def holds (p : CacheName) : Stage → Bool
  | .holding copy _ | .unlinking copy _ | .leaving copy _ => copy = p
  | _ => false

/-- Whether the deletion has read what the other Sessions recorded. -/
def hasRead : Stage → Bool
  | .asked | .committed => false
  | _ => true

/-- A download of this name still under way is the deletion's to wait for. -/
def awaits (p : CacheName) : Stage → Prop
  | .asked | .committed | .read => True
  | .looking copies | .globbed copies | .next copies => p ∈ copies
  | .waiting copy left => p = copy ∨ p ∈ left
  | .holding _ left | .unlinking _ left | .leaving _ left | .released _ left => p ∈ left
  | .returned => False

/-- A finished copy of this name is the deletion's to remove. -/
def removes (p : CacheName) : Stage → Prop
  | .looking _ => True
  | .holding copy left => p = copy ∨ p ∈ left
  | stage => stage.awaits p

/-- A partial download of this name is the deletion's to remove. -/
def removesPartial (p : CacheName) : Stage → Prop
  | .looking _ | .globbed _ => True
  | .holding copy left | .unlinking copy left => p = copy ∨ p ∈ left
  | stage => stage.awaits p

private theorem removes_of_awaits {p : CacheName} {stage : Stage} (h : stage.awaits p) : stage.removes p := by
  cases stage <;> simp_all [awaits, removes]

private theorem removesPartial_of_awaits {p : CacheName} {stage : Stage} (h : stage.awaits p) :
    stage.removesPartial p := by
  cases stage <;> simp_all [awaits, removesPartial]

end Stage

/-- The users a part's lock should count. -/
@[grind =] def users (requests : List Request) (stage : Stage) (p : CacheName) : ℕ :=
  requests.countP (fun r => r.point.registered && r.path = p) + if stage.registered p then 1 else 0

/-- Each lock counts its users and is with the one of them that works under it. -/
structure Locked (locks : Locks) (requests : List Request) (stage : Stage) : Prop where
  users : ∀ p, (locks.entry p).users = users requests stage p
  holds : ∀ i r, requests[i]? = some r → r.point.holds = true → (locks.entry r.path).holder = some (.request i)
  deletionHolds : ∀ p, stage.holds p = true → (locks.entry p).holder = some .deletion

variable {d : Deletion} {w w' : World} {i : ℕ} {r r' : Request} {requests : List Request} {locks locks' : Locks}
  {stage stage' : Stage}

theorem registered_of_holds {point : Point} (h : point.holds = true) : point.registered = true := by
  cases point <;> simp_all [Point.holds, Point.registered]

theorem holds_of_busy {point : Point} (h : point.busy = true) : point.holds = true := by
  cases point <;> simp_all [Point.holds, Point.busy]

theorem Stage.registered_of_holds {p : CacheName} (h : stage.holds p = true) : stage.registered p = true := by
  cases stage <;> simp_all [Stage.holds, Stage.registered]

theorem users_pos (hr : requests[i]? = some r) (h : r.point.registered = true) :
    0 < users requests stage r.path := by
  have hmem := List.mem_of_getElem? hr
  have hpos : 0 < requests.countP (fun s => s.point.registered && s.path = r.path) :=
    List.countP_pos_iff.mpr ⟨r, hmem, by simp [h]⟩
  exact Nat.add_pos_left hpos _

/-- One request goes on, and what it does to the locks is no other user's loss. -/
theorem Locked.request (r' : Request) (h : Locked locks requests stage) (hr : requests[i]? = some r)
    (hpath : r'.path = r.path)
    (husers : ∀ p, (locks'.entry p).users + (if r.point.registered && r.path = p then 1 else 0) =
      (locks.entry p).users + if r'.point.registered && r.path = p then 1 else 0)
    (hholds : r'.point.holds = true → (locks'.entry r.path).holder = some (.request i))
    (hkeep : ∀ p party, party ≠ .request i → 0 < (locks'.entry p).users →
      (locks.entry p).holder = some party → (locks'.entry p).holder = some party) :
    Locked locks' (requests.set i r') stage := by
  have hcount : ∀ p, (locks'.entry p).users = ReplayCache.users (requests.set i r') stage p := by
    intro p
    have hset := ListUpdates.countP_set (fun s => s.point.registered && s.path = p) hr r'
    have hold := h.users p
    have hnew := husers p
    simp only [ReplayCache.users, hpath] at hset hold ⊢
    omega
  refine ⟨hcount, fun j s hs hheld => ?_, fun p hp => ?_⟩
  · rcases eq_or_ne i j with rfl | hij
    · rw [List.getElem?_set_self (List.getElem?_eq_some_iff.mp hr).1, Option.some_inj] at hs
      rw [← hs, hpath]
      exact hholds (hs ▸ hheld)
    · have hpos : 0 < (locks'.entry s.path).users := by
        rw [hcount]
        exact users_pos hs (registered_of_holds hheld)
      rw [List.getElem?_set_ne hij] at hs
      exact hkeep s.path (.request j) (by simpa using Ne.symm hij) hpos (h.holds j s hs hheld)
  · refine hkeep p .deletion nofun ?_ (h.deletionHolds p hp)
    rw [hcount, ReplayCache.users, if_pos (Stage.registered_of_holds hp)]
    exact Nat.succ_pos _

theorem Locked.deletion (h : Locked locks requests stage)
    (husers : ∀ p, (locks'.entry p).users + (if stage.registered p then 1 else 0) =
      (locks.entry p).users + if stage'.registered p then 1 else 0)
    (hholds : ∀ p, stage'.holds p = true → (locks'.entry p).holder = some .deletion)
    (hkeep : ∀ p party, party ≠ .deletion → 0 < (locks'.entry p).users →
      (locks.entry p).holder = some party → (locks'.entry p).holder = some party) :
    Locked locks' requests stage' := by
  have hcount : ∀ p, (locks'.entry p).users = ReplayCache.users requests stage' p := by
    intro p
    have hold := h.users p
    have hnew := husers p
    simp only [ReplayCache.users] at hold ⊢
    omega
  refine ⟨hcount, fun j s hs hheld => ?_, hholds⟩
  refine hkeep s.path (.request j) nofun ?_ (h.holds j s hs hheld)
  rw [hcount]
  exact users_pos hs (registered_of_holds hheld)

theorem Locked.stays (h : Locked locks requests stage) (hreg : ∀ p, stage'.registered p = stage.registered p)
    (hholds : ∀ p, stage'.holds p = true → stage.holds p = true) : Locked locks requests stage' :=
  h.deletion (fun p => by rw [hreg]) (fun p hp => h.deletionHolds p (hholds p hp)) fun _ _ _ _ hparty => hparty

/-- What is left for the deletion to find, wait for and remove. -/
structure Due (d : Deletion) (w : World) : Prop where
  gone : w.stage ≠ .asked → d.sessionId ∉ w.sessions
  theirs : w.stage.hasRead = true → ∀ r ∈ w.requests, r.sessionId ≠ d.sessionId → r.sessionId ∈ w.sessions →
    d.otherWindows.any (overlaps r.path.start r.path.ended) = true
  awaits : ∀ p, d.takes p = true → ∀ r ∈ w.requests, r.path = p → r.point.busy = true → w.stage.awaits p
  removes : ∀ p, d.takes p = true → p ∈ w.finished → w.stage.removes p
  removesPartial : ∀ p, d.takes p = true → p ∈ w.partials → w.stage.removesPartial p

/-- How a request may leave the cache, the locks apart. -/
theorem Due.request (r' : Request) (h : Due d w) (hr : w.requests[i]? = some r) (hpath : r'.path = r.path)
    (hid : r'.sessionId = r.sessionId)
    (hbusy : r'.point.busy = true → r.point.busy = true ∨ r.sessionId ∈ w.sessions) (locks : Locks)
    {finished partials : List CacheName}
    (hfinished : ∀ p ∈ finished, p ∈ w.finished ∨ p = r.path ∧ r.point.busy = true)
    (hpartials : ∀ p ∈ partials, p ∈ w.partials ∨ p = r.path ∧ r.point.busy = true) :
    Due d { w with requests := w.requests.set i r', locks, finished, partials } := by
  have hmem := List.mem_of_getElem? hr
  have hset : ∀ s ∈ w.requests.set i r', s = r' ∨ s ∈ w.requests := fun s hs =>
    (List.mem_or_eq_of_mem_set hs).symm
  refine ⟨h.gone, fun hread s hs hne hin => ?_, fun p hp s hs hsp hsbusy => ?_, fun p hp hin => ?_,
    fun p hp hin => ?_⟩
  · rcases hset s hs with rfl | hs
    · rw [hpath]
      exact h.theirs hread r hmem (hid ▸ hne) (hid ▸ hin)
    · exact h.theirs hread s hs hne hin
  · rcases hset s hs with rfl | hs
    · rcases hbusy hsbusy with hold | hin
      · exact h.awaits p hp r hmem (hpath ▸ hsp) hold
      · -- a request let past after the others were read is for a part of what another Session recorded
        cases hread : w.stage.hasRead with
        | true =>
          have hne : r.sessionId ≠ d.sessionId := by
            intro heq
            refine h.gone ?_ (heq ▸ hin)
            intro hasked
            rw [hasked] at hread
            cases hread
          have hany := h.theirs hread r hmem hne hin
          rw [Deletion.takes, belongs, ← hsp, hpath, hany] at hp
          simp at hp
        | false =>
          show w.stage.awaits p
          cases hstage : w.stage <;> simp_all [Stage.hasRead, Stage.awaits]
    · exact h.awaits p hp s hs hsp hsbusy
  · rcases hfinished p hin with hin | ⟨rfl, hold⟩
    · exact h.removes p hp hin
    · exact Stage.removes_of_awaits (h.awaits _ hp r hmem rfl hold)
  · rcases hpartials p hin with hin | ⟨rfl, hold⟩
    · exact h.removesPartial p hp hin
    · exact Stage.removesPartial_of_awaits (h.awaits _ hp r hmem rfl hold)

/-- How the deletion may leave the cache once it has committed, the locks apart. -/
theorem Due.deletion (stage' : Stage) (h : Due d w) (hs : w.stage = stage) (hasked : stage ≠ .asked)
    (hread : stage'.hasRead = true → stage.hasRead = true) (locks : Locks) {finished partials : List CacheName}
    (hawaits : ∀ p, d.takes p = true → ∀ r ∈ w.requests, r.path = p → r.point.busy = true →
      stage.awaits p → stage'.awaits p)
    (hremoves : ∀ p, d.takes p = true → p ∈ finished → p ∈ w.finished ∧ (stage.removes p → stage'.removes p))
    (hparts : ∀ p, d.takes p = true → p ∈ partials →
      p ∈ w.partials ∧ (stage.removesPartial p → stage'.removesPartial p)) :
    Due d { w with stage := stage', locks, finished, partials } := by
  subst hs
  exact {
    gone := fun _ => h.gone hasked
    theirs := fun hr => h.theirs (hread hr)
    awaits := fun p hp r hr hrp hbusy => hawaits p hp r hr hrp hbusy (h.awaits p hp r hr hrp hbusy)
    removes := fun p hp hin => (hremoves p hp hin).2 (h.removes p hp (hremoves p hp hin).1)
    removesPartial := fun p hp hin => (hparts p hp hin).2 (h.removesPartial p hp (hparts p hp hin).1) }

structure World.Inv (d : Deletion) (w : World) : Prop where
  locked : Locked w.locks w.requests w.stage
  due : Due d w

namespace World

/-- A request that goes on under the lock. -/
theorem Inv.inside (h : w.Inv d) (hr : w.requests[i]? = some r) (hp : r.point.holds = true) (point : Point)
    (hp' : point.holds = true) (hbusy : point.busy = true → r.point.busy = true ∨ r.sessionId ∈ w.sessions)
    {finished partials : List CacheName}
    (hfinished : ∀ p ∈ finished, p ∈ w.finished ∨ p = r.path ∧ r.point.busy = true)
    (hpartials : ∀ p ∈ partials, p ∈ w.partials ∨ p = r.path ∧ r.point.busy = true) :
    Inv d { w.goes i r point with finished, partials } where
  locked := by
    refine h.locked.request { r with point } hr rfl (fun p => ?_) (fun _ => h.locked.holds i r hr hp)
      (fun p party _ _ hparty => hparty)
    rw [registered_of_holds hp, registered_of_holds hp']
    rfl
  due := h.due.request { r with point } hr rfl rfl hbusy w.locks hfinished hpartials

theorem Inv.stays (h : w.Inv d) (hr : w.requests[i]? = some r) (hp : r.point.holds = true) (point : Point)
    (hp' : point.holds = true) (hbusy : point.busy = true → r.point.busy = true ∨ r.sessionId ∈ w.sessions) :
    Inv d (w.goes i r point) :=
  h.inside hr hp point hp' hbusy (fun _ hp => .inl hp) (fun _ hp => .inl hp)

/-- A request that goes on at the lock itself. -/
theorem Inv.atLock (h : w.Inv d) (hr : w.requests[i]? = some r) (hpath : r'.path = r.path)
    (hid : r'.sessionId = r.sessionId) (hidle : r'.point.busy = false)
    (hlocked : Locked locks (w.requests.set i r') w.stage) :
    Inv d { w with requests := w.requests.set i r', locks } where
  locked := hlocked
  due := h.due.request r' hr hpath hid (fun hbusy => absurd hbusy (by simp [hidle])) locks
    (fun _ hp => .inl hp) (fun _ hp => .inl hp)

theorem ne_of_mem_filter {p q : CacheName} {copies : List CacheName} (h : p ∈ copies.filter (· ≠ q)) : p ≠ q := by
  simpa using (List.mem_filter.mp h).2

theorem mem_of_mem_insert {p q : CacheName} {copies : List CacheName} (h : p ∈ copies.insert q) :
    p ∈ copies ∨ p = q := (List.mem_insert_iff.mp h).symm

/-- A request joins the users of its part's lock. -/
theorem Inv.enter (h : w.Inv d) (hr : w.requests[i]? = some r) (hp : r.point = .outside) :
    Inv d { w.goes i r .waiting with locks := w.locks.enter r.path } := by
  refine h.atLock hr rfl rfl rfl (h.locked.request _ hr rfl (fun p => ?_) nofun fun p party _ _ hparty =>
    Locks.holder_enter hparty)
  rw [Locks.users_enter, hp]
  simp [Point.registered, eq_comm]

theorem Inv.acquire (h : w.Inv d) (hr : w.requests[i]? = some r) (hp : r.point = .waiting)
    (hlocks : w.locks.acquire r.path (.request i) = some locks) : Inv d { w.goes i r .holding with locks } := by
  refine h.atLock hr rfl rfl rfl (h.locked.request _ hr rfl (fun p => ?_) (fun _ => ?_) fun p party _ _ hparty =>
    Locks.holder_acquire hlocks hparty)
  · rw [Locks.users_acquire hlocks, hp]
    rfl
  · rw [(Locks.entry_acquire hlocks).2, if_pos rfl]

theorem Inv.release (h : w.Inv d) (hr : w.requests[i]? = some r) (hp : r.point = .leaving) :
    Inv d { w.goes i r .released with locks := w.locks.release r.path } := by
  have hholder := h.locked.holds i r hr (by rw [hp]; rfl)
  refine h.atLock hr rfl rfl rfl (h.locked.request _ hr rfl (fun p => ?_) nofun fun p party hne _ hparty =>
    Locks.holder_release hholder hne hparty)
  rw [Locks.users_release, hp]
  rfl

theorem Inv.leave (h : w.Inv d) (hr : w.requests[i]? = some r) (hp : r.point = .released) :
    Inv d { w.goes i r .answered with locks := w.locks.leave r.path } := by
  have hpos : 0 < (w.locks.entry r.path).users := by
    rw [h.locked.users]
    exact users_pos hr (by rw [hp]; rfl)
  refine h.atLock hr rfl rfl rfl (h.locked.request _ hr rfl (fun p => ?_) nofun fun p party _ hleft hparty =>
    Locks.holder_of_left hleft hparty)
  rw [Locks.users_leave, hp]
  rcases eq_or_ne p r.path with rfl | hne
  · simp [Point.registered]
    omega
  · simp [Point.registered, hne, Ne.symm hne]

/-- A request whose copy was dropped starts over. -/
theorem Inv.again (h : w.Inv d) (hr : w.requests[i]? = some r) (hp : r.point = .answered) :
    Inv d (w.goes i { r with again := true } .outside) := by
  refine h.atLock hr rfl rfl rfl (h.locked.request _ hr rfl (fun p => ?_) nofun fun p party _ _ hparty => hparty)
  rw [hp]
  rfl

/-- A request puts its part among the copies, whatever becomes of the partial downloads. -/
theorem Inv.finishes (h : w.Inv d) (hr : w.requests[i]? = some r) (hp : r.point.holds = true)
    (hbusy : r.point.busy = true) {partials : List CacheName} (hpartials : ∀ p ∈ partials, p ∈ w.partials) :
    Inv d { w.goes i r .leaving with finished := w.finished.insert r.path, partials } :=
  h.inside hr hp .leaving rfl nofun (fun _ hin => (mem_of_mem_insert hin).imp_right fun heq => ⟨heq, hbusy⟩)
    fun p hin => .inl (hpartials p hin)

theorem Inv.requestStep (h : w.Inv d) (hr : w.requests[i]? = some r) {a : RequestAct}
    (hstep : w.requestStep i r a = some w') : w'.Inv d := by
  cases a with
  | enter =>
    simp only [World.requestStep] at hstep
    split_ifs at hstep with hp
    cases hstep
    exact h.enter hr hp
  | acquire =>
    simp only [World.requestStep] at hstep
    split_ifs at hstep with hp
    obtain ⟨locks, hlocks, rfl⟩ := Option.map_eq_some_iff.mp hstep
    exact h.acquire hr hp hlocks
  | check =>
    simp only [World.requestStep] at hstep
    split_ifs at hstep with hp hin
    · cases hstep
      exact h.stays hr (by rw [hp]; rfl) .allowed rfl fun _ => .inr hin
    · cases hstep
      exact h.stays hr (by rw [hp]; rfl) .leaving rfl nofun
  | look =>
    simp only [World.requestStep] at hstep
    split_ifs at hstep with hp hin
    · cases hstep
      exact h.stays hr (by rw [hp]; rfl) .found rfl fun _ => .inl (by rw [hp]; rfl)
    · cases hstep
      exact h.stays hr (by rw [hp]; rfl) .opening rfl fun _ => .inl (by rw [hp]; rfl)
  | touch =>
    simp only [World.requestStep] at hstep
    split_ifs at hstep with hp
    cases hstep
    exact h.finishes hr (by rw [hp]; rfl) (by rw [hp]; rfl) fun _ hin => hin
  | opened =>
    simp only [World.requestStep] at hstep
    split_ifs at hstep with hp
    cases hstep
    have hbusy : r.point.busy = true := by rw [hp]; rfl
    exact h.inside hr (by rw [hp]; rfl) .downloading rfl (fun _ => .inl hbusy) (fun p hin => .inl hin)
      fun p hin => (mem_of_mem_insert hin).imp_right fun heq => ⟨heq, hbusy⟩
  | fetched =>
    simp only [World.requestStep] at hstep
    split_ifs at hstep with hp
    cases hstep
    exact h.stays hr (by rw [hp]; rfl) .fetched rfl fun _ => .inl (by rw [hp]; rfl)
  | broke =>
    simp only [World.requestStep] at hstep
    split_ifs at hstep with hp
    cases hstep
    exact h.stays hr (by rw [hp]; rfl) .broken rfl fun _ => .inl (by rw [hp]; rfl)
  | discard =>
    simp only [World.requestStep] at hstep
    split_ifs at hstep with hp
    cases hstep
    exact h.inside hr (by rw [hp]; rfl) .leaving rfl nofun (fun p hin => .inl hin) fun p hin =>
      .inl (List.mem_of_mem_filter hin)
  | rename =>
    simp only [World.requestStep] at hstep
    split_ifs at hstep with hp hin
    · cases hstep
      exact h.finishes hr (by rw [hp]; rfl) (by rw [hp]; rfl) fun p hin => List.mem_of_mem_filter hin
    · cases hstep
      exact h.stays hr (by rw [hp]; rfl) .leaving rfl nofun
  | raised =>
    simp only [World.requestStep] at hstep
    split_ifs at hstep with hp
    cases hstep
    exact h.stays hr hp .leaving rfl nofun
  | release =>
    simp only [World.requestStep] at hstep
    split_ifs at hstep with hp
    cases hstep
    exact h.release hr hp
  | leave =>
    simp only [World.requestStep] at hstep
    split_ifs at hstep with hp
    cases hstep
    exact h.leave hr hp
  | again =>
    simp only [World.requestStep] at hstep
    split_ifs at hstep with hp
    cases hstep
    rw [Bool.and_eq_true, decide_eq_true_eq] at hp
    exact h.again hr hp.1

section

variable {copies left : List CacheName} {copy : CacheName}

theorem Inv.commit (h : w.Inv d) (hs : w.stage = .asked) :
    Inv d { w with sessions := w.sessions.filter (· ≠ d.sessionId), stage := .committed } := by
  have hlocked := h.locked
  rw [hs] at hlocked
  exact ⟨hlocked.stays (fun _ => rfl) nofun, fun _ => by simp, nofun, fun _ _ _ _ _ _ => trivial,
    fun _ _ _ => trivial, fun _ _ _ => trivial⟩

/-- The other Sessions' windows are read where all that is requested of them is in one. -/
theorem Inv.read (h : w.Inv d) (hs : w.stage = .committed) (hauthorised : w.authorised d = true) :
    Inv d { w with stage := .read } := by
  have hlocked := h.locked
  rw [authorised, List.all_eq_true] at hauthorised
  rw [hs] at hlocked
  refine ⟨hlocked.stays (fun _ => rfl) nofun, fun _ => h.due.gone (by rw [hs]; nofun),
    fun _ r hr hne hin => ?_, fun _ _ _ _ _ _ => trivial, fun _ _ _ => trivial, fun _ _ _ => trivial⟩
  simpa [hne, hin] using hauthorised r hr

/-- A part still being fetched has its lock among those seen. -/
theorem Inv.snapshot (h : w.Inv d) (hs : w.stage = .read) :
    Inv d { w with stage := .looking w.locks.keys } := by
  have hlocked := h.locked
  rw [hs] at hlocked
  refine ⟨hlocked.stays (fun _ => rfl) nofun, h.due.deletion _ hs nofun (fun _ => rfl) w.locks
    (fun p _ r hr hrp hbusy _ => ?_) (fun p _ hin => ⟨hin, fun _ => trivial⟩)
    fun p _ hin => ⟨hin, fun _ => trivial⟩⟩
  obtain ⟨i, hi⟩ := List.mem_iff_getElem?.mp hr
  refine Locks.mem_keys_of_users ?_
  rw [hlocked.users, ← hrp]
  exact users_pos hi (registered_of_holds (holds_of_busy hbusy))

theorem Inv.glob (h : w.Inv d) (hs : w.stage = .looking left) :
    Inv d { w with stage := .globbed (w.finished ++ left) } := by
  have hlocked := h.locked
  rw [hs] at hlocked
  exact ⟨hlocked.stays (fun _ => rfl) nofun, h.due.deletion _ hs nofun (fun _ => rfl) w.locks
    (fun p _ r _ _ _ hold => List.mem_append_right _ hold)
    (fun p _ hin => ⟨hin, fun _ => List.mem_append_left _ hin⟩) fun p _ hin => ⟨hin, fun _ => trivial⟩⟩

theorem Inv.globPartials (h : w.Inv d) (hs : w.stage = .globbed copies) :
    Inv d { w with stage := .next ((copies ++ w.partials).filter d.takes) } := by
  have hlocked := h.locked
  rw [hs] at hlocked
  have htake : ∀ p, d.takes p = true → p ∈ copies → p ∈ (copies ++ w.partials).filter d.takes :=
    fun p hp hin => List.mem_filter.mpr ⟨List.mem_append_left _ hin, hp⟩
  exact ⟨hlocked.stays (fun _ => rfl) nofun, h.due.deletion _ hs nofun (fun _ => rfl) w.locks
    (fun p hp r _ _ _ hold => htake p hp hold) (fun p hp hin => ⟨hin, fun hold => htake p hp hold⟩)
    fun p hp hin => ⟨hin, fun _ => List.mem_filter.mpr ⟨List.mem_append_right _ hin, hp⟩⟩⟩

theorem Inv.enterCopy (h : w.Inv d) (hs : w.stage = .next left) :
    Inv d { w with locks := w.locks.enter copy, stage := .waiting copy (left.filter (· ≠ copy)) } := by
  have hlocked := h.locked
  rw [hs] at hlocked
  have hsplit : ∀ p, p ∈ left → p = copy ∨ p ∈ left.filter (· ≠ copy) := by
    intro p hp
    by_cases heq : p = copy
    · exact .inl heq
    · exact .inr (List.mem_filter.mpr ⟨hp, by simpa using heq⟩)
  refine ⟨hlocked.deletion (fun p => ?_) nofun fun p party _ _ hparty => Locks.holder_enter hparty,
    h.due.deletion _ hs nofun (fun _ => rfl) _ (fun p _ r _ _ _ hold => hsplit p hold)
      (fun p _ hin => ⟨hin, hsplit p⟩) fun p _ hin => ⟨hin, hsplit p⟩⟩
  rw [Locks.users_enter]
  simp [Stage.registered, eq_comm]

theorem Inv.acquireCopy (h : w.Inv d) (hs : w.stage = .waiting copy left)
    (hlocks : w.locks.acquire copy .deletion = some locks) :
    Inv d { w with locks, stage := .holding copy left } := by
  obtain ⟨hnone, hentry⟩ := Locks.entry_acquire hlocks
  have hlocked := h.locked
  rw [hs] at hlocked
  refine ⟨hlocked.deletion (fun p => ?_) (fun p hp => ?_) fun p party _ _ hparty =>
      Locks.holder_acquire hlocks hparty,
    h.due.deletion _ hs nofun (fun _ => rfl) _ (fun p _ r hr hrp hbusy hold => ?_)
      (fun p _ hin => ⟨hin, fun hold => hold⟩) fun p _ hin => ⟨hin, fun hold => hold⟩⟩
  · rw [Locks.users_acquire hlocks]
    rfl
  · rw [hentry, if_pos (of_decide_eq_true hp).symm]
  · -- no request is let past under a lock that is free
    rcases hold with rfl | hold
    · obtain ⟨i, hi⟩ := List.mem_iff_getElem?.mp hr
      have hheld := hlocked.holds i r hi (holds_of_busy hbusy)
      rw [hrp, hnone] at hheld
      cases hheld
    · exact hold

theorem Inv.unlinkCopy (h : w.Inv d) (hs : w.stage = .holding copy left) :
    Inv d { w with finished := w.finished.filter (· ≠ copy), stage := .unlinking copy left } := by
  have hlocked := h.locked
  rw [hs] at hlocked
  exact ⟨hlocked.stays (fun _ => rfl) (fun _ hp => hp),
    h.due.deletion _ hs nofun (fun _ => rfl) w.locks (fun p _ r _ _ _ hold => hold)
      (fun p _ hin => ⟨List.mem_of_mem_filter hin, fun hold => hold.resolve_left (ne_of_mem_filter hin)⟩)
      fun p _ hin => ⟨hin, fun hold => hold⟩⟩

theorem Inv.unlinkPartial (h : w.Inv d) (hs : w.stage = .unlinking copy left) :
    Inv d { w with partials := w.partials.filter (· ≠ copy), stage := .leaving copy left } := by
  have hlocked := h.locked
  rw [hs] at hlocked
  exact ⟨hlocked.stays (fun _ => rfl) (fun _ hp => hp),
    h.due.deletion _ hs nofun (fun _ => rfl) w.locks (fun p _ r _ _ _ hold => hold)
      (fun p _ hin => ⟨hin, fun hold => hold⟩)
      fun p _ hin => ⟨List.mem_of_mem_filter hin, fun hold => hold.resolve_left (ne_of_mem_filter hin)⟩⟩

theorem Inv.releaseCopy (h : w.Inv d) (hs : w.stage = .leaving copy left) :
    Inv d { w with locks := w.locks.release copy, stage := .released copy left } := by
  have hlocked := h.locked
  rw [hs] at hlocked
  have hholder := hlocked.deletionHolds copy (decide_eq_true rfl)
  refine ⟨hlocked.deletion (fun p => ?_) nofun fun p party hne _ hparty => Locks.holder_release hholder hne hparty,
    h.due.deletion _ hs nofun (fun _ => rfl) _ (fun p _ r _ _ _ hold => hold)
      (fun p _ hin => ⟨hin, fun hold => hold⟩) fun p _ hin => ⟨hin, fun hold => hold⟩⟩
  rw [Locks.users_release]
  rfl

theorem Inv.leaveCopy (h : w.Inv d) (hs : w.stage = .released copy left) :
    Inv d { w with locks := w.locks.leave copy, stage := .next left } := by
  have hlocked := h.locked
  rw [hs] at hlocked
  have hpos : 0 < (w.locks.entry copy).users := by
    rw [hlocked.users, users]
    simp [Stage.registered]
  refine ⟨hlocked.deletion (fun p => ?_) nofun fun p party _ hleft hparty => Locks.holder_of_left hleft hparty,
    h.due.deletion _ hs nofun (fun _ => rfl) _ (fun p _ r _ _ _ hold => hold)
      (fun p _ hin => ⟨hin, fun hold => hold⟩) fun p _ hin => ⟨hin, fun hold => hold⟩⟩
  rw [Locks.users_leave]
  rcases eq_or_ne p copy with rfl | hne
  · simp [Stage.registered]
    omega
  · simp [Stage.registered, hne, Ne.symm hne]

theorem Inv.returns (h : w.Inv d) (hs : w.stage = .next []) : Inv d { w with stage := .returned } := by
  have hlocked := h.locked
  rw [hs] at hlocked
  exact ⟨hlocked.stays (fun _ => rfl) nofun, h.due.deletion _ hs nofun (fun _ => rfl) w.locks
    (fun p _ r _ _ _ hold => nomatch hold) (fun p _ hin => ⟨hin, fun hold => nomatch hold⟩)
    fun p _ hin => ⟨hin, fun hold => nomatch hold⟩⟩

end

theorem Inv.deletionStep (h : w.Inv d) {a : DeletionAct} (hstep : w.deletionStep d a = some w') : w'.Inv d := by
  cases a with
  | commit =>
    simp only [World.deletionStep] at hstep
    split_ifs at hstep with hs
    cases hstep
    exact h.commit hs
  | read =>
    simp only [World.deletionStep] at hstep
    split_ifs at hstep with hs
    cases hstep
    rw [Bool.and_eq_true, decide_eq_true_eq] at hs
    exact h.read hs.1 hs.2
  | snapshot =>
    simp only [World.deletionStep] at hstep
    split_ifs at hstep with hs
    cases hstep
    exact h.snapshot hs
  | glob =>
    simp only [World.deletionStep] at hstep
    split at hstep
    · next downloading hs =>
      cases hstep
      exact h.glob hs
    · cases hstep
  | globPartials =>
    simp only [World.deletionStep] at hstep
    split at hstep
    · next copies hs =>
      cases hstep
      exact h.globPartials hs
    · cases hstep
  | enterCopy copy =>
    simp only [World.deletionStep] at hstep
    split at hstep
    · next left hs =>
      split_ifs at hstep with hcopy
      cases hstep
      exact h.enterCopy hs
    · cases hstep
  | acquireCopy =>
    simp only [World.deletionStep] at hstep
    split at hstep
    · next copy left hs =>
      obtain ⟨locks, hlocks, rfl⟩ := Option.map_eq_some_iff.mp hstep
      exact h.acquireCopy hs hlocks
    · cases hstep
  | unlinkCopy =>
    simp only [World.deletionStep] at hstep
    split at hstep
    · next copy left hs =>
      cases hstep
      exact h.unlinkCopy hs
    · cases hstep
  | unlinkPartial =>
    simp only [World.deletionStep] at hstep
    split at hstep
    · next copy left hs =>
      cases hstep
      exact h.unlinkPartial hs
    · cases hstep
  | releaseCopy =>
    simp only [World.deletionStep] at hstep
    split at hstep
    · next copy left hs =>
      cases hstep
      exact h.releaseCopy hs
    · cases hstep
  | leaveCopy =>
    simp only [World.deletionStep] at hstep
    split at hstep
    · next copy left hs =>
      cases hstep
      exact h.leaveCopy hs
    · cases hstep
  | returns =>
    simp only [World.deletionStep] at hstep
    split_ifs at hstep with hs
    cases hstep
    exact h.returns hs

theorem Inv.step (h : w.Inv d) {a : Act} (hstep : w.step d a = some w') : w'.Inv d := by
  cases a with
  | request i a =>
    obtain ⟨r, hr, hstep⟩ := Option.bind_eq_some_iff.mp hstep
    exact h.requestStep hr hstep
  | deletion a => exact h.deletionStep hstep
  | prune copies partials =>
    cases hstep
    exact ⟨h.locked, h.due.gone, h.due.theirs, h.due.awaits,
      fun p hp hin => h.due.removes p hp (List.mem_of_mem_filter hin),
      fun p hp hin => h.due.removesPartial p hp (List.mem_of_mem_filter hin)⟩
  | otherDeleted sessionId =>
    cases hstep
    exact ⟨h.locked, fun hs hin => h.due.gone hs (List.mem_of_mem_filter hin),
      fun hread r hr hne hin => h.due.theirs hread r hr hne (List.mem_of_mem_filter hin),
      h.due.awaits, h.due.removes, h.due.removesPartial⟩

theorem Inv.run {acts : List Act} (h : w.Inv d) (hrun : w.run d acts = some w') : w'.Inv d := by
  induction acts generalizing w with
  | nil =>
    cases hrun
    exact h
  | cons a acts ih =>
    obtain ⟨w₁, hstep, hrun⟩ := Option.bind_eq_some_iff.mp hrun
    exact ih (h.step hstep) hrun

theorem inv_start (sessions : List Uuid) (finished partials : List CacheName) (requests : List Request) :
    Inv d (start sessions finished partials requests) where
  locked := by
    have hout : ∀ r ∈ (start sessions finished partials requests).requests, r.point = .outside := by
      intro r hr
      obtain ⟨r, -, rfl⟩ := List.mem_map.mp hr
      rfl
    refine ⟨fun p => ?_, fun i r hr hheld => ?_, nofun⟩
    · have hcount : (start sessions finished partials requests).requests.countP
          (fun r => r.point.registered && r.path = p) = 0 := by
        rw [List.countP_eq_zero]
        intro r hr
        rw [hout r hr]
        exact Bool.false_ne_true
      rw [users, hcount]
      rfl
    · rw [hout r (List.mem_of_getElem? hr)] at hheld
      cases hheld
  due := ⟨nofun, nofun, fun _ _ _ _ _ _ => trivial, fun _ _ _ => trivial, fun _ _ _ => trivial⟩

private theorem requestStep_stage {a : RequestAct} (hstep : w.requestStep i r a = some w') : w'.stage = w.stage := by
  cases a with
  | acquire =>
    simp only [World.requestStep] at hstep
    split_ifs at hstep
    obtain ⟨locks, -, rfl⟩ := Option.map_eq_some_iff.mp hstep
    rfl
  | _ =>
    simp only [World.requestStep] at hstep
    split_ifs at hstep <;> cases hstep <;> rfl

private theorem returned_step (hs : w.stage = .returned) {a : Act} (hstep : w.step d a = some w') :
    w'.stage = .returned := by
  cases a with
  | request i a =>
    obtain ⟨r, -, hstep⟩ := Option.bind_eq_some_iff.mp hstep
    exact (requestStep_stage hstep).trans hs
  | deletion a => cases a <;> simp [World.step, World.deletionStep, hs] at hstep
  | prune copies partials =>
    cases hstep
    exact hs
  | otherDeleted sessionId =>
    cases hstep
    exact hs

private theorem returned_run {acts : List Act} (hs : w.stage = .returned) (hrun : w.run d acts = some w') :
    w'.stage = .returned := by
  induction acts generalizing w with
  | nil =>
    cases hrun
    exact hs
  | cons a acts ih =>
    obtain ⟨w₁, hstep, hrun⟩ := Option.bind_eq_some_iff.mp hrun
    exact ih (returned_step hs hstep) hrun

/-- Once the deletion has returned, nothing of what only the deleted Session recorded is in the cache, whatever
the requests go on to do. -/
theorem deleted_video_gone {sessions : List Uuid} {finished partials : List CacheName} {requests : List Request}
    {acts later : List Act} (hrun : (start sessions finished partials requests).run d acts = some w)
    (hreturned : w.stage = .returned) (hlater : w.run d later = some w') :
    ∀ p, d.takes p = true → p ∉ w'.finished ∧ p ∉ w'.partials := by
  have h := ((inv_start sessions finished partials requests).run hrun).run hlater
  have hs := returned_run hreturned hlater
  intro p hp
  refine ⟨fun hin => ?_, fun hin => ?_⟩
  · have hdue := h.due.removes p hp hin
    rw [hs] at hdue
    exact hdue
  · have hdue := h.due.removesPartial p hp hin
    rw [hs] at hdue
    exact hdue

/-- A Session that recorded ten seconds, and another after it. -/
def ten : Deletion := ⟨1, [(0, 10000000)], [(20000000, 30000000)]⟩

/-- A part asked for from its third second. -/
def third : Request := ⟨1, "cam1", 2000000, 5 / 2, .outside, false⟩

/-- The part is downloading when its Session is deleted, and a second request waits for it. -/
def overtaken : List Act := [
  .request 0 .enter, .request 0 .acquire, .request 0 .check, .request 0 .look, .request 0 .opened,
  .request 1 .enter,
  .deletion .commit, .deletion .read, .deletion .snapshot, .deletion .glob, .deletion .globPartials,
  .deletion (.enterCopy third.path),
  .request 0 .fetched, .request 0 .rename, .request 0 .release, .request 0 .leave,
  .request 1 .acquire, .request 1 .check, .request 1 .release, .request 1 .leave,
  .deletion .acquireCopy, .deletion .unlinkCopy, .deletion .unlinkPartial, .deletion .releaseCopy,
  .deletion .leaveCopy, .deletion .returns]

theorem deleted_video_gone_overtaken : ∃ w, (start [1, 2] [] [] [third, third]).run ten overtaken = some w ∧
    ten.takes third.path = true ∧ third.path ∉ w.finished ∧ third.path ∉ w.partials := by
  obtain ⟨w, hw⟩ := Option.isSome_iff_exists.mp
    (show ((start [1, 2] [] [] [third, third]).run ten overtaken).isSome by decide +kernel)
  have hreturned : ∀ w ∈ (start [1, 2] [] [] [third, third]).run ten overtaken, w.stage = .returned := by
    decide +kernel
  have htakes : ten.takes third.path = true := by decide +kernel
  have hlater : w.run ten [] = some w := rfl
  exact ⟨w, hw, htakes, deleted_video_gone hw (hreturned w hw) hlater third.path htakes⟩

end World
end Kanat.ReplayCache
