import Kanat.ListUpdates

/-! # The player of one camera over WHEP

`useWhepStream`, with `whepConnect` and `whepDisconnect`. An attempt is one run of the hook's effect, and its
variables outlive it: whatever it started may still come back. React commits a render and runs its effects in one
step. -/
namespace Kanat.WhepStream
open ListUpdates

def noVideoMs : ℕ := 8000

inductive StreamStatus where
  | loading
  | playing
  | error
  deriving DecidableEq

structure WhepSession where
  answerSdp : String
  /-- DELETE this to end the session. -/
  resourceUrl : Option String

/-- What MediaMTX answered an offer. Reading its body may fail, the answer's status and headers being in. -/
structure Response where
  status : ℕ
  location : Option String
  text : Except String String

/-- The session MediaMTX has opened with its answer; `href` resolves a Location against MediaMTX, or throws. -/
def Response.opens (href : String → Except String String) (res : Response) : Option String :=
  if res.status ≠ 200 ∧ res.status ≠ 201 then none
  else (res.location.filter (· ≠ "")).bind fun location => (href location).toOption

def whepConnect (href : String → Except String String) (res : Response) : Except String WhepSession :=
  if res.status ≠ 200 ∧ res.status ≠ 201 then
    .error <|
      if res.status = 404 then "No signal from camera"
      else if res.status = 400 then "Camera not set up in the video service yet"
      else s!"Connection error (HTTP {res.status})"
  else do
    let answerSdp ← res.text
    let resourceUrl ← (res.location.filter (· ≠ "")).mapM href
    return ⟨answerSdp, resourceUrl⟩

/-- Where the promises from `createOffer` on are. -/
inductive Phase where
  | offering
  | connecting
  | answered
  | settled
  deriving DecidableEq

/-- A `setTimeout`, once made: still to fire, or fired or cleared. -/
inductive Timer where
  | unset
  | pending
  | over
  deriving DecidableEq

structure Attempt where
  path : String
  attempt : ℕ
  closed : Bool := false
  phase : Phase := .offering
  resourceUrl : Option String := none
  /-- Why the connection would be given up, while the timer is on. -/
  stallTimer : Option String := none
  retryTimer : Timer := .unset
  watching : Bool := true
  lastBytes : ℕ := 0
  lastGrowth : ℕ
  deriving DecidableEq

inductive Entry where
  | warning (camera reason : String)
  | playing (camera after : String)
  deriving DecidableEq

structure State where
  path : String
  status : StreamStatus := .loading
  reason : Option String := none
  attempt : ℕ := 0
  problem : Option String := none
  attempts : List Attempt := []
  unmounted : Bool := false
  /-- What was logged, of each camera watched in turn, the last first. -/
  logs : List (String × List Entry) := []
  /-- The sessions MediaMTX opened, those sent a DELETE, and those whose answer was not read to its end. -/
  opened : List String := []
  released : List String := []
  unread : List String := []

inductive ConnectionState where
  | connected
  | disconnected
  | failed
  | other

inductive Event where
  | render (path : String) (now : ℕ)
  | unmount
  | reconnect
  | onPlaying
  | offered (id : ℕ)
  | answered (id : ℕ) (res : Response)
  /-- The answer is set as the remote description. -/
  | described (id : ℕ)
  | rejected (id : ℕ) (message : Option String)
  | ended (id : ℕ)
  | connectionState (id : ℕ) (s : ConnectionState)
  | stalled (id : ℕ)
  | retried (id : ℕ)
  | watched (id : ℕ) (bytes : Option ℕ) (now : ℕ)

namespace State

def log (s : State) (entry : Entry) : State :=
  { s with logs := match s.logs with
      | [] => [(s.path, [entry])]
      | (camera, entries) :: logs => (camera, entries ++ [entry]) :: logs }

def update (s : State) (id : ℕ) (a : Attempt) : State := { s with attempts := s.attempts.set id a }

/-- A problem, logged if it is a new one. -/
def report (s : State) (camera why : String) : State :=
  if s.problem ≠ some why then { s.log (.warning camera why) with problem := some why } else s

/-- `fail`, of the attempt `id`. -/
def fail (s : State) (id : ℕ) (a : Attempt) (why : String) : State :=
  if a.closed || a.retryTimer ≠ .unset then s.update id a
  else
    { s.report a.path why with reason := some why, status := .error }.update id { a with retryTimer := .pending }

/-- What the effect returns, run of its attempt. -/
def cleanup (s : State) (id : ℕ) (a : Attempt) : State :=
  { s with released := s.released ++ a.resourceUrl.toList }.update id
    { a with
      closed := true
      watching := false
      stallTimer := none
      retryTimer := if a.retryTimer = Timer.pending then .over else a.retryTimer }

def cleanupLast (s : State) : State :=
  match s.attempts.getLast? with
  | none => s
  | some a => s.cleanup (s.attempts.length - 1) a

/-- The effect on `[path]`. -/
def watchPath (s : State) (path : String) : State :=
  { s with path, problem := none, logs := (path, []) :: s.logs }

/-- The effect on `[path, attempt]`. -/
def start (s : State) (now : ℕ) : State :=
  { s with
    status := .loading
    reason := none
    attempts := s.attempts ++ [{ path := s.path, attempt := s.attempt, lastGrowth := now }] }

/-- A commit: the effects whose dependencies changed, their cleanups first. -/
def render (s : State) (path : String) (now : ℕ) : State :=
  match s.attempts.getLast? with
  | none => (s.watchPath path).start now
  | some a =>
    if a.path = path then
      if a.attempt = s.attempt then s else s.cleanupLast.start now
    else (s.cleanupLast.watchPath path).start now

def onPlaying (s : State) : State :=
  match s.problem with
  | none => { s with status := .playing }
  | some after => { s.log (.playing s.path after) with status := .playing, problem := none }

/-- What one attempt goes through, `s` the state and `a` its variables. -/
@[grind =] def step (href : String → Except String String) (s : State) : Event → State
  | .render path now => if s.unmounted then s else s.render path now
  | .unmount => if s.unmounted then s else { s.cleanupLast with unmounted := true }
  | .reconnect => if s.unmounted then s else { s with attempt := s.attempt + 1 }
  | .onPlaying => if s.unmounted then s else s.onPlaying
  | .offered id =>
    match s.attempts[id]? with
    | some a => if a.phase = .offering then s.update id { a with phase := .connecting } else s
    | none => s
  | .answered id res =>
    match s.attempts[id]? with
    | some a =>
      if a.phase = .connecting then
        match whepConnect href res with
        | .error why =>
          { s with opened := s.opened ++ (res.opens href).toList, unread := s.unread ++ (res.opens href).toList }.fail id
            { a with phase := .settled } why
        | .ok session =>
          let s := { s with opened := s.opened ++ session.resourceUrl.toList }
          if a.closed then
            -- unmounted while connecting: release the session MediaMTX just opened
            { s with released := s.released ++ session.resourceUrl.toList }.update id { a with phase := .settled }
          else s.update id { a with phase := .answered, resourceUrl := session.resourceUrl }
      else s
    | none => s
  | .described id =>
    match s.attempts[id]? with
    | some a => if a.phase = .answered then s.update id { a with phase := .settled } else s
    | none => s
  | .rejected id message =>
    match s.attempts[id]? with
    | some a =>
      if a.phase = .settled then s else s.fail id { a with phase := .settled } (message.getD "Connection error")
    | none => s
  | .ended id =>
    match s.attempts[id]? with
    | some a => s.fail id a "Stream ended"
    | none => s
  | .connectionState id state =>
    match s.attempts[id]? with
    | some a =>
      if a.closed then s   -- the connection is closed, and says no more
      else
        match state with
        | .connected => s.update id { a with stallTimer := none }
        | .disconnected => s.update id { a with stallTimer := some "Connection lost" }
        | .failed => s.fail id a "Connection failed"
        | .other => s
    | none => s
  | .stalled id =>
    match s.attempts[id]? with
    | some a =>
      match a.stallTimer with
      | some why => s.fail id { a with stallTimer := none } why
      | none => s
    | none => s
  | .retried id =>
    match s.attempts[id]? with
    | some a =>
      if a.retryTimer = .pending then
        { s with attempt := s.attempt + 1 }.update id { a with retryTimer := .over }
      else s
    | none => s
  | .watched id bytes now =>
    match s.attempts[id]? with
    | some a =>
      let bytes := bytes.getD a.lastBytes
      if a.lastBytes < bytes then s.update id { a with lastBytes := bytes, lastGrowth := now }
      else if noVideoMs < now - a.lastGrowth then s.fail id a "No video from camera"
      else s
    | none => s

def run (href : String → Except String String) (events : List Event) (s : State) : State := events.foldl (step href) s

/-- The sessions held by attempts not closed. -/
def held (s : State) : List String := s.attempts.filterMap fun a => if a.closed then none else a.resourceUrl

end State

/-- Only the attempt in force is not closed, and a closed one has nothing left to do. -/
structure Attempt.Fine (live : Prop) (a : Attempt) : Prop where
  closed_iff : a.closed = false ↔ live
  idle : a.closed = true → a.stallTimer = none ∧ a.retryTimer ≠ .pending ∧ a.watching = false
  unanswered : a.phase = .offering ∨ a.phase = .connecting → a.resourceUrl = none

/-- `a'` differs from `a` only in how far it is. -/
structure Attempt.Same (a a' : Attempt) : Prop where
  closed : a'.closed = a.closed
  path : a'.path = a.path
  attempt : a'.attempt = a.attempt
  resourceUrl : a'.resourceUrl = a.resourceUrl
  retryTimer : a'.retryTimer = a.retryTimer
  watching : a'.watching = a.watching
  phase : a'.phase = .offering ∨ a'.phase = .connecting → a.phase = .offering ∨ a.phase = .connecting
  stallTimer : a.closed = true → a.stallTimer = none → a'.stallTimer = none

theorem Attempt.Same.refl (a : Attempt) : a.Same a := ⟨rfl, rfl, rfl, rfl, rfl, rfl, id, fun _ => id⟩

theorem Attempt.Same.settled (a : Attempt) : a.Same { a with phase := .settled } :=
  ⟨rfl, rfl, rfl, rfl, rfl, rfl, nofun, fun _ hstall => hstall⟩

theorem Attempt.Same.unstalled (a : Attempt) : a.Same { a with stallTimer := none } :=
  ⟨rfl, rfl, rfl, rfl, rfl, rfl, fun hp => hp, fun _ _ => rfl⟩

theorem Attempt.Fine.same {live : Prop} {a a' : Attempt} (h : a.Fine live) (hs : a.Same a') : a'.Fine live where
  closed_iff := hs.closed ▸ h.closed_iff
  idle hc := by
    rw [hs.closed] at hc
    obtain ⟨hstall, hretry, hwatch⟩ := h.idle hc
    exact ⟨hs.stallTimer hc hstall, hs.retryTimer ▸ hretry, hs.watching ▸ hwatch⟩
  unanswered hp := hs.resourceUrl ▸ h.unanswered (hs.phase hp)

/-- What is logged of one camera: a problem once until another or the video is back, and that only after a problem. -/
inductive Told (camera : String) : List Entry → Option String → Prop where
  | nil : Told camera [] none
  | warning {entries : List Entry} {problem : Option String} {why : String} :
      Told camera entries problem → problem ≠ some why →
        Told camera (entries ++ [.warning camera why]) (some why)
  | playing {entries : List Entry} {why : String} :
      Told camera entries (some why) → Told camera (entries ++ [.playing camera why]) none

/-- Each camera's log is told as it should be, the last one's up to the problem at hand. -/
def Logged (s : State) : Prop :=
  (s.logs = [] ∧ s.attempts = [] ∧ s.problem = none) ∨
    ∃ entries older, s.logs = (s.path, entries) :: older ∧ Told s.path entries s.problem ∧
      ∀ x ∈ older, ∃ problem, Told x.1 x.2 problem

/-- `live` while the last attempt is in force. -/
structure Inv (live : Bool) (s : State) : Prop where
  attempts : ∀ (i : ℕ) (a : Attempt), s.attempts[i]? = some a → a.Fine (i + 1 = s.attempts.length ∧ live = true)
  sessions : s.opened.Perm (s.unread ++ (s.released ++ s.held))
  inForce : live = true → ∀ a, s.attempts.getLast? = some a → a.path = s.path ∧ a.attempt ≤ s.attempt
  retries : live = true → s.status = .error → ∃ a why, s.attempts.getLast? = some a ∧
    (a.retryTimer = .pending ∨ a.attempt < s.attempt) ∧ s.reason = some why ∧ s.problem = some why
  logged : Logged s

theorem inv_start (path : String) : Inv true { path } where
  attempts i a h := by cases h
  sessions := .nil
  inForce _ a h := by cases h
  retries _ h := by cases h
  logged := .inl ⟨rfl, rfl, rfl⟩

variable {live : Bool} {s : State} {id : ℕ} {a a' : Attempt} {href : String → Except String String}

/-- One more, wherever in the parts it is. -/
theorem perm_append_middle {α : Type} {xs ys zs : List α} (h : xs.Perm (ys ++ zs)) (more : List α) :
    (xs ++ more).Perm (ys ++ (more ++ zs)) := by
  refine (h.append_right more).trans ?_
  rw [List.append_assoc]
  exact List.perm_append_comm.append_left _

namespace Inv

theorem lt_length (h : s.attempts[id]? = some a) : id < s.attempts.length := (List.getElem?_eq_some_iff.mp h).1

/-- An attempt not closed is the last. -/
theorem last (h : Inv live s) (ha : s.attempts[id]? = some a) (hc : a.closed = false) :
    id + 1 = s.attempts.length ∧ live = true ∧ s.attempts.getLast? = some a := by
  obtain ⟨hid, hlive⟩ := (h.attempts id a ha).closed_iff.mp hc
  refine ⟨hid, hlive, ?_⟩
  rw [List.getLast?_eq_getElem?, ← hid, Nat.add_sub_cancel]
  exact ha

theorem attempts_update (h : Inv live s) (hfine : a'.Fine (id + 1 = s.attempts.length ∧ live = true)) (i : ℕ)
    (b : Attempt) (hb : (s.attempts.set id a')[i]? = some b) : b.Fine (i + 1 = s.attempts.length ∧ live = true) := by
  rw [List.getElem?_set] at hb
  split_ifs at hb with hi hlt
  · cases hb
    exact hi ▸ hfine
  · exact h.attempts i b hb

private theorem held_update (ha : s.attempts[id]? = some a) (hs : a.Same a') : (s.update id a').held.Perm s.held := by
  have hperm := perm_filterMap_set (fun a : Attempt => if a.closed then none else a.resourceUrl) ha a'
  simp only [hs.closed, hs.resourceUrl] at hperm
  exact (List.perm_append_left_iff _).mp hperm

/-- The last attempt, whichever one is updated. -/
theorem last_update (ha : s.attempts[id]? = some a) {b : Attempt} (hb : (s.attempts.set id a').getLast? = some b) :
    (b = a' ∧ s.attempts.getLast? = some a) ∨ s.attempts.getLast? = some b := by
  rw [getLast?_set (lt_length ha)] at hb
  split_ifs at hb with hid
  · cases hb
    refine .inl ⟨rfl, ?_⟩
    rw [List.getLast?_eq_getElem?, ← hid, Nat.add_sub_cancel]
    exact ha
  · exact .inr hb

theorem logged_update (h : Logged s) : Logged (s.update id a') := by
  rcases h with ⟨hlogs, hnone, hproblem⟩ | hlogged
  · exact .inl ⟨hlogs, by rw [State.update, hnone]; rfl, hproblem⟩
  · exact .inr hlogged

theorem update (h : Inv live s) (ha : s.attempts[id]? = some a) (hs : a.Same a') : Inv live (s.update id a') where
  attempts i b hb := by
    have hfine := h.attempts_update ((h.attempts id a ha).same hs) i b hb
    rwa [← List.length_set (i := id) (a := a')] at hfine
  sessions := h.sessions.trans (((held_update ha hs).symm.append_left _).append_left _)
  inForce hlive b hb := by
    rcases last_update ha hb with ⟨rfl, hlast⟩ | hlast
    · rw [hs.path, hs.attempt]
      exact h.inForce hlive a hlast
    · exact h.inForce hlive b hlast
  retries hlive he := by
    obtain ⟨b, why, hlast, hretry, hwhy⟩ := h.retries hlive he
    by_cases hid : id + 1 = s.attempts.length
    · have hab : s.attempts.getLast? = some a := by
        rw [List.getLast?_eq_getElem?, ← hid, Nat.add_sub_cancel]
        exact ha
      obtain rfl : a = b := Option.some.inj (hab.symm.trans hlast)
      refine ⟨a', why, ?_, ?_, hwhy⟩
      · exact (getLast?_set (lt_length ha)).trans (if_pos hid)
      · rw [hs.retryTimer, hs.attempt]
        exact hretry
    · exact ⟨b, why, (getLast?_set (lt_length ha)).trans ((if_neg hid).trans hlast), hretry, hwhy⟩
  logged := logged_update h.logged

/-- What is reported changes the log and the problem at hand. -/
theorem report_eq (s : State) (camera why : String) :
    ∃ logs, s.report camera why = { s with logs, problem := some why } := by
  rw [State.report]
  split
  · exact ⟨_, rfl⟩
  · next hsame =>
    refine ⟨s.logs, ?_⟩
    rw [← not_not.mp hsame]

theorem logged_report (h : Logged s) (hmounted : s.attempts ≠ []) (why : String) : Logged (s.report s.path why) := by
  rcases h with ⟨-, hnone, -⟩ | ⟨entries, older, hlogs, htold, holder⟩
  · exact absurd hnone hmounted
  · rw [State.report]
    split
    · next hnew =>
      have htold' : Told s.path (entries ++ [.warning s.path why]) (some why) := htold.warning hnew
      refine .inr ⟨entries ++ [.warning s.path why], older, ?_, ?_, holder⟩
      · simp only [State.log, hlogs]
      · exact htold'
    · exact .inr ⟨entries, older, hlogs, htold, holder⟩

theorem fail (h : Inv live s) (ha : s.attempts[id]? = some a) (hs : a.Same a') (why : String) :
    Inv live (s.fail id a' why) := by
  rw [State.fail]
  split
  · exact h.update ha hs
  · next hopen =>
    obtain ⟨hc, -⟩ : a'.closed = false ∧ a'.retryTimer = .unset := by simpa using hopen
    obtain ⟨hid, rfl, hlast⟩ := h.last ha (hs.closed.symm.trans hc)
    obtain ⟨hpath, hnumber⟩ := h.inForce rfl a hlast
    have hcamera : a'.path = s.path := hs.path.trans hpath
    have hlogged : Logged (s.report a'.path why) :=
      hcamera ▸ logged_report h.logged (List.ne_nil_of_mem (List.mem_of_getElem? ha)) why
    obtain ⟨logs, hreport⟩ := report_eq s a'.path why
    rw [hreport] at hlogged ⊢
    set b : Attempt := { a' with retryTimer := .pending }
    have hblast : (s.attempts.set id b).getLast? = some b := (getLast?_set (lt_length ha)).trans (if_pos hid)
    have hfine := (h.attempts id a ha).same hs
    have hbfine : b.Fine (id + 1 = s.attempts.length ∧ true = true) :=
      ⟨hfine.closed_iff, fun hclosed => absurd (hc.symm.trans hclosed) Bool.false_ne_true, hfine.unanswered⟩
    constructor
    · intro i x hx
      have hx := h.attempts_update hbfine i x hx
      rwa [← List.length_set (i := id) (a := b)] at hx
    · have hperm := perm_filterMap_set (fun a : Attempt => if a.closed then none else a.resourceUrl) ha b
      rw [show b.closed = a.closed from hs.closed, show b.resourceUrl = a.resourceUrl from hs.resourceUrl] at hperm
      have hheld := (List.perm_append_left_iff _).mp hperm
      exact h.sessions.trans ((hheld.symm.append_left _).append_left _)
    · intro _ x hx
      obtain rfl : b = x := Option.some.inj (hblast.symm.trans hx)
      exact ⟨hcamera, hs.attempt ▸ hnumber⟩
    · intro _ _
      exact ⟨b, why, hblast, .inl rfl, rfl, rfl⟩
    · exact logged_update hlogged

/-- Closed, the attempt in force lets go of its session and of its timers. -/
theorem cleanupLast (h : Inv true s) : Inv false s.cleanupLast := by
  rw [State.cleanupLast]
  cases hlast : s.attempts.getLast? with
  | none =>
    have hnone : s.attempts = [] := List.getLast?_eq_none_iff.mp hlast
    exact ⟨fun i a ha => by simp [hnone] at ha, h.sessions, nofun, nofun, h.logged⟩
  | some a =>
    have hlength : 0 < s.attempts.length := List.length_pos_of_mem (List.mem_of_getLast? hlast)
    have ha : s.attempts[s.attempts.length - 1]? = some a := List.getLast?_eq_getElem? ▸ hlast
    have hfine := h.attempts _ a ha
    have hopen : a.closed = false := hfine.closed_iff.mpr ⟨by omega, rfl⟩
    set b : Attempt :=
      { a with
        closed := true
        watching := false
        stallTimer := none
        retryTimer := if a.retryTimer = Timer.pending then .over else a.retryTimer }
    have hretry : b.retryTimer ≠ .pending := by
      simp only [b]
      split
      · exact nofun
      · assumption
    constructor
    · intro i x hx
      change (s.attempts.set (s.attempts.length - 1) b)[i]? = some x at hx
      rw [List.getElem?_set] at hx
      split_ifs at hx with hi hlt
      · cases hx
        exact ⟨by simp [b], fun _ => ⟨rfl, hretry, rfl⟩, hfine.unanswered⟩
      · have hx' := h.attempts i x hx
        have hclosed : x.closed = true := by
          by_contra hc
          have hid := (hx'.closed_iff.mp (by simpa using hc)).1
          omega
        exact ⟨by simp [hclosed], hx'.idle, hx'.unanswered⟩
    · have hperm := perm_filterMap_set (fun a : Attempt => if a.closed then none else a.resourceUrl) ha b
      have hheld : (a.resourceUrl.toList ++ (s.cleanup (s.attempts.length - 1) a).held).Perm s.held := by
        simpa [hopen, b, State.held, State.cleanup, State.update] using hperm
      change s.opened.Perm
        (s.unread ++ (s.released ++ a.resourceUrl.toList ++ (s.cleanup (s.attempts.length - 1) a).held))
      rw [List.append_assoc]
      exact h.sessions.trans ((hheld.symm.append_left _).append_left _)
    · exact nofun
    · exact nofun
    · exact logged_update h.logged

theorem watchPath (h : Inv false s) (path : String) : Inv false (s.watchPath path) where
  attempts := h.attempts
  sessions := h.sessions
  inForce := nofun
  retries := nofun
  logged := by
    refine .inr ⟨[], s.logs, rfl, .nil, ?_⟩
    rcases h.logged with ⟨hlogs, -, -⟩ | ⟨entries, older, hlogs, htold, holder⟩
    · simp [hlogs]
    · rw [hlogs]
      intro x hx
      rcases List.mem_cons.mp hx with rfl | hx
      · exact ⟨s.problem, htold⟩
      · exact holder x hx

theorem start (h : Inv false s) (hlogs : s.logs ≠ []) (now : ℕ) : Inv true (s.start now) where
  attempts i a ha := by
    simp only [State.start, List.length_append, List.length_singleton]
    rcases Nat.lt_trichotomy i s.attempts.length with hlt | rfl | hgt
    · have hfine := h.attempts i a ((List.getElem?_append_left hlt).symm.trans ha)
      have hclosed : a.closed = true := by
        by_contra hc
        exact Bool.false_ne_true (hfine.closed_iff.mp (by simpa using hc)).2
      refine ⟨?_, hfine.idle, hfine.unanswered⟩
      rw [hclosed]
      constructor
      · exact nofun
      · omega
    · obtain rfl : _ = a := by simpa [State.start] using ha
      exact ⟨by simp, nofun, fun _ => rfl⟩
    · have hlength := Inv.lt_length ha
      simp only [State.start, List.length_append, List.length_singleton] at hlength
      omega
  sessions := by
    have hheld : (s.start now).held = s.held := by simp [State.start, State.held]
    rw [hheld]
    exact h.sessions
  inForce _ a ha := by
    obtain rfl : _ = a := by simpa [State.start] using ha
    exact ⟨rfl, Nat.le_refl _⟩
  retries _ he := by cases he
  logged := by
    rcases h.logged with ⟨hnone, -, -⟩ | hlogged
    · exact absurd hnone hlogs
    · exact .inr hlogged

private theorem logs_ne_nil (h : Logged s) (hmounted : s.attempts ≠ []) : s.logs ≠ [] := by
  rcases h with ⟨-, hnone, -⟩ | ⟨entries, older, hlogs, -, -⟩
  · exact absurd hnone hmounted
  · rw [hlogs]
    exact List.cons_ne_nil _ _

theorem render (h : Inv true s) (path : String) (now : ℕ) : Inv true (s.render path now) := by
  rw [State.render]
  cases hlast : s.attempts.getLast? with
  | none =>
    have hidle : Inv false s := by
      have hclosed := h.cleanupLast
      rwa [State.cleanupLast, hlast] at hclosed
    exact (hidle.watchPath path).start (List.cons_ne_nil _ _) now
  | some a =>
    dsimp only
    have hmounted : s.attempts ≠ [] := List.ne_nil_of_mem (List.mem_of_getLast? hlast)
    split_ifs
    · exact h
    · refine h.cleanupLast.start ?_ now
      have hlogs := logs_ne_nil h.logged hmounted
      rw [State.cleanupLast, hlast]
      exact hlogs
    · exact (h.cleanupLast.watchPath path).start (List.cons_ne_nil _ _) now

theorem reconnect (h : Inv live s) : Inv live { s with attempt := s.attempt + 1 } where
  attempts := h.attempts
  sessions := h.sessions
  inForce hlive a ha := ⟨(h.inForce hlive a ha).1, Nat.le_succ_of_le (h.inForce hlive a ha).2⟩
  retries hlive he := by
    obtain ⟨a, why, hlast, -, hwhy⟩ := h.retries hlive he
    exact ⟨a, why, hlast, .inr (Nat.lt_succ_of_le (h.inForce hlive a hlast).2), hwhy⟩
  logged := h.logged

theorem onPlaying (h : Inv live s) : Inv live s.onPlaying := by
  rw [State.onPlaying]
  split
  · exact ⟨h.attempts, h.sessions, h.inForce, nofun, h.logged⟩
  · next after hproblem =>
    refine ⟨h.attempts, h.sessions, h.inForce, nofun, ?_⟩
    rcases h.logged with ⟨-, -, hnone⟩ | ⟨entries, older, hlogs, htold, holder⟩
    · rw [hnone] at hproblem
      cases hproblem
    · rw [hproblem] at htold
      refine .inr ⟨entries ++ [.playing s.path after], older, ?_, ?_, holder⟩
      · simp only [State.log, hlogs]
      · exact htold.playing

/-- The retry in force is fired: the next commit starts anew. -/
theorem retried (h : Inv live s) (ha : s.attempts[id]? = some a) (hretry : a.retryTimer = .pending) :
    Inv live ({ s with attempt := s.attempt + 1 }.update id { a with retryTimer := .over }) := by
  have hfine := h.attempts id a ha
  have hopen : a.closed = false := by
    by_contra hc
    exact (hfine.idle (by simpa using hc)).2.1 hretry
  obtain ⟨hid, rfl, hlast⟩ := h.last ha hopen
  set b : Attempt := { a with retryTimer := .over }
  have hblast : (s.attempts.set id b).getLast? = some b := (getLast?_set (lt_length ha)).trans (if_pos hid)
  obtain ⟨hpath, hnumber⟩ := h.inForce rfl a hlast
  constructor
  · intro i x hx
    have hbfine : b.Fine (id + 1 = s.attempts.length ∧ true = true) :=
      ⟨hfine.closed_iff, fun hclosed => absurd (hopen.symm.trans hclosed) Bool.false_ne_true, hfine.unanswered⟩
    have hx := h.attempts_update hbfine i x hx
    rwa [← List.length_set (i := id) (a := b)] at hx
  · have hperm := perm_filterMap_set (fun a : Attempt => if a.closed then none else a.resourceUrl) ha b
    exact h.sessions.trans ((((List.perm_append_left_iff _).mp hperm).symm.append_left _).append_left _)
  · intro _ x hx
    obtain rfl : b = x := Option.some.inj (hblast.symm.trans hx)
    exact ⟨hpath, Nat.le_succ_of_le hnumber⟩
  · intro hlive he
    obtain ⟨x, why, -, -, hwhy⟩ := h.retries hlive he
    exact ⟨b, why, hblast, .inr (Nat.lt_succ_of_le hnumber), hwhy⟩
  · exact logged_update h.logged

/-- A session is opened whose answer is not read. -/
theorem unread (h : Inv live s) (opened : Option String) :
    Inv live { s with opened := s.opened ++ opened.toList, unread := s.unread ++ opened.toList } where
  attempts := h.attempts
  sessions := by
    have hopened := perm_append_middle h.sessions opened.toList
    rw [← List.append_assoc] at hopened
    exact hopened
  inForce := h.inForce
  retries := h.retries
  logged := h.logged

/-- A session opened is held by the attempt in force, and let go of at once by a closed one. -/
theorem connected (h : Inv live s) (ha : s.attempts[id]? = some a) (hphase : a.phase = .connecting)
    (session : WhepSession) :
    let t := { s with opened := s.opened ++ session.resourceUrl.toList }
    (a.closed = true → Inv live
      ({ t with released := t.released ++ session.resourceUrl.toList }.update id { a with phase := .settled })) ∧
    (a.closed = false → Inv live
      (t.update id { a with phase := .answered, resourceUrl := session.resourceUrl })) := by
  intro t
  have hfine := h.attempts id a ha
  have hnone : a.resourceUrl = none := hfine.unanswered (.inr hphase)
  constructor
  · intro hclosed
    have hupdated := h.update ha (.settled a)
    refine ⟨hupdated.attempts, ?_, hupdated.inForce, hupdated.retries, hupdated.logged⟩
    have hparts := hupdated.sessions
    rw [← List.append_assoc] at hparts
    have hopened := perm_append_middle hparts session.resourceUrl.toList
    change (s.opened ++ session.resourceUrl.toList).Perm
      (s.unread ++ (s.released ++ session.resourceUrl.toList ++ (s.update id { a with phase := .settled }).held))
    simp only [List.append_assoc] at hopened ⊢
    exact hopened
  · intro hopen
    obtain ⟨hid, rfl, hlast⟩ := h.last ha hopen
    set b : Attempt := { a with phase := .answered, resourceUrl := session.resourceUrl }
    have hblast : (s.attempts.set id b).getLast? = some b := (getLast?_set (lt_length ha)).trans (if_pos hid)
    constructor
    · intro i x hx
      have hbfine : b.Fine (id + 1 = s.attempts.length ∧ true = true) := ⟨hfine.closed_iff, hfine.idle, by simp [b]⟩
      have hx := h.attempts_update hbfine i x hx
      rwa [← List.length_set (i := id) (a := b)] at hx
    · have hperm := perm_filterMap_set (fun a : Attempt => if a.closed then none else a.resourceUrl) ha b
      have hheld : (t.update id b).held.Perm (session.resourceUrl.toList ++ s.held) := by
        simpa [hopen, hnone, b, State.held, State.update, t] using hperm
      have hparts := h.sessions
      rw [← List.append_assoc] at hparts
      have hopened := perm_append_middle hparts session.resourceUrl.toList
      rw [List.append_assoc] at hopened
      exact hopened.trans ((hheld.symm.append_left _).append_left _)
    · intro _ x hx
      obtain rfl : b = x := Option.some.inj (hblast.symm.trans hx)
      exact h.inForce rfl a hlast
    · intro hlive he
      obtain ⟨x, why, hx, hretry, hwhy⟩ := h.retries hlive he
      obtain rfl : a = x := Option.some.inj (hlast.symm.trans hx)
      exact ⟨b, why, hblast, hretry, hwhy⟩
    · exact logged_update h.logged

end Inv

private theorem fail_unmounted (s : State) (id : ℕ) (a : Attempt) (why : String) :
    (s.fail id a why).unmounted = s.unmounted := by
  rw [State.fail, State.report]
  split_ifs <;> rfl

theorem fail_unread (s : State) (id : ℕ) (a : Attempt) (why : String) : (s.fail id a why).unread = s.unread := by
  rw [State.fail, State.report]
  split_ifs <;> rfl

theorem cleanupLast_unread (s : State) : s.cleanupLast.unread = s.unread := by
  rw [State.cleanupLast]
  split <;> rfl

private theorem render_unread (s : State) (path : String) (now : ℕ) : (s.render path now).unread = s.unread := by
  have hclosed := cleanupLast_unread s
  rw [State.render]
  split
  · rfl
  · split_ifs
    · rfl
    · exact hclosed
    · exact hclosed

private theorem cleanupLast_unmounted (s : State) : s.cleanupLast.unmounted = s.unmounted := by
  rw [State.cleanupLast]
  split <;> rfl

theorem render_unmounted (s : State) (path : String) (now : ℕ) : (s.render path now).unmounted = s.unmounted := by
  have hclosed := cleanupLast_unmounted s
  rw [State.render]
  split
  · rfl
  · split_ifs
    · rfl
    · exact hclosed
    · exact hclosed

private theorem onPlaying_unmounted (s : State) : s.onPlaying.unmounted = s.unmounted := by
  rw [State.onPlaying]
  split <;> rfl

/-- What holds of the hook between its events. -/
def Sound (s : State) : Prop := Inv (!s.unmounted) s

theorem Sound.of_unmounted_eq {t : State} (hu : t.unmounted = s.unmounted) (h : Inv (!s.unmounted) t) : Sound t := by
  rw [Sound, hu]
  exact h

theorem Sound.fail (h : Sound s) (ha : s.attempts[id]? = some a) (hs : a.Same a') (why : String) :
    Sound (s.fail id a' why) :=
  .of_unmounted_eq (fail_unmounted ..) (Inv.fail h ha hs why)

theorem Sound.update (h : Sound s) (ha : s.attempts[id]? = some a) (hs : a.Same a') : Sound (s.update id a') :=
  .of_unmounted_eq rfl (Inv.update h ha hs)

theorem Sound.render (h : Sound s) (path : String) (now : ℕ) : Sound (s.step href (.render path now)) := by
  rw [State.step]
  split
  · exact h
  · next hmounted =>
    rw [Sound, Bool.eq_false_iff.mpr hmounted] at h
    rw [Sound, render_unmounted, Bool.eq_false_iff.mpr hmounted]
    exact Inv.render h path now

theorem Sound.unmount (h : Sound s) : Sound (s.step href .unmount) := by
  rw [State.step]
  split
  · exact h
  · next hmounted =>
    rw [Sound, Bool.eq_false_iff.mpr hmounted] at h
    have hclosed := Inv.cleanupLast h
    exact ⟨hclosed.attempts, hclosed.sessions, nofun, nofun, hclosed.logged⟩

theorem Sound.offered (h : Sound s) (id : ℕ) : Sound (s.step href (.offered id)) := by
  rw [State.step]
  split
  · next a ha =>
    split
    · next hphase => exact h.update ha ⟨rfl, rfl, rfl, rfl, rfl, rfl, fun _ => .inl hphase, fun _ hstall => hstall⟩
    · exact h
  · exact h

theorem Sound.answered (h : Sound s) (id : ℕ) (res : Response) : Sound (s.step href (.answered id res)) := by
  rw [State.step]
  split
  · next a ha =>
    split
    · next hphase =>
      split
      · next why _ =>
        have hunread : Sound { s with
            opened := s.opened ++ (res.opens href).toList
            unread := s.unread ++ (res.opens href).toList } := Inv.unread h _
        exact hunread.fail ha (.settled a) why
      · next session _ =>
        obtain ⟨hlet, hheld⟩ := Inv.connected h ha hphase session
        dsimp only
        split
        · next hclosed => exact .of_unmounted_eq rfl (hlet hclosed)
        · next hopen => exact .of_unmounted_eq rfl (hheld (Bool.eq_false_iff.mpr hopen))
    · exact h
  · exact h

theorem Sound.connectionState (h : Sound s) (id : ℕ) (state : ConnectionState) :
    Sound (s.step href (.connectionState id state)) := by
  rw [State.step]
  split
  · next a ha =>
    split
    · exact h
    · next hopen =>
      have harmed (hclosed : a.closed = true) : False := hopen hclosed
      cases state with
      | connected => exact h.update ha (.unstalled a)
      | disconnected =>
        exact h.update ha ⟨rfl, rfl, rfl, rfl, rfl, rfl, fun hp => hp, fun hclosed _ => (harmed hclosed).elim⟩
      | failed => exact h.fail ha (.refl a) _
      | other => exact h
  · exact h

theorem Sound.retried (h : Sound s) (id : ℕ) : Sound (s.step href (.retried id)) := by
  rw [State.step]
  split
  · next a ha =>
    split
    · next hretry => exact .of_unmounted_eq rfl (Inv.retried h ha hretry)
    · exact h
  · exact h

theorem Sound.watched (h : Sound s) (id : ℕ) (bytes : Option ℕ) (now : ℕ) :
    Sound (s.step href (.watched id bytes now)) := by
  rw [State.step]
  split
  · next a ha =>
    dsimp only
    split_ifs
    · exact h.update ha ⟨rfl, rfl, rfl, rfl, rfl, rfl, fun hp => hp, fun _ hstall => hstall⟩
    · exact h.fail ha (.refl a) _
    · exact h
  · exact h

theorem Sound.step (h : Sound s) (e : Event) : Sound (s.step href e) := by
  cases e with
  | render path now => exact h.render path now
  | unmount => exact h.unmount
  | reconnect =>
    rw [State.step]
    split
    · exact h
    · exact .of_unmounted_eq rfl (Inv.reconnect h)
  | onPlaying =>
    rw [State.step]
    split
    · exact h
    · exact .of_unmounted_eq (onPlaying_unmounted s) (Inv.onPlaying h)
  | offered id => exact h.offered id
  | answered id res => exact h.answered id res
  | described id =>
    rw [State.step]
    split
    · next a ha =>
      split
      · exact h.update ha (.settled a)
      · exact h
    · exact h
  | rejected id message =>
    rw [State.step]
    split
    · next a ha =>
      split
      · exact h
      · exact h.fail ha (.settled a) _
    · exact h
  | ended id =>
    rw [State.step]
    split
    · next a ha => exact h.fail ha (.refl a) _
    · exact h
  | connectionState id state => exact h.connectionState id state
  | stalled id =>
    rw [State.step]
    split
    · next a ha =>
      split
      · exact h.fail ha (.unstalled a) _
      · exact h
    · exact h
  | retried id => exact h.retried id
  | watched id bytes now => exact h.watched id bytes now

/-- An answer that is read and still refused has opened nothing. -/
theorem opens_eq_none {res : Response} {why : String} (hread : res.text.isOk) (h : whepConnect href res = .error why) :
    res.opens href = none := by
  by_cases hstatus : res.status ≠ 200 ∧ res.status ≠ 201
  · exact if_pos hstatus
  · rw [whepConnect, if_neg hstatus] at h
    cases htext : res.text with
    | error message =>
      rw [htext] at hread
      cases hread
    | ok text =>
      rw [htext] at h
      rw [Response.opens, if_neg hstatus]
      cases hlocation : res.location.filter (· ≠ "") with
      | none => rfl
      | some location =>
        rw [hlocation] at h
        cases hurl : href location with
        | error message => exact congrArg Except.toOption hurl
        | ok url =>
          have hok : (Option.some location).mapM href = .ok (some url) := by rw [Option.mapM_some, hurl]; rfl
          rw [hok] at h
          cases h

private theorem unread_step {e : Event} (hread : ∀ id res, e = .answered id res → res.text.isOk) :
    (s.step href e).unread = s.unread := by
  cases e with
  | render path now =>
    rw [State.step]
    split
    · rfl
    · exact render_unread s path now
  | unmount =>
    rw [State.step]
    split
    · rfl
    · exact cleanupLast_unread s
  | reconnect =>
    rw [State.step]
    split <;> rfl
  | onPlaying =>
    rw [State.step, State.onPlaying]
    split
    · rfl
    · split <;> rfl
  | answered id res =>
    rw [State.step]
    split
    · split
      · split
        · next why hwhy =>
          rw [fail_unread, opens_eq_none (hread id res rfl) hwhy]
          exact List.append_nil _
        · dsimp only
          split <;> rfl
      · rfl
    · rfl
  | offered id =>
    rw [State.step]
    split
    · split <;> rfl
    · rfl
  | described id =>
    rw [State.step]
    split
    · split <;> rfl
    · rfl
  | rejected id message =>
    rw [State.step]
    split
    · split
      · rfl
      · exact fail_unread ..
    · rfl
  | ended id =>
    rw [State.step]
    split
    · exact fail_unread ..
    · rfl
  | connectionState id state =>
    rw [State.step]
    split
    · split
      · rfl
      · cases state with
        | failed => exact fail_unread ..
        | _ => rfl
    · rfl
  | stalled id =>
    rw [State.step]
    split
    · split
      · exact fail_unread ..
      · rfl
    · rfl
  | retried id =>
    rw [State.step]
    split
    · split <;> rfl
    · rfl
  | watched id bytes now =>
    rw [State.step]
    split
    · dsimp only
      split_ifs
      · rfl
      · exact fail_unread ..
      · rfl
    · rfl

private theorem unread_run {events : List Event} (hread : ∀ id res, .answered id res ∈ events → res.text.isOk)
    (h : s.unread = []) : (State.run href events s).unread = [] := by
  induction events generalizing s with
  | nil => exact h
  | cons e events ih =>
    refine ih (fun id res hin => hread id res (List.mem_cons_of_mem _ hin)) ?_
    rw [unread_step fun id res he => hread id res (he ▸ List.mem_cons_self), h]

theorem sound_run (href : String → Except String String) (path : String) (events : List Event) :
    Sound (State.run href events { path }) := by
  have hrun (s : State) (h : Sound s) : Sound (State.run href events s) := by
    induction events generalizing s with
    | nil => exact h
    | cons e events ih => exact ih (s.step href e) (h.step e)
  exact hrun _ (inv_start path)

/-- Each session opened is held by the one attempt in force or has been sent its DELETE, once, and all of them have once
the player is gone, but for one whose answer was not read to its end: of that one the player knows no address. -/
theorem sessions_released (href : String → Except String String) (path : String) (events : List Event) :
    let s := State.run href events { path }
    s.opened.Perm (s.unread ++ (s.released ++ s.held)) ∧
      (∀ i a, s.attempts[i]? = some a → a.closed = false → i + 1 = s.attempts.length ∧ s.unmounted = false) ∧
      (s.unmounted = true → s.opened.Perm (s.unread ++ s.released)) ∧
      ((∀ id res, .answered id res ∈ events → res.text.isOk) → s.unread = []) := by
  intro s
  have hsound : Sound s := sound_run href path events
  have honly (i : ℕ) (a : Attempt) (ha : s.attempts[i]? = some a) (hopen : a.closed = false) :
      i + 1 = s.attempts.length ∧ s.unmounted = false := by
    obtain ⟨hid, hlive⟩ := (Inv.attempts hsound i a ha).closed_iff.mp hopen
    exact ⟨hid, by simpa using hlive⟩
  refine ⟨Inv.sessions hsound, honly, fun hunmounted => ?_, fun hread => unread_run hread rfl⟩
  have hnone : s.held = [] := by
    refine List.filterMap_eq_nil_iff.mpr fun a ha => ?_
    obtain ⟨i, hi⟩ := List.getElem?_of_mem ha
    split
    · rfl
    · next hopen =>
      have hmounted := (honly i a hi (Bool.eq_false_iff.mpr hopen)).2
      rw [hunmounted] at hmounted
      cases hmounted
  have hall := Inv.sessions hsound
  rwa [hnone, List.append_nil] at hall

/-- A player that shows an error is about to try again, on its own: the retry is on, or a commit will start one. -/
theorem error_retries (href : String → Except String String) (path : String) (events : List Event) :
    let s := State.run href events { path }
    (s.unmounted = false → s.status = .error → ∃ a why, s.attempts.getLast? = some a ∧ a.closed = false ∧
      (a.retryTimer = .pending ∨ ∀ now, (s.render s.path now).status = .loading ∧
        (s.render s.path now).attempts.length = s.attempts.length + 1) ∧ s.reason = some why) ∧
    (∀ a ∈ s.attempts, a.closed = true → a.stallTimer = none ∧ a.retryTimer ≠ .pending ∧ a.watching = false) := by
  intro s
  have hsound : Sound s := sound_run href path events
  refine ⟨fun hmounted he => ?_, fun a ha hclosed => ?_⟩
  · have hlive : (!s.unmounted) = true := by simp [hmounted]
    obtain ⟨a, why, hlast, hretry, hwhy, -⟩ := Inv.retries hsound hlive he
    obtain ⟨hpath, -⟩ := Inv.inForce hsound hlive a hlast
    have hlength : 0 < s.attempts.length := List.length_pos_of_mem (List.mem_of_getLast? hlast)
    have hopen : a.closed = false :=
      (Inv.attempts hsound _ a (List.getLast?_eq_getElem? ▸ hlast)).closed_iff.mpr ⟨by omega, hlive⟩
    refine ⟨a, why, hlast, hopen, hretry.imp_right fun hbehind now => ?_, hwhy⟩
    have hrender : s.render s.path now = s.cleanupLast.start now := by
      rw [State.render, hlast]
      dsimp only
      rw [if_pos hpath, if_neg (by omega)]
    rw [hrender]
    refine ⟨rfl, ?_⟩
    rw [State.start, State.cleanupLast, hlast]
    simp [State.cleanup, State.update]
  · obtain ⟨i, hi⟩ := List.getElem?_of_mem ha
    exact (Inv.attempts hsound i a hi).idle hclosed

end Kanat.WhepStream
