import Kanat.InterleavedThreads
import Kanat.StreamRegistrations

/-! # What the sampling intervals keep of registrations that come and go

Registrations, intervals and deregistrations in any order, a thread each. -/
namespace Kanat.Transmission
open ResumptionPrograms ScheduledPrograms InterleavedThreads InsertionOrderDict

variable {Key Conn Data : Type}

inductive Request (Key Conn : Type) where
  | register (request : StreamRequestDto Key) (connectionId : Conn)
  | setTimeInterval (key : Key) (intervalMs : ℤ) (connectionId : Conn)
  | deregister (key : Key)
  | deregisterFromAll (connectionId : Conn)

def Request.program : Request Key Conn → M Key Conn Data Unit
  | .register request connectionId => registerStream request connectionId
  | .setTimeInterval key intervalMs connectionId =>
      Transmission.setTimeInterval key intervalMs connectionId
  | .deregister key => deregisterStream key
  | .deregisterFromAll connectionId => deregisterFromAllStreams connectionId

/-- A registration that gives no interval. -/
def Request.plain : Request Key Conn → Bool
  | .register request _ => request.intervalMs.isNone
  | _ => false

def registering (Key Conn Data : Type) [DecidableEq Key] [DecidableEq Conn] :
    System (Ans Key Conn Data) SendError (World Key Conn Data) (Request Key Conn) Unit where
  program request := request.program >>= fun _ => pure none
  answer w o _ := some (answer w o)
  drift _ _ := none

abbrev RequestCall (Key Conn Data : Type) :=
  Call (Ans Key Conn Data) (World Key Conn Data) (Request Key Conn)

/-- The keys of a deregistration that has taken the registration away: whose interval and whose
last-sent time it has still to remove. -/
structure Owed (Key : Type) where
  interval : Option Key := none
  lastSent : Option Key := none

def Owed.next (l : Owed Key) : (o : Op Key Conn Data) → Ans Key Conn Data o → Owed Key
  | .tryRemoveConnection key, true => ⟨some key, some key⟩
  | .tryRemoveInterval _, _ => { l with interval := none }
  | .tryRemoveLastSent _, _ => { l with lastSent := none }
  | _, _ => l

def Owed.Allows (l : Owed Key) : Op Key Conn Data → Prop
  | .tryRemoveConnection _ => l = {}
  | .tryRemoveInterval key => l.interval = none ∨ l.interval = some key
  | .tryRemoveLastSent key => l.lastSent = none ∨ l.lastSent = some key
  | .tryAddInterval _ intervalMs => intervalMs = none
  | .tryAddConnection .. | .tryGetConnection _ | .keysOf _ | .setInterval .. | .tryAddLastSent ..
  | .sendAck .. => True
  | _ => False

def owing (Key Conn Data : Type) :
    Contract (Ans Key Conn Data) (Request Key Conn) (Owed Key) where
  allowed := Owed.Allows
  possible _ _ := True
  next := Owed.next
  start _ := {}
  Ready l _ := l = {}
  Returned l := l = {}
  Raised l := l = {}

/-- The call leaves nothing owed. -/
def Op.Settled : Op Key Conn Data → Prop
  | .tryAddInterval _ intervalMs => intervalMs = none
  | .tryRemoveLastSent _ | .tryAddConnection .. | .tryGetConnection _ | .setInterval ..
  | .tryAddLastSent .. | .sendAck .. => True
  | _ => False

section
variable {key : Key} {connectionId : Conn} {E : Owed Key → SendError → Prop} {l : Owed Key}

theorem obeys_settled {p : M Key Conn Data Unit} (hp : Watched Op.Settled p) :
    Obeys (owing Key Conn Data).toMonitor (fun l _ => l = {}) (fun l _ => l = {}) p {} := by
  refine hp.obeys fun o ho => ?_
  cases o with
  | tryAddInterval key intervalMs => exact ⟨ho, fun _ => rfl⟩
  | tryRemoveLastSent key => exact ⟨Or.inl rfl, fun _ => rfl⟩
  | tryAddConnection key connectionId => exact ⟨trivial, fun _ => rfl⟩
  | tryGetConnection key => exact ⟨trivial, fun _ => rfl⟩
  | setInterval key intervalMs => exact ⟨trivial, fun _ => rfl⟩
  | tryAddLastSent key ms => exact ⟨trivial, fun _ => rfl⟩
  | sendAck connectionId ack => exact ⟨trivial, fun _ => rfl⟩
  | _ => exact ho.elim

/-- What it owes once the registration is gone, it removes. -/
theorem obeys_removeKey : Obeys (owing Key Conn Data).toMonitor (fun l _ => l = {}) E
    (removeKey key : M Key Conn Data Unit) {} := by
  refine obeys_bind.mpr (obeys_call rfl fun removed => ?_)
  cases removed with
  | true =>
    refine obeys_bind.mpr (obeys_call (Or.inr rfl) fun _ => ?_)
    exact obeys_call (Or.inr rfl) fun _ => rfl
  | false =>
    refine obeys_bind.mpr (obeys_call (Or.inl rfl) fun _ => ?_)
    exact obeys_call (Or.inl rfl) fun _ => rfl

private theorem obeys_deregisterStream :
    Obeys (owing Key Conn Data).toMonitor (fun l _ => l = {}) (fun l _ => l = {})
      (deregisterStream key : M Key Conn Data Unit) {} := by
  refine obeys_bind.mpr (obeys_call trivial fun connection => ?_)
  cases connection with
  | none => rfl
  | some connectionId =>
    apply obeys_tryCatch.mpr
    change Obeys (owing Key Conn Data).toMonitor _ _
      ((removeKey key).bind fun _ => sendAck connectionId _) ({} : Owed Key)
    refine obeys_bind.mpr (obeys_removeKey.mono (fun l _ hl => ?_) fun _ _ hE => hE)
    rw [hl]
    refine (obeys_settled (watched_sendAck trivial)).mono (fun _ _ hl => hl) fun l e hl => ?_
    rw [hl]
    exact obeys_settled (watched_refuse trivial)

private theorem obeys_deregisterFromAllStreams :
    Obeys (owing Key Conn Data).toMonitor (fun l _ => l = {}) (fun l _ => l = {})
      (deregisterFromAllStreams connectionId : M Key Conn Data Unit) {} := by
  refine obeys_bind.mpr (obeys_call trivial fun keysToRemove => ?_)
  refine obeys_forM (fun key _ l hl => ?_) (show ({} : Owed Key) = {} from rfl)
  rw [hl]
  exact obeys_removeKey

theorem obeys_program (request : Request Key Conn) :
    Obeys (owing Key Conn Data).toMonitor (fun l _ => l = {}) (fun l _ => l = {})
      (request.program : M Key Conn Data Unit) {} := by
  cases request with
  | register request connectionId =>
    exact obeys_settled (watched_registerStream trivial trivial (fun _ _ => trivial) rfl
      (fun _ => trivial) trivial trivial)
  | setTimeInterval key intervalMs connectionId =>
    exact obeys_settled (watched_setTimeInterval trivial (fun _ _ => trivial)
      fun _ => ⟨fun _ => trivial, trivial, trivial⟩)
  | deregister key => exact obeys_deregisterStream
  | deregisterFromAll connectionId => exact obeys_deregisterFromAllStreams

theorem follows_registering [DecidableEq Key] [DecidableEq Conn] :
    Follows (registering Key Conn Data) (owing Key Conn Data) where
  ready _ := rfl
  holds l request hl := by
    rw [show l = {} from hl]
    apply obeys_bind.mpr
    refine (obeys_program request).mono (fun l _ hl => ?_) fun _ _ hl => hl
    refine ⟨fun r hr => ?_, fun _ => hl⟩
    cases hr
  possible _ _ _ _ _ _ := trivial

end

section
variable {key : Key} {f : Owed Key → Option Key} {i : ℕ} {request : Request Key Conn}
  {w w' : World Key Conn Data} {o : Op Key Conn Data} {r : Ans Key Conn Data o}
  {trace : List (RequestCall Key Conn Data)}

/-- Some thread has taken the key's registration away, and has still to remove what `f` tells. -/
def Owes (f : Owed Key → Option Key) (key : Key) (trace : List (RequestCall Key Conn Data)) : Prop :=
  ∃ call ∈ trace, f (standing (owing Key Conn Data) call.thread call.request trace) = some key

/-- What thread `i` owes by its calls so far. -/
def owed (i : ℕ) (request : Request Key Conn) (trace : List (RequestCall Key Conn Data)) : Owed Key :=
  standing (owing Key Conn Data) i request trace

theorem Owes.cons (h : Owes f key trace) (howns : Owns trace i request)
    (hstays : f (owed i request trace) = some key → f ((owed i request trace).next o r) = some key) :
    Owes f key (⟨i, request, o, r, w, w'⟩ :: trace) := by
  obtain ⟨call, hcall, howes⟩ := h
  refine ⟨call, List.mem_cons_of_mem _ hcall, ?_⟩
  by_cases hi : call.thread = i
  · subst hi
    rw [howns call hcall rfl] at howes ⊢
    rw [standing_cons_self]
    exact hstays howes
  · rw [standing_cons_of_ne (Ne.symm hi)]
    exact howes

/-- When every thread is finished, nobody owes anything. -/
theorem not_owes {c : Config (Ans Key Conn Data) SendError (World Key Conn Data) (Request Key Conn)}
    (hkept : InterleavedThreads.Kept (owing Key Conn Data) c) (hfinished : ∀ t ∈ c.threads, t.Finished)
    (hf : f {} = none) : ¬Owes f key c.trace := by
  intro h
  obtain ⟨call, hcall, howes⟩ := h
  obtain ⟨t, ht, hrequest⟩ := hkept.owned call hcall
  have hsettled : standing (owing Key Conn Data) call.thread t.request c.trace = {} := by
    rcases hkept.finished ht (hfinished t (List.mem_of_getElem? ht)) with h | h
    · exact h
    · exact h
  rw [← hrequest, hsettled, hf] at howes
  cases howes

end

section
variable [DecidableEq Key]

/-- Every key with an interval or a last-sent time is registered. -/
def Tidy (w : World Key Conn Data) : Prop :=
  ∀ key, w.connections.get key = none → w.intervals.get key = none ∧ w.lastSent.get key = none

/-- Every packet of the key is transmitted. -/
def Unsampled (w : World Key Conn Data) (key : Key) : Prop :=
  (w.intervals.get key).join = none

/-- The key that the call registers for a request that gives no interval. -/
def started : RequestCall Key Conn Data → Option Key
  | ⟨_, request, .tryAddConnection key _, _, before, _⟩ =>
      if request.plain ∧ before.connections.get key = none then some key else none
  | _ => none

/-- The keys registered without an interval, none of theirs set since. -/
def unset : List (RequestCall Key Conn Data) → List Key
  | [] => []
  | ⟨_, _, .setInterval key _, _, _, _⟩ :: trace => (unset trace).filter (· ≠ key)
  | call :: trace => (started call).toList ++ unset trace

/-- The key that the call enters an interval or a last-sent time of, that had none or another. -/
def Op.entered (w : World Key Conn Data) : Op Key Conn Data → Option Key
  | .setInterval key _ => some key
  | .tryAddInterval key _ => if w.intervals.get key = none then some key else none
  | .tryAddLastSent key _ => if w.lastSent.get key = none then some key else none
  | _ => none

/-- What is entered is of a registered key; and no key is registered without an interval while a
deregistration has still to remove its earlier one. -/
def InOrder (call : RequestCall Key Conn Data) (earlier : List (RequestCall Key Conn Data)) : Prop :=
  (∀ key ∈ call.op.entered call.before, call.before.connections.get key ≠ none) ∧
    ∀ key ∈ started call, Owes Owed.interval key earlier → Unsampled call.before key

instance (call : RequestCall Key Conn Data) (earlier : List (RequestCall Key Conn Data)) :
    Decidable (InOrder call earlier) :=
  inferInstanceAs (Decidable ((∀ key ∈ call.op.entered call.before, call.before.connections.get key ≠ none) ∧
    ∀ key ∈ started call, (∃ earlierCall ∈ earlier, (standing (owing Key Conn Data) earlierCall.thread
      earlierCall.request earlier).interval = some key) → (call.before.intervals.get key).join = none))

variable {V : Type} {key : Key} {f : Owed Key → Option Key} {d : World Key Conn Data → Dict Key V} {i : ℕ}
  {request : Request Key Conn} {w w' : World Key Conn Data} {o : Op Key Conn Data}
  {r : Ans Key Conn Data o} {trace : List (RequestCall Key Conn Data)}

/-- An entry of a key that is not registered is some thread's to remove. -/
def Tended (d : World Key Conn Data → Dict Key V) (f : Owed Key → Option Key) (w : World Key Conn Data)
    (trace : List (RequestCall Key Conn Data)) : Prop :=
  ∀ key, w.connections.get key = none → (d w).get key ≠ none → Owes f key trace

theorem Tended.cons (h : Tended d f w trace) (howns : Owns trace i request)
    (hstep : ∀ key, w'.connections.get key = none → (d w').get key ≠ none →
      f ((owed i request trace).next o r) = some key ∨
        w.connections.get key = none ∧ (d w).get key ≠ none ∧
          (f (owed i request trace) = some key → f ((owed i request trace).next o r) = some key)) :
    Tended d f w' (⟨i, request, o, r, w, w'⟩ :: trace) := by
  intro key hkey hentry
  rcases hstep key hkey hentry with hnew | ⟨hkey, hentry, hstays⟩
  · refine ⟨_, List.mem_cons_self, ?_⟩
    rw [standing_cons_self]
    exact hnew
  · exact (h key hkey hentry).cons howns hstays

/-- A call that takes no registration away and leaves the dictionary. -/
theorem Tended.quiet (h : Tended d f w trace) (howns : Owns trace i request)
    (hconnections : ∀ key, w'.connections.get key = none → w.connections.get key = none)
    (hd : d w' = d w) (hf : f ((owed i request trace).next o r) = f (owed i request trace)) :
    Tended d f w' (⟨i, request, o, r, w, w'⟩ :: trace) := by
  refine h.cons howns fun key hkey hentry => Or.inr ⟨hconnections key hkey, ?_, fun howes => ?_⟩
  · rwa [hd] at hentry
  · rw [hf]
    exact howes

/-- A call that enters something only for a registered key, or where an entry is. -/
theorem Tended.enters (h : Tended d f w trace) (key : Key) (howns : Owns trace i request)
    (hconnections : w'.connections = w.connections)
    (hd : ∀ key', key' ≠ key → (d w').get key' = (d w).get key')
    (hregistered : w.connections.get key = none → (d w).get key ≠ none)
    (hf : f ((owed i request trace).next o r) = f (owed i request trace)) :
    Tended d f w' (⟨i, request, o, r, w, w'⟩ :: trace) := by
  refine h.cons howns fun key' hkey' hentry => ?_
  rw [hconnections] at hkey'
  refine Or.inr ⟨hkey', ?_, fun howes => by rwa [hf]⟩
  by_cases hkey : key' = key
  · subst hkey
    exact hregistered hkey'
  · rwa [hd key' hkey] at hentry

/-- The entry a thread owes to remove is removed. -/
theorem Tended.removes (h : Tended d f w trace) (howns : Owns trace i request)
    (hconnections : w'.connections = w.connections) (hd : d w' = (d w).pop key)
    (hf : f (owed i request trace) = none ∨ f (owed i request trace) = some key) :
    Tended d f w' (⟨i, request, o, r, w, w'⟩ :: trace) := by
  refine h.cons howns fun key' hkey' hentry => ?_
  rw [hconnections] at hkey'
  rw [hd] at hentry
  by_cases hkey : key = key'
  · subst hkey
    exact absurd Dict.get_pop_self hentry
  · rw [Dict.get_pop_of_ne hkey] at hentry
    refine Or.inr ⟨hkey', hentry, fun howes => ?_⟩
    rcases hf with hf | hf
    · rw [hf] at howes
      cases howes
    · rw [hf] at howes
      exact absurd (Option.some.inj howes) hkey

/-- Whoever takes a registration away owes its entries from then on. -/
theorem Tended.takes {removed : Bool} (h : Tended d f w trace) (howns : Owns trace i request)
    (hnone : f (owed i request trace) = none) (hremoved : removed = (w.connections.get key).isSome)
    (hconnections : w'.connections = w.connections.pop key) (hd : d w' = d w)
    (hf : f ⟨some key, some key⟩ = some key) :
    Tended d f w' (⟨i, request, .tryRemoveConnection key, removed, w, w'⟩ :: trace) := by
  refine h.cons howns fun key' hkey' hentry => ?_
  rw [hd] at hentry
  rw [hconnections] at hkey'
  have hnever : f (owed i request trace) ≠ some key' := by
    rw [hnone]
    exact (Option.some_ne_none key').symm
  by_cases hkey : key = key'
  · subst hkey
    cases removed with
    | true => exact Or.inl hf
    | false =>
      refine Or.inr ⟨?_, hentry, fun howes => absurd howes hnever⟩
      apply Option.not_isSome_iff_eq_none.mp
      rw [← hremoved]
      exact Bool.false_ne_true
  · rw [Dict.get_pop_of_ne hkey] at hkey'
    exact Or.inr ⟨hkey', hentry, fun howes => absurd howes hnever⟩

/-- Since a key was registered without an interval, all its packets are transmitted, until an
interval is set. -/
def StartsUnsampled (w : World Key Conn Data) (trace : List (RequestCall Key Conn Data)) : Prop :=
  ∀ key ∈ unset trace, Unsampled w key

/-- What the calls so far leave of the intervals, nothing having been written behind another's back. -/
structure Books (w : World Key Conn Data) (trace : List (RequestCall Key Conn Data)) : Prop where
  intervals : Tended (·.intervals) Owed.interval w trace
  lastSent : Tended (·.lastSent) Owed.lastSent w trace
  starts : StartsUnsampled w trace

private theorem books_of_tidy (h : Tidy w) : Books w [] where
  intervals key hkey hentry := absurd (h key hkey).1 hentry
  lastSent key hkey hentry := absurd (h key hkey).2 hentry
  starts key hkey := by cases hkey

/-- A call that leaves all three dictionaries. -/
theorem tended_same (hintervals : Tended (·.intervals) Owed.interval w trace)
    (hlastSent : Tended (·.lastSent) Owed.lastSent w trace) (howns : Owns trace i request)
    (hsame : w'.connections = w.connections ∧ w'.intervals = w.intervals ∧ w'.lastSent = w.lastSent)
    (hnext : (owed i request trace).next o r = owed i request trace) :
    Tended (·.intervals) Owed.interval w' (⟨i, request, o, r, w, w'⟩ :: trace) ∧
      Tended (·.lastSent) Owed.lastSent w' (⟨i, request, o, r, w, w'⟩ :: trace) := by
  obtain ⟨hconnections, hintervals', hlastSent'⟩ := hsame
  have hkept : ∀ key, w'.connections.get key = none → w.connections.get key = none := by
    intro key hkey
    rwa [hconnections] at hkey
  constructor
  · exact hintervals.quiet howns hkept hintervals' (by rw [hnext])
  · exact hlastSent.quiet howns hkept hlastSent' (by rw [hnext])

private theorem mem_unset_cons {call : RequestCall Key Conn Data} (h : key ∈ unset (call :: trace)) :
    key ∈ unset trace ∧ (∀ ms, call.op ≠ .setInterval key ms) ∨ started call = some key := by
  obtain ⟨i, request, o, r, w, w'⟩ := call
  cases o with
  | setInterval key' intervalMs =>
    obtain ⟨hold, hne⟩ := List.mem_filter.mp h
    refine Or.inl ⟨hold, fun ms heq => ?_⟩
    cases heq
    exact of_decide_eq_true hne rfl
  | tryAddConnection key' connectionId =>
    rcases List.mem_append.mp h with hnew | hold
    · exact Or.inr (Option.mem_toList.mp hnew)
    · refine Or.inl ⟨hold, fun ms heq => ?_⟩
      cases heq
  | _ =>
    refine Or.inl ⟨h, fun ms heq => ?_⟩
    cases heq

/-- Nothing is registered where an interval of an earlier registration is left. -/
theorem unsampled_of_started {call : RequestCall Key Conn Data} (hstarted : started call = some key)
    (hintervals : Tended (·.intervals) Owed.interval call.before trace) (horder : InOrder call trace) :
    Unsampled call.before key := by
  obtain ⟨i, request, o, r, w, w'⟩ := call
  have hkey := hstarted
  cases o with
  | tryAddConnection key' connectionId =>
    rw [started] at hkey
    split_ifs at hkey with hadded
    cases hkey
    by_cases hentry : w.intervals.get key = none
    · exact congrArg Option.join hentry
    · exact horder.2 key hstarted (hintervals key hadded.2 hentry)
  | _ => cases hkey

variable [DecidableEq Conn]

private theorem tended_answered (hintervals : Tended (·.intervals) Owed.interval w trace)
    (hlastSent : Tended (·.lastSent) Owed.lastSent w trace)
    (ha : Answered (registering Key Conn Data) (owing Key Conn Data) w trace i request o r w')
    (hentered : ∀ key ∈ o.entered w, w.connections.get key ≠ none) :
    Tended (·.intervals) Owed.interval w' (⟨i, request, o, r, w, w'⟩ :: trace) ∧
      Tended (·.lastSent) Owed.lastSent w' (⟨i, request, o, r, w, w'⟩ :: trace) := by
  obtain ⟨hr, hw⟩ := ha.eq_answer fun _ _ _ => rfl
  have hallowed : (owed i request trace).Allows o := ha.allowed
  cases o with
  | tryAddConnection key connectionId =>
    have hconnections : ∀ key', w'.connections.get key' = none → w.connections.get key' = none := by
      intro key' hkey'
      rw [hw] at hkey'
      by_cases hkey : key = key'
      · subst hkey
        change (tryAdd w.connections key connectionId).get key = none at hkey'
        rw [get_tryAdd_self] at hkey'
        cases hkey'
      · exact (get_tryAdd_of_ne hkey).symm.trans hkey'
    exact ⟨hintervals.quiet ha.owned hconnections (by rw [hw]; rfl) rfl,
      hlastSent.quiet ha.owned hconnections (by rw [hw]; rfl) rfl⟩
  | tryGetConnection key =>
    exact tended_same hintervals hlastSent ha.owned (by rw [hw]; exact ⟨rfl, rfl, rfl⟩) rfl
  | keysOf connectionId =>
    exact tended_same hintervals hlastSent ha.owned (by rw [hw]; exact ⟨rfl, rfl, rfl⟩) rfl
  | tryRemoveConnection key =>
    have hnone : owed i request trace = {} := hallowed
    exact ⟨hintervals.takes ha.owned (by rw [hnone]) hr (by rw [hw]; rfl) (by rw [hw]; rfl) rfl,
      hlastSent.takes ha.owned (by rw [hnone]) hr (by rw [hw]; rfl) (by rw [hw]; rfl) rfl⟩
  | tryAddInterval key intervalMs =>
    refine ⟨hintervals.enters key ha.owned (by rw [hw]; rfl) (fun key' hkey => ?_)
        (fun hkey hentry => ?_) rfl,
      hlastSent.quiet ha.owned (fun _ h => by rwa [hw] at h) (by rw [hw]; rfl) rfl⟩
    · rw [hw]
      exact get_tryAdd_of_ne (Ne.symm hkey)
    · exact hentered key (if_pos hentry) hkey
  | setInterval key intervalMs =>
    refine ⟨hintervals.enters key ha.owned (by rw [hw]; rfl) (fun key' hkey => ?_)
        (fun hkey => ?_) rfl,
      hlastSent.quiet ha.owned (fun _ h => by rwa [hw] at h) (by rw [hw]; rfl) rfl⟩
    · rw [hw]
      exact Dict.get_put_of_ne (Ne.symm hkey)
    · exact absurd hkey (hentered key rfl)
  | tryAddLastSent key ms =>
    refine ⟨hintervals.quiet ha.owned (fun _ h => by rwa [hw] at h) (by rw [hw]; rfl) rfl,
      hlastSent.enters key ha.owned (by rw [hw]; rfl) (fun key' hkey => ?_)
        (fun hkey hentry => ?_) rfl⟩
    · rw [hw]
      exact get_tryAdd_of_ne (Ne.symm hkey)
    · exact hentered key (if_pos hentry) hkey
  | tryRemoveInterval key =>
    exact ⟨hintervals.removes ha.owned (by rw [hw]; rfl) (by rw [hw]; rfl) hallowed,
      hlastSent.quiet ha.owned (fun _ h => by rwa [hw] at h) (by rw [hw]; rfl) rfl⟩
  | tryRemoveLastSent key =>
    exact ⟨hintervals.quiet ha.owned (fun _ h => by rwa [hw] at h) (by rw [hw]; rfl) rfl,
      hlastSent.removes ha.owned (by rw [hw]; rfl) (by rw [hw]; rfl) hallowed⟩
  | sendAck connectionId ack =>
    refine tended_same hintervals hlastSent ha.owned ?_ rfl
    rw [hw, answer]
    split_ifs
    · exact ⟨rfl, rfl, rfl⟩
    · exact ⟨rfl, rfl, rfl⟩
  | _ => exact hallowed.elim

/-- Only a set interval ends what a call leaves as it is. -/
theorem unsampled_answer {l : Owed Key} (hallowed : l.Allows o) (hset : ∀ ms, o ≠ .setInterval key ms)
    (h : Unsampled w key) : Unsampled (answer w o).2 key := by
  cases o with
  | tryAddInterval key' intervalMs =>
    rw [show intervalMs = none from hallowed]
    by_cases heq : key' = key
    · subst heq
      change ((tryAdd w.intervals key' none).get key').join = none
      rw [get_tryAdd_self]
      cases hentry : w.intervals.get key' with
      | none => rfl
      | some ms => rwa [Unsampled, hentry] at h
    · exact (congrArg Option.join (get_tryAdd_of_ne heq)).trans h
  | setInterval key' intervalMs =>
    by_cases heq : key' = key
    · subst heq
      exact absurd rfl (hset intervalMs)
    · exact (congrArg Option.join (Dict.get_put_of_ne heq)).trans h
  | tryRemoveInterval key' =>
    by_cases heq : key' = key
    · subst heq
      exact congrArg Option.join Dict.get_pop_self
    · exact (congrArg Option.join (Dict.get_pop_of_ne heq)).trans h
  | sendAck connectionId ack =>
    rw [answer]
    split_ifs
    · exact h
    · exact h
  | clearIntervals => exact hallowed.elim
  | sendPacket connectionId data => exact hallowed.elim
  | _ => exact h

private theorem startsUnsampled_answered (hstarts : StartsUnsampled w trace)
    (hintervals : Tended (·.intervals) Owed.interval w trace)
    (ha : Answered (registering Key Conn Data) (owing Key Conn Data) w trace i request o r w')
    (horder : InOrder ⟨i, request, o, r, w, w'⟩ trace) :
    StartsUnsampled w' (⟨i, request, o, r, w, w'⟩ :: trace) := by
  obtain ⟨-, hw⟩ := ha.eq_answer fun _ _ _ => rfl
  have hallowed : (owed i request trace).Allows o := ha.allowed
  intro key hkey
  rw [hw]
  rcases mem_unset_cons hkey with ⟨hold, hset⟩ | hstarted
  · exact unsampled_answer hallowed hset (hstarts key hold)
  · refine unsampled_answer hallowed (fun ms heq => ?_) (unsampled_of_started hstarted hintervals horder)
    subst heq
    cases hstarted

theorem Books.answered (h : Books w trace)
    (ha : Answered (registering Key Conn Data) (owing Key Conn Data) w trace i request o r w')
    (horder : InOrder ⟨i, request, o, r, w, w'⟩ trace) :
    Books w' (⟨i, request, o, r, w, w'⟩ :: trace) := by
  obtain ⟨hintervals, hlastSent⟩ := tended_answered h.intervals h.lastSent ha horder.1
  exact ⟨hintervals, hlastSent, startsUnsampled_answered h.starts h.intervals ha horder⟩

/-- Registrations, intervals and deregistrations in any order, as long as none writes behind
another's back. -/
theorem bookkeeping_follows {requests : List (Request Key Conn)}
    {events : List (InterleavedThreads.Event (Request Key Conn) Unit)}
    {c : Config (Ans Key Conn Data) SendError (World Key Conn Data) (Request Key Conn)}
    (htidy : Tidy w)
    (hrun : (registering Key Conn Data).run ((registering Key Conn Data).initial w requests) events =
      some c)
    (horder : EachCall InOrder c.trace) :
    StartsUnsampled c.world c.trace ∧ ((∀ t ∈ c.threads, t.Finished) → Tidy c.world) := by
  have hdrift : ∀ (w w' : World Key Conn Data) (choice : Unit),
      (registering Key Conn Data).drift w choice ≠ some w' := by
    intro w w' choice h
    cases h
  obtain ⟨hkeeps, hkept⟩ := run_keeps (I := fun w trace => EachCall InOrder trace → Books w trace)
    (A := fun _ _ => True) follows_registering (fun w _ choice w' _ h => absurd h (hdrift w w' choice))
    (fun _ _ _ _ _ _ _ hI _ ha htrace => (hI htrace.2).answered ha htrace.1) (fun _ _ _ _ => trivial)
    (kept_initial follows_registering w requests) (fun _ _ _ => trivial)
    (fun _ => books_of_tidy htidy) hrun
  have hbooks := hkeeps horder
  refine ⟨hbooks.starts, fun hfinished key hkey => ⟨?_, ?_⟩⟩
  · by_contra hentry
    exact not_owes hkept hfinished rfl (hbooks.intervals key hkey hentry)
  · by_contra hentry
    exact not_owes hkept hfinished rfl (hbooks.lastSent key hkey hentry)

end

/-- A stream that client 7 registers, samples and gives up, then client 8 registers. -/
def handedOver : List (Request ℕ ℕ) :=
  [.register ⟨0, none⟩ 7, .setTimeInterval 0 500 7, .deregister 0, .register ⟨0, none⟩ 8]

/-- One after the other. -/
def oneByOne : List (InterleavedThreads.Event (Request ℕ ℕ) Unit) :=
  List.replicate 4 (.answer 0 ()) ++ List.replicate 4 (.answer 1 ()) ++ List.replicate 5 (.answer 2 ()) ++
    List.replicate 4 (.answer 3 ())

theorem bookkeeping_follows_oneByOne :
    ∃ c, (registering ℕ ℕ ℕ).run ((registering ℕ ℕ ℕ).initial World.empty handedOver) oneByOne = some c ∧
      StartsUnsampled c.world c.trace ∧ Tidy c.world ∧ c.world.connections = [(0, 8)] := by
  obtain ⟨c, hrun, horder, hfinished, hconnections⟩ : ∃ c, (registering ℕ ℕ ℕ).run
      ((registering ℕ ℕ ℕ).initial World.empty handedOver) oneByOne = some c ∧
      EachCall InOrder c.trace ∧ (∀ t ∈ c.threads, t.Finished) ∧ c.world.connections = [(0, 8)] :=
    System.exists_run _ (by decide) (by decide)
  have htidy : Tidy (World.empty : World ℕ ℕ ℕ) := fun key _ => ⟨rfl, rfl⟩
  obtain ⟨hstarts, htidies⟩ := bookkeeping_follows htidy hrun horder
  exact ⟨c, hrun, hstarts, htidies hfinished, hconnections⟩

/-- Client 7 has found its stream registered when it is given up, and sets the interval after. -/
def setBehind : List (InterleavedThreads.Event (Request ℕ ℕ) Unit) :=
  List.replicate 4 (.answer 0 ()) ++ [.answer 1 ()] ++ List.replicate 5 (.answer 2 ()) ++
    List.replicate 3 (.answer 1 ())

theorem untidy_setBehind :
    (∃ c, (registering ℕ ℕ ℕ).run ((registering ℕ ℕ ℕ).initial World.empty (handedOver.take 3))
      setBehind = some c ∧ (∀ t ∈ c.threads, t.Finished) ∧ ¬Tidy c.world) ∧
    ∃ c, (registering ℕ ℕ ℕ).run ((registering ℕ ℕ ℕ).initial World.empty handedOver)
      (setBehind ++ List.replicate 4 (.answer 3 ())) = some c ∧ (∀ t ∈ c.threads, t.Finished) ∧
      ¬StartsUnsampled c.world c.trace := by
  constructor
  · obtain ⟨c, hrun, hfinished, hconnection, hinterval⟩ : ∃ c, (registering ℕ ℕ ℕ).run
        ((registering ℕ ℕ ℕ).initial World.empty (handedOver.take 3)) setBehind = some c ∧
        (∀ t ∈ c.threads, t.Finished) ∧ c.world.connections.get 0 = none ∧
          c.world.intervals.get 0 = some (some 500) :=
      System.exists_run _ (by decide) (by decide)
    refine ⟨c, hrun, hfinished, fun htidy => ?_⟩
    have hnone := (htidy 0 hconnection).1
    rw [hinterval] at hnone
    cases hnone
  · obtain ⟨c, hrun, hfinished, hunset, hinterval⟩ : ∃ c, (registering ℕ ℕ ℕ).run
        ((registering ℕ ℕ ℕ).initial World.empty handedOver)
        (setBehind ++ List.replicate 4 (.answer 3 ())) = some c ∧
        (∀ t ∈ c.threads, t.Finished) ∧ 0 ∈ unset c.trace ∧ c.world.intervals.get 0 = some (some 500) :=
      System.exists_run _ (by decide) (by decide)
    refine ⟨c, hrun, hfinished, fun hstarts => ?_⟩
    have hnone := hstarts 0 hunset
    rw [Unsampled, hinterval] at hnone
    cases hnone

end Kanat.Transmission
