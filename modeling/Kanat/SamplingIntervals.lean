import Kanat.InterleavedThreads
import Kanat.StreamRegistrations
import Mathlib.Data.List.Pairwise

/-! # How far apart the packets of a sampled stream are sent

The handlers' workers decide at once about packets of one stream. Each decision is a thread. -/
namespace Kanat.Transmission
open ResumptionPrograms InterleavedThreads InsertionOrderDict

variable {Key Conn Data : Type}

/-- Between the workers' calls only the clock moves, and never back. -/
def deciding (Key Conn Data : Type) [DecidableEq Key] [DecidableEq Conn] :
    System (Ans Key Conn Data) SendError (World Key Conn Data) (BasePacketEntity Key Data) ℕ where
  program packet := decideToTransmit packet >>= fun _ => pure none
  answer w o _ := some (answer w o)
  drift w elapsedMs := some { w with now := w.now + elapsedMs }

abbrev Trace (Key Conn Data : Type) :=
  List (Call (Ans Key Conn Data) (World Key Conn Data) (BasePacketEntity Key Data))

/-- The clock as thread `i` has read it. -/
def readAt (i : ℕ) : Trace Key Conn Data → Option ℤ
  | [] => none
  | ⟨j, _, .utcNow, currentMs, _, _⟩ :: trace => if j = i then some currentMs else readAt i trace
  | _ :: trace => readAt i trace

section
variable [DecidableEq Key]

/-- The key's packets handed to its client, newest first: the thread that decided to, and its
reading of the clock. -/
def sends (key : Key) : Trace Key Conn Data → List (ℕ × Option ℤ)
  | [] => []
  | ⟨i, packet, .sendPacket .., _, _, _⟩ :: trace =>
      if packet.subscriptionKey = key then (i, readAt i trace) :: sends key trace
      else sends key trace
  | _ :: trace => sends key trace

/-- The writes of the key's last-sent time, newest first. -/
def stores (key : Key) : Trace Key Conn Data → List (ℕ × ℤ)
  | [] => []
  | ⟨i, _, .setLastSent key' currentMs, _, _, _⟩ :: trace =>
      if key' = key then (i, currentMs) :: stores key trace else stores key trace
  | _ :: trace => stores key trace

end

/-- Two readings of the clock, `I` ms apart at least. -/
def Apart (I : ℤ) : Option ℤ → Option ℤ → Prop
  | some a, some b => I ≤ a - b ∨ I ≤ b - a
  | _, _ => False

instance (I : ℤ) : (a b : Option ℤ) → Decidable (Apart I a b)
  | some a, some b => inferInstanceAs (Decidable (I ≤ a - b ∨ I ≤ b - a))
  | some _, none | none, _ => .isFalse id

/-- Any two packets of the key that were sent. -/
def IntervalKept (key : Key) (I : ℤ) [DecidableEq Key] (trace : Trace Key Conn Data) : Prop :=
  (sends key trace).Pairwise fun s t => Apart I s.2 t.2

/-- The reading that the call writes as the key's last-sent time. -/
def Op.written (key : Key) [DecidableEq Key] : Op Key Conn Data → Option ℤ
  | .setLastSent key' currentMs => if key' = key then some currentMs else none
  | _ => none

/-- What a decision compared when it read the key's last-sent time holds still when it writes it. -/
def StillElapsed (key : Key) (I : ℤ) [DecidableEq Key]
    (call : Call (Ans Key Conn Data) (World Key Conn Data) (BasePacketEntity Key Data))
    (_ : Trace Key Conn Data) : Prop :=
  ∀ currentMs ∈ call.op.written key, ∀ lastSentMs ∈ call.before.lastSent.get key,
    currentMs - lastSentMs ≥ I

instance (key : Key) (I : ℤ) [DecidableEq Key]
    (call : Call (Ans Key Conn Data) (World Key Conn Data) (BasePacketEntity Key Data))
    (earlier : Trace Key Conn Data) : Decidable (StillElapsed key I call earlier) :=
  inferInstanceAs (Decidable (∀ currentMs ∈ call.op.written key,
    ∀ lastSentMs ∈ call.before.lastSent.get key, currentMs - lastSentMs ≥ I))

/-- How far a decision has come. -/
inductive Phase where
  | asking
  | unsampled
  | sampled
  | read (currentMs : ℤ)
  | due (currentMs : ℤ)
  | ended

structure Decision (Key : Type) where
  key : Key
  phase : Phase

def Phase.next : Phase → (o : Op Key Conn Data) → Ans Key Conn Data o → Phase
  | _, .tryGetInterval _, some (some _) => .sampled
  | _, .tryGetInterval _, _ => .unsampled
  | _, .utcNow, currentMs => .read currentMs
  | .read currentMs, .setLastSent .., _ => .due currentMs
  | _, .sendPacket .., _ => .ended
  | phase, _, _ => phase

/-- The packet may be sent. -/
def Decision.Transmits (d : Decision Key) : Prop :=
  d.phase = .unsampled ∨ ∃ currentMs, d.phase = .due currentMs

def Decision.Allows (d : Decision Key) : Op Key Conn Data → Prop
  | .tryGetConnection _ => d.phase = .asking
  | .tryGetInterval key => key = d.key ∧ d.phase = .asking
  | .utcNow => d.phase = .sampled
  | .getOrAddLastSent .. => ∃ currentMs, d.phase = .read currentMs
  | .setLastSent key currentMs => key = d.key ∧ d.phase = .read currentMs
  | .sendPacket .. => d.Transmits
  | _ => False

def deciders (Key Conn Data : Type) :
    Contract (Ans Key Conn Data) (BasePacketEntity Key Data) (Decision Key) where
  allowed := Decision.Allows
  possible _ _ := True
  next d o r := { d with phase := d.phase.next o r }
  start packet := ⟨packet.subscriptionKey, .asking⟩
  Ready d packet := d = ⟨packet.subscriptionKey, .asking⟩
  Returned _ := True
  Raised _ := False

section
variable {E : Decision Key → SendError → Prop} {key : Key} {packet : BasePacketEntity Key Data}

/-- Whoever is told to transmit is due, or has no interval. -/
theorem obeys_shouldTransmit :
    Obeys (deciders Key Conn Data).toMonitor
      (fun d transmits => transmits = true → d.Transmits) E
      (shouldTransmit key : M Key Conn Data Bool) ⟨key, .asking⟩ := by
  refine obeys_bind.mpr (obeys_call ⟨rfl, rfl⟩ fun interval => ?_)
  rcases interval with _ | _ | intervalMs
  · exact fun _ => Or.inl rfl
  · exact fun _ => Or.inl rfl
  · refine obeys_bind.mpr (obeys_call rfl fun currentMs => ?_)
    refine obeys_bind.mpr (obeys_call ⟨currentMs, rfl⟩ fun lastSentMs => ?_)
    split_ifs
    · refine obeys_bind.mpr (obeys_call ⟨rfl, rfl⟩ fun _ => ?_)
      exact fun _ => Or.inr ⟨currentMs, rfl⟩
    · exact fun h => Bool.noConfusion h

theorem obeys_decideToTransmit :
    Obeys (deciders Key Conn Data).toMonitor (fun _ _ => True) (fun _ _ => False)
      (decideToTransmit packet : M Key Conn Data Unit) ⟨packet.subscriptionKey, .asking⟩ := by
  refine obeys_bind.mpr (obeys_call rfl fun connection => ?_)
  cases connection with
  | none => trivial
  | some connectionId =>
    refine obeys_bind.mpr (obeys_shouldTransmit.mono (fun d transmits hd => ?_) fun _ _ hE => hE)
    cases transmits with
    | false => trivial
    | true =>
      dsimp only
      cases packet.plainData with
      | none => trivial
      | some data =>
        apply obeys_tryCatch.mpr
        apply obeys_bind.mpr
        exact obeys_call (hd rfl) fun r => obeys_ofExcept.mpr ⟨fun _ _ => trivial, fun _ _ => trivial⟩

end

theorem follows_deciding [DecidableEq Key] [DecidableEq Conn] :
    Follows (deciding Key Conn Data) (deciders Key Conn Data) where
  ready _ := rfl
  holds d packet hd := by
    rw [hd]
    apply obeys_bind.mpr
    refine obeys_decideToTransmit.mono (fun _ _ _ => ?_) fun _ _ hE => hE
    refine ⟨fun r hr => ?_, fun _ => trivial⟩
    cases hr
  possible _ _ _ _ _ _ := trivial

section
variable {key : Key} {I : ℤ} {i j : ℕ} {packet : BasePacketEntity Key Data}
  {trace trace' : Trace Key Conn Data}

/-- How far thread `i` has come. -/
def phase (i : ℕ) (packet : BasePacketEntity Key Data) (trace : Trace Key Conn Data) : Phase :=
  (standing (deciders Key Conn Data) i packet trace).phase

theorem standing_eq : standing (deciders Key Conn Data) i packet trace =
    ⟨packet.subscriptionKey, phase i packet trace⟩ := by
  induction trace with
  | nil => rfl
  | cons call trace ih =>
    rw [phase, standing]
    split_ifs
    · rw [ih]
      rfl
    · exact ih

theorem phase_cons_of_ne {call : Call (Ans Key Conn Data) (World Key Conn Data) (BasePacketEntity Key Data)}
    (h : call.thread ≠ i) : phase i packet (call :: trace) = phase i packet trace := by
  rw [phase, standing_cons_of_ne h, phase]

/-- The reading a decision is made by. -/
def Phase.reading : Phase → Option ℤ
  | .read currentMs | .due currentMs => some currentMs
  | _ => none

private theorem readAt_cons_of_ne {call : Call (Ans Key Conn Data) (World Key Conn Data) (BasePacketEntity Key Data)}
    (h : call.thread ≠ i) : readAt i (call :: trace) = readAt i trace := by
  obtain ⟨j, request, o, r, w, w'⟩ := call
  cases o with
  | utcNow => exact if_neg h
  | _ => rfl

private theorem readAt_of_reading {currentMs : ℤ} (h : (phase i packet trace).reading = some currentMs) :
    readAt i trace = some currentMs := by
  induction trace with
  | nil => cases h
  | cons call trace ih =>
    by_cases hi : call.thread = i
    · obtain ⟨j, request, o, r, w, w'⟩ := call
      subst hi
      rw [phase, standing_cons_self] at h
      cases o with
      | utcNow => exact (if_pos rfl).trans h
      | tryGetInterval key => rcases r with _ | _ | intervalMs <;> cases h
      | sendPacket connectionId data => cases h
      | setLastSent key ms =>
        apply ih
        change (Phase.next (phase j packet trace) (.setLastSent key ms) r).reading = _ at h
        cases hphase : phase j packet trace with
        | read currentMs' => rwa [hphase] at h
        | _ => rwa [hphase] at h
      | _ => exact ih h
    · rw [readAt_cons_of_ne hi]
      apply ih
      rwa [phase_cons_of_ne hi] at h

variable [DecidableEq Key]

/-- What a decision about the key has left behind it, as far as it has come. -/
def Leaves (key : Key) (i : ℕ) (trace : Trace Key Conn Data) : Phase → Prop
  | .unsampled => False
  | .due currentMs => (i, currentMs) ∈ stores key trace ∧ ∀ s ∈ sends key trace, s.1 ≠ i
  | .ended => True
  | _ => ∀ s ∈ sends key trace, s.1 ≠ i

theorem Leaves.grow {p : Phase} (h : Leaves key i trace p)
    (hstores : ∀ s ∈ stores key trace, s ∈ stores key trace')
    (hsends : ∀ s ∈ sends key trace', s ∈ sends key trace ∨ s.1 ≠ i) : Leaves key i trace' p := by
  have hunsent : (∀ s ∈ sends key trace, s.1 ≠ i) → ∀ s ∈ sends key trace', s.1 ≠ i := by
    intro h s hs
    rcases hsends s hs with hold | hne
    · exact h s hold
    · exact hne
  cases p with
  | unsampled => exact h
  | due currentMs => exact ⟨hstores _ h.1, hunsent h.2⟩
  | ended => trivial
  | asking => exact hunsent h
  | sampled => exact hunsent h
  | read currentMs => exact hunsent h

/-- Each packet sent was stored for first, by its own thread; and what was stored is as far apart as
the interval asks. -/
structure Sampled (key : Key) (I : ℤ) (w : World Key Conn Data) (trace : Trace Key Conn Data) :
    Prop where
  interval : w.intervals.get key = some (some I)
  last : ∀ p ∈ stores key trace, ∃ lastSentMs ∈ w.lastSent.get key, 0 ≤ I → p.2 ≤ lastSentMs
  apart : (stores key trace).Pairwise fun p q => Apart I (some p.2) (some q.2)
  stored : ∀ s ∈ sends key trace, ∃ currentMs, s.2 = some currentMs ∧ (s.1, currentMs) ∈ stores key trace
  once : (sends key trace).Pairwise fun s t => s.1 ≠ t.1
  leaves : ∀ i packet, packet.subscriptionKey = key → Owns trace i packet →
    Leaves key i trace (phase i packet trace)

theorem Apart.symm {a b : Option ℤ} (h : Apart I a b) : Apart I b a := by
  rcases a with _ | a
  · rcases b with _ | b <;> exact h
  · rcases b with _ | b
    · exact h
    · exact Or.symm h

private theorem intervalKept_of_sampled {w : World Key Conn Data} (h : Sampled key I w trace) :
    IntervalKept key I trace := by
  refine h.once.imp_of_mem fun {s t} hs ht hne => ?_
  obtain ⟨a, ha, hsa⟩ := h.stored s hs
  obtain ⟨b, hb, htb⟩ := h.stored t ht
  rw [ha, hb]
  have : Std.Symm fun p q : ℕ × ℤ => Apart I (some p.2) (some q.2) := ⟨fun p q hpq => hpq.symm⟩
  apply h.apart.forall hsa htb
  intro heq
  exact hne (congrArg (fun p : ℕ × ℤ => p.1) heq)

variable {w w' : World Key Conn Data} {request : BasePacketEntity Key Data}

/-- What one answered call leaves of every decision, its own apart. -/
theorem leaves_cons {call : Call (Ans Key Conn Data) (World Key Conn Data) (BasePacketEntity Key Data)}
    (h : Sampled key I w trace) (hstores : ∀ s ∈ stores key trace, s ∈ stores key (call :: trace))
    (hsends : ∀ s ∈ sends key (call :: trace), s ∈ sends key trace ∨ s.1 = call.thread)
    (hown : call.request.subscriptionKey = key → Leaves key call.thread (call :: trace)
      (phase call.thread call.request (call :: trace))) (j : ℕ) (packet : BasePacketEntity Key Data)
    (hpacket : packet.subscriptionKey = key) (howns : Owns (call :: trace) j packet) :
    Leaves key j (call :: trace) (phase j packet (call :: trace)) := by
  by_cases hj : call.thread = j
  · have hrequest := howns.head hj
    subst hj hrequest
    exact hown hpacket
  · rw [phase_cons_of_ne hj]
    refine (h.leaves j packet hpacket howns.tail).grow hstores fun s hs => ?_
    rcases hsends s hs with hold | hnew
    · exact Or.inl hold
    · exact Or.inr (hnew ▸ hj)

/-- A call that neither stores for the key nor sends of it. -/
theorem Sampled.quiet {o : Op Key Conn Data} {r : Ans Key Conn Data o} (h : Sampled key I w trace)
    (hstores : stores key (⟨i, request, o, r, w, w'⟩ :: trace) = stores key trace)
    (hsends : sends key (⟨i, request, o, r, w, w'⟩ :: trace) = sends key trace)
    (hinterval : w'.intervals.get key = w.intervals.get key)
    (hlast : ∀ ms, w.lastSent.get key = some ms → w'.lastSent.get key = some ms)
    (hown : request.subscriptionKey = key → Leaves key i trace (phase i request trace) →
      Leaves key i trace ((phase i request trace).next o r)) (howns : Owns trace i request) :
    Sampled key I w' (⟨i, request, o, r, w, w'⟩ :: trace) where
  interval := hinterval.trans h.interval
  last p hp := by
    rw [hstores] at hp
    obtain ⟨ms, hms, hle⟩ := h.last p hp
    exact ⟨ms, hlast ms hms, hle⟩
  apart := by
    rw [hstores]
    exact h.apart
  stored := by
    rw [hstores, hsends]
    exact h.stored
  once := by
    rw [hsends]
    exact h.once
  leaves := by
    refine leaves_cons h (fun s hs => ?_) (fun s hs => ?_) fun hkey => ?_
    · rwa [hstores]
    · rw [hsends] at hs
      exact Or.inl hs
    · rw [phase, standing_cons_self]
      refine (hown hkey (h.leaves i request hkey howns)).grow (fun s hs => ?_) fun s hs => ?_
      · rwa [hstores]
      · rw [hsends] at hs
        exact Or.inl hs

/-- A decision writes the time it read, and what it compared holds still. -/
theorem Sampled.setLastSent {currentMs : ℤ} {r : Unit} (h : Sampled key I w trace)
    (hphase : phase i request trace = .read currentMs) (hkey : request.subscriptionKey = key)
    (howns : Owns trace i request)
    (helapsed : ∀ lastSentMs ∈ w.lastSent.get key, currentMs - lastSentMs ≥ I)
    (hinterval : w'.intervals.get key = w.intervals.get key)
    (hlast : w'.lastSent.get key = some currentMs) :
    Sampled key I w' (⟨i, request, .setLastSent key currentMs, r, w, w'⟩ :: trace) := by
  have hstores : stores key (⟨i, request, .setLastSent key currentMs, r, w, w'⟩ :: trace) =
      (i, currentMs) :: stores key trace := if_pos rfl
  refine ⟨hinterval.trans h.interval, ?_, ?_, ?_, h.once, ?_⟩
  · intro p hp
    refine ⟨currentMs, hlast, fun hI => ?_⟩
    rw [hstores] at hp
    rcases List.mem_cons.mp hp with rfl | hp
    · exact Int.le_refl currentMs
    · obtain ⟨lastSentMs, hms, hle⟩ := h.last p hp
      have := helapsed lastSentMs hms
      have := hle hI
      omega
  · rw [hstores]
    refine List.pairwise_cons.mpr ⟨fun p hp => ?_, h.apart⟩
    obtain ⟨lastSentMs, hms, hle⟩ := h.last p hp
    have := helapsed lastSentMs hms
    change I ≤ currentMs - p.2 ∨ I ≤ p.2 - currentMs
    omega
  · intro s hs
    obtain ⟨ms, hms, hstored⟩ := h.stored s hs
    refine ⟨ms, hms, ?_⟩
    rw [hstores]
    exact List.mem_cons_of_mem _ hstored
  · apply leaves_cons h
    · intro s hs
      rw [hstores]
      exact List.mem_cons_of_mem _ hs
    · intro s hs
      exact Or.inl hs
    · intro _
      have hunsent := h.leaves i request hkey howns
      rw [hphase] at hunsent
      rw [phase, standing_cons_self]
      change Leaves key i _ ((phase i request trace).next (.setLastSent key currentMs) r)
      rw [hphase]
      refine ⟨?_, hunsent⟩
      rw [hstores]
      exact List.mem_cons_self

/-- Whoever sends has stored its reading, and has not sent before. -/
theorem Sampled.sendPacket {connectionId : Conn} {data : Data} {r : Except SendError Unit}
    (h : Sampled key I w trace)
    (hphase : phase i request trace = .unsampled ∨ ∃ ms, phase i request trace = .due ms)
    (hkey : request.subscriptionKey = key) (howns : Owns trace i request)
    (hinterval : w'.intervals.get key = w.intervals.get key)
    (hlast : w'.lastSent.get key = w.lastSent.get key) :
    Sampled key I w' (⟨i, request, .sendPacket connectionId data, r, w, w'⟩ :: trace) := by
  have hsends : sends key (⟨i, request, .sendPacket connectionId data, r, w, w'⟩ :: trace) =
      (i, readAt i trace) :: sends key trace := if_pos hkey
  have hleaves := h.leaves i request hkey howns
  rcases hphase with hphase | ⟨currentMs, hphase⟩
  · rw [hphase] at hleaves
    exact hleaves.elim
  rw [hphase] at hleaves
  obtain ⟨hstored, hunsent⟩ := hleaves
  refine ⟨hinterval.trans h.interval, ?_, h.apart, ?_, ?_, ?_⟩
  · intro p hp
    obtain ⟨ms, hms, hle⟩ := h.last p hp
    exact ⟨ms, hlast.trans hms, hle⟩
  · intro s hs
    rw [hsends] at hs
    rcases List.mem_cons.mp hs with rfl | hs
    · have hreading : (phase i request trace).reading = some currentMs := by
        rw [hphase]
        rfl
      exact ⟨currentMs, readAt_of_reading hreading, hstored⟩
    · exact h.stored s hs
  · rw [hsends]
    refine List.pairwise_cons.mpr ⟨fun s hs heq => ?_, h.once⟩
    exact hunsent s hs heq.symm
  · apply leaves_cons h
    · intro s hs
      exact hs
    · intro s hs
      rw [hsends] at hs
      rcases List.mem_cons.mp hs with rfl | hs
      · exact Or.inr rfl
      · exact Or.inl hs
    · intro _
      rw [phase, standing_cons_self]
      trivial

private theorem sampled_initial (hinterval : w.intervals.get key = some (some I)) :
    Sampled key I w ([] : Trace Key Conn Data) where
  interval := hinterval
  last p hp := by cases hp
  apart := List.Pairwise.nil
  stored s hs := by cases hs
  once := List.Pairwise.nil
  leaves i packet _ _ s hs := by cases hs

variable [DecidableEq Conn]

private theorem sampled_answered {o : Op Key Conn Data} {r : Ans Key Conn Data o} (h : Sampled key I w trace)
    (ha : Answered (deciding Key Conn Data) (deciders Key Conn Data) w trace i request o r w')
    (hmeets : StillElapsed key I ⟨i, request, o, r, w, w'⟩ trace) :
    Sampled key I w' (⟨i, request, o, r, w, w'⟩ :: trace) := by
  obtain ⟨hr, hw⟩ := ha.eq_answer fun _ _ _ => rfl
  have hallowed := ha.allowed
  change Decision.Allows _ o at hallowed
  rw [standing_eq] at hallowed
  cases o with
  | tryGetConnection key' =>
    refine h.quiet rfl rfl (by rw [hw]; rfl) (fun ms hms => by rw [hw]; exact hms) (fun _ hl => ?_) ha.owned
    exact hl
  | tryGetInterval key' =>
    refine h.quiet rfl rfl (by rw [hw]; rfl) (fun ms hms => by rw [hw]; exact hms)
      (fun hkey hl => ?_) ha.owned
    obtain ⟨hown, hasking⟩ := hallowed
    change phase i request trace = .asking at hasking
    rw [hasking] at hl
    change r = w.intervals.get key' at hr
    rw [hown, hkey, h.interval] at hr
    rw [hr]
    exact hl
  | utcNow =>
    refine h.quiet rfl rfl (by rw [hw]; rfl) (fun ms hms => by rw [hw]; exact hms) (fun _ hl => ?_) ha.owned
    change phase i request trace = .sampled at hallowed
    rw [hallowed] at hl
    exact hl
  | getOrAddLastSent key' ms' =>
    obtain ⟨currentMs, hread⟩ := hallowed
    refine h.quiet rfl rfl (by rw [hw]; rfl) (fun ms hms => ?_) (fun _ hl => ?_) ha.owned
    · rw [hw]
      change (tryAdd w.lastSent key' ms').get key = some ms
      by_cases hkey : key' = key
      · rw [hkey, get_tryAdd_self, hms]
        rfl
      · rw [get_tryAdd_of_ne hkey]
        exact hms
    · change phase i request trace = .read currentMs at hread
      rw [hread] at hl ⊢
      exact hl
  | setLastSent key' currentMs =>
    obtain ⟨hown, hread⟩ := hallowed
    by_cases hkey : key' = key
    · subst hkey
      exact h.setLastSent hread hown.symm ha.owned (hmeets currentMs (if_pos rfl)) (by rw [hw]; rfl)
        (by rw [hw]; exact Dict.get_put_self)
    · refine h.quiet (if_neg hkey) rfl (by rw [hw]; rfl) (fun ms hms => ?_) (fun hrequest => ?_) ha.owned
      · rw [hw]
        exact (Dict.get_put_of_ne hkey).trans hms
      · exact absurd (hown.trans hrequest) hkey
  | sendPacket connectionId data =>
    have hframe : w'.intervals = w.intervals ∧ w'.lastSent = w.lastSent := by
      rw [hw, answer]
      split_ifs
      · exact ⟨rfl, rfl⟩
      · exact ⟨rfl, rfl⟩
    by_cases hkey : request.subscriptionKey = key
    · exact h.sendPacket hallowed hkey ha.owned (by rw [hframe.1]) (by rw [hframe.2])
    · refine h.quiet rfl (if_neg hkey) (by rw [hframe.1]) (fun ms hms => ?_) (fun hrequest => ?_) ha.owned
      · rwa [hframe.2]
      · exact absurd hrequest hkey
  | _ => exact hallowed.elim

/-- Any number of workers, in any order, each last-sent time unchanged in what it was compared for. -/
theorem sampling_kept (key : Key) (I : ℤ) {requests : List (BasePacketEntity Key Data)}
    {events : List (InterleavedThreads.Event (BasePacketEntity Key Data) ℕ)}
    {c : Config (Ans Key Conn Data) SendError (World Key Conn Data) (BasePacketEntity Key Data)}
    (hinterval : w.intervals.get key = some (some I))
    (hrun : (deciding Key Conn Data).run ((deciding Key Conn Data).initial w requests) events = some c)
    (hmeets : EachCall (StillElapsed key I) c.trace) : IntervalKept key I c.trace := by
  have hkept := run_keeps (I := fun w trace => EachCall (StillElapsed key I) trace → Sampled key I w trace)
    (A := fun _ _ => True) follows_deciding (fun w trace elapsedMs w' hI hdrift htrace => ?_)
    (fun w trace i request o r w' hI _ ha htrace => ?_) (fun _ _ _ _ => trivial)
    (kept_initial follows_deciding w requests) (fun _ _ _ => trivial)
    (fun _ => sampled_initial hinterval) hrun
  · exact intervalKept_of_sampled (hkept.1 hmeets)
  · cases hdrift
    have h := hI htrace
    exact ⟨h.interval, h.last, h.apart, h.stored, h.once, h.leaves⟩
  · exact sampled_answered (hI htrace.2) ha htrace.1

end

/-- One stream of client 7, sampled every 10 ms. -/
def everyTenMs : World ℕ ℕ ℕ where
  connections := [(0, 7)]
  intervals := [(0, some 10)]
  lastSent := [(0, 0)]
  now := 100
  refusals := []
  acks := []
  packets := []

/-- Two packets of the stream, 10 ms one after the other. -/
def inTurn : List (InterleavedThreads.Event (BasePacketEntity ℕ ℕ) ℕ) :=
  [.answer 0 0, .answer 0 0, .answer 0 0, .answer 0 0, .answer 0 0, .answer 0 0, .drift 10,
    .answer 1 0, .answer 1 0, .answer 1 0, .answer 1 0, .answer 1 0, .answer 1 0]

theorem sampling_kept_inTurn :
    ∃ c, (deciding ℕ ℕ ℕ).run ((deciding ℕ ℕ ℕ).initial everyTenMs [⟨0, some 1⟩, ⟨0, some 2⟩])
      inTurn = some c ∧ IntervalKept 0 10 c.trace ∧ c.world.packets = [(7, 2), (7, 1)] := by
  obtain ⟨c, hrun, hmeets, hpackets⟩ : ∃ c, (deciding ℕ ℕ ℕ).run
      ((deciding ℕ ℕ ℕ).initial everyTenMs [⟨0, some 1⟩, ⟨0, some 2⟩]) inTurn = some c ∧
      EachCall (StillElapsed 0 10) c.trace ∧ c.world.packets = [(7, 2), (7, 1)] :=
    System.exists_run _ (by decide) (by decide)
  exact ⟨c, hrun, sampling_kept 0 10 rfl hrun hmeets, hpackets⟩

/-- Both workers read the last-sent time before either writes it. -/
def atOnce : List (InterleavedThreads.Event (BasePacketEntity ℕ ℕ) ℕ) :=
  [.answer 0 0, .answer 0 0, .answer 0 0, .answer 0 0, .answer 1 0, .answer 1 0, .answer 1 0,
    .answer 1 0, .answer 0 0, .answer 1 0, .answer 0 0, .answer 1 0]

theorem sent_atOnce :
    ∃ c, (deciding ℕ ℕ ℕ).run ((deciding ℕ ℕ ℕ).initial everyTenMs [⟨0, some 1⟩, ⟨0, some 2⟩])
      atOnce = some c ∧ ¬IntervalKept 0 10 c.trace ∧ sends 0 c.trace = [(1, some 100), (0, some 100)] ∧
      c.world.packets = [(7, 2), (7, 1)] := by
  obtain ⟨c, hrun, hsends, hpackets⟩ : ∃ c, (deciding ℕ ℕ ℕ).run
      ((deciding ℕ ℕ ℕ).initial everyTenMs [⟨0, some 1⟩, ⟨0, some 2⟩]) atOnce = some c ∧
      sends 0 c.trace = [(1, some 100), (0, some 100)] ∧ c.world.packets = [(7, 2), (7, 1)] :=
    System.exists_run _ (by decide) (by decide)
  refine ⟨c, hrun, ?_, hsends, hpackets⟩
  rw [IntervalKept, hsends]
  decide

end Kanat.Transmission
