import Kanat.HandlerService

/-! # What each thread of the packet handlers holds, and what it may do with it

What a thread's calls leave in its hands is summed up in a `Local`; the capture, the workers and the forwards are
shown to call only what it allows. -/
namespace Kanat.HandlerService
open ResumptionPrograms InterleavedThreads

variable {Handler Data Entity : Type}

/-- What one thread's calls so far leave in its hands: a packet it has captured and not queued yet,
packets it has read and not settled, the first of them written or not. `refused` tells that its raw
channel was completed under a capture. -/
structure Local (Handler Data : Type) where
  pending : Option (Packet Handler Data) := none
  hand : List (Packet Handler Data) := []
  written : Bool := false
  refused : Bool := false

namespace Local

def next (l : Local Handler Data) : (o : Op Handler Data Entity) → Ans Handler Data Entity o → Local Handler Data
  | .incrementCaptured .., x => { l with pending := some x }
  | .tryWriteRaw _, true => { l with pending := none }
  | .writeRaw _, .ok () => { l with pending := none }
  | .writeRaw _, .error _ => { l with refused := true }
  | .readRaw _, .ok x => { l with hand := [x] }
  | .tryReadRaw _, some x => { l with hand := l.hand ++ [x] }
  | .tryWriteParsed .., true => { l with written := true }
  | .writeParsed .., .ok () => { l with written := true }
  | .recordParseSuccess _, _ | .recordParseFailure _, _ =>
      { l with hand := l.hand.tail, written := false }
  | _, _ => l

/-- The packet is the one in work. -/
def Works (l : Local Handler Data) (x : Packet Handler Data) (written : Bool) : Prop :=
  l.hand.head? = some x ∧ l.written = written

/-- Nothing is in its hands. -/
def Empty (l : Local Handler Data) : Prop :=
  l.pending = none ∧ l.hand = [] ∧ l.written = false

/-- It has stopped with nothing but a capture that was refused. -/
def Stopped (l : Local Handler Data) : Prop :=
  l.hand = [] ∧ (l.refused = false → l.pending = none)

def Allows (l : Local Handler Data) : Op Handler Data Entity → Prop
  | .incrementCaptured .. | .complete _ | .isCancellationRequested | .readRaw _ => l.Empty
  | .tryWriteRaw x | .writeRaw x => l.pending = some x
  | .tryReadRaw _ => l.hand ≠ [] ∧ l.written = false
  | .parse x | .transmit x _ | .tryWriteParsed x _ | .writeParsed x _ => l.Works x false
  | .recordParseSuccess x => l.Works x true
  | .recordParseFailure x => l.Works x false
  | _ => True

end Local

def contract (Handler Data Entity : Type) : Contract (Ans Handler Data Entity)
    (Request Handler Data) (Local Handler Data) where
  allowed := Local.Allows
  possible _ _ := True
  next := Local.next
  start _ := {}
  Ready l _ := l.Empty
  Returned := Local.Empty
  Raised := Local.Stopped

variable {α : Type} {l : Local Handler Data} {h : Handler} {data : Data} {x : Packet Handler Data}
  {batch : List (Packet Handler Data)} {E : Local Handler Data → Exn → Prop}

theorem obeys_onNext (hl : l.Empty) :
    Obeys (contract Handler Data Entity).toMonitor (fun l _ => l.Empty) (fun l _ => l.Stopped)
      (onNext h data) l := by
  refine obeys_bind.mpr (obeys_call hl fun x => obeys_bind.mpr (obeys_call rfl fun queued => ?_))
  cases queued with
  | true => exact obeys_call trivial fun _ => ⟨rfl, hl.2⟩
  | false =>
    refine obeys_bind.mpr (obeys_call trivial fun _ => obeys_bind.mpr (obeys_bind.mpr ?_))
    refine obeys_call rfl fun r => ?_
    cases r with
    | ok u => exact obeys_call trivial fun _ => ⟨rfl, hl.2⟩
    | error e => exact ⟨hl.2.1, nofun⟩

theorem obeys_drain {n : ℕ} (hhand : l.hand = batch) (hbatch : batch ≠ [])
    (hpending : l.pending = none) (hwritten : l.written = false) :
    Obeys (contract Handler Data Entity).toMonitor
      (fun l batch => l.hand = batch ∧ batch ≠ [] ∧ l.pending = none ∧ l.written = false) E
      (drain h n batch) l := by
  induction n generalizing l batch with
  | zero => exact ⟨hhand, hbatch, hpending, hwritten⟩
  | succ n ih =>
    refine obeys_bind.mpr (obeys_call ⟨hhand ▸ hbatch, hwritten⟩ fun r => ?_)
    cases r with
    | none => exact ⟨hhand, hbatch, hpending, hwritten⟩
    | some more =>
      refine obeys_bind.mpr (obeys_call trivial fun _ => ih ?_ ?_ hpending hwritten)
      · exact congrArg (· ++ [more]) hhand
      · exact List.append_ne_nil_of_right_ne_nil _ (List.cons_ne_nil _ _)

theorem obeys_readBatch (hl : l.Empty) :
    Obeys (contract Handler Data Entity).toMonitor
      (fun l r => match r with
        | none => l.Empty
        | some batch => l.hand = batch ∧ l.pending = none ∧ l.written = false)
      (fun l _ => l.Empty) (readBatchFromChannelAsync h) l := by
  refine obeys_bind.mpr (obeys_call hl fun r => ?_)
  match r with
  | .error .channelClosed => exact hl
  | .error .canceled => exact hl
  | .error .other => exact hl
  | .ok first =>
    refine obeys_bind.mpr (obeys_call trivial fun _ => obeys_bind.mpr ?_)
    exact (obeys_drain (l := { l with hand := [first] }) rfl (List.cons_ne_nil first []) hl.1 hl.2.2).mono
      (fun l batch hl => ⟨hl.1, hl.2.2⟩) fun _ _ hE => hE

/-- Whatever happens to the packet in work, it is settled and the next one is in work. -/
theorem obeys_processOne (hhand : l.hand = x :: batch) (hpending : l.pending = none)
    (hwritten : l.written = false) :
    Obeys (contract Handler Data Entity).toMonitor
      (fun l _ => l.hand = batch ∧ l.pending = none ∧ l.written = false) E
      ((parseAndForward x).tryCatch fun _ => perform (.recordParseFailure x)) l := by
  have hworks : l.Works x false := ⟨by rw [hhand]; rfl, hwritten⟩
  have htail : l.hand.tail = batch := by rw [hhand]; rfl
  refine obeys_tryCatch.mpr (obeys_bind.mpr (obeys_bind.mpr (obeys_call hworks fun r => ?_)))
  match r with
  | .error e => exact obeys_call hworks fun _ => ⟨htail, hpending, rfl⟩
  | .ok none => exact obeys_call hworks fun _ => ⟨htail, hpending, rfl⟩
  | .ok (some entity) =>
    refine obeys_bind.mpr (obeys_bind.mpr (obeys_call hworks fun r => ?_))
    match r with
    | .error e => exact obeys_call hworks fun _ => ⟨htail, hpending, rfl⟩
    | .ok () =>
      refine obeys_bind.mpr (obeys_bind.mpr (obeys_call hworks fun r => ?_))
      match r with
      | true =>
        refine obeys_call trivial fun _ => obeys_call ⟨hworks.1, rfl⟩ fun _ => ⟨htail, hpending, rfl⟩
      | false =>
        refine obeys_bind.mpr (obeys_call trivial fun _ => obeys_bind.mpr (obeys_bind.mpr ?_))
        refine obeys_call hworks fun r => ?_
        match r with
        | .error e => exact obeys_call hworks fun _ => ⟨htail, hpending, rfl⟩
        | .ok () =>
          refine obeys_call trivial fun _ => obeys_call ⟨hworks.1, rfl⟩ fun _ => ⟨htail, hpending, rfl⟩

private theorem obeys_processBatch (hhand : l.hand = batch) (hpending : l.pending = none)
    (hwritten : l.written = false) :
    Obeys (contract Handler Data Entity).toMonitor (fun l _ => l.Empty) E (processBatchAsync batch) l := by
  induction batch generalizing l with
  | nil => exact ⟨hpending, hhand, hwritten⟩
  | cons x batch ih =>
    refine obeys_bind.mpr ((obeys_processOne hhand hpending hwritten).mono (fun l _ hl => ?_)
      fun _ _ hE => hE)
    exact ih hl.1 hl.2.1 hl.2.2

theorem obeys_worker (hl : l.Empty) :
    Obeys (contract Handler Data Entity).toMonitor (fun l _ => l.Empty) (fun l _ => l.Stopped)
      (workerLoopAsync h) l := by
  refine obeys_tryCatch.mpr (obeys_bind.mpr (obeys_call hl fun canceled => ?_))
  match canceled with
  | true => exact hl
  | false =>
    refine obeys_bind.mpr ((obeys_readBatch hl).mono (fun l r hr => ?_) fun l e hl => ?_)
    · match r with
      | none => exact hr
      | some batch => exact obeys_bind.mpr (obeys_processBatch hr.1 hr.2.1 hr.2.2)
    · match e with
      | .canceled => exact hl
      | .channelClosed => exact ⟨hl.2.1, fun _ => hl.1⟩
      | .other => exact ⟨hl.2.1, fun _ => hl.1⟩

theorem follows [DecidableEq Handler] :
    Follows (handlers Handler Data Entity) (contract Handler Data Entity) where
  ready r := ⟨rfl, rfl, rfl⟩
  holds l r hl := by
    cases r with
    | onNext h data =>
      refine obeys_bind.mpr ((obeys_onNext hl).mono (fun l _ hl => ⟨nofun, fun _ => hl⟩) fun _ _ hE => hE)
    | onCompleted h =>
      refine obeys_bind.mpr (obeys_bind.mpr (obeys_call hl fun r => ?_))
      cases r with
      | ok u => exact ⟨nofun, fun _ => hl⟩
      | error e => exact ⟨hl.2.1, fun _ => hl.1⟩
    | worker h => exact (obeys_worker hl).mono (fun l _ hl => ⟨fun _ _ => hl, fun _ => hl⟩) fun _ _ hE => hE
  possible _ _ _ _ _ _ := trivial

end Kanat.HandlerService
