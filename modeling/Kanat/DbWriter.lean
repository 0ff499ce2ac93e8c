import Mathlib.Data.Int.Notation
import Mathlib.Data.List.Basic

/-! # A worker of the database writer

The worker reads parsed packets into its buffer and flushes it in batches. Everything around it (the
channel, the timer, the clock, cancellation, the database) is the schedule's. -/
namespace Kanat.DbWriter

/-- Exceptions, by what the worker's handlers tell apart. -/
inductive Exn where
  | ingress | canceled | channelClosed | other
deriving DecidableEq, Repr

/-- Those that lead to the final flush. -/
def Exn.ends (e : Exn) : Bool :=
  e = .canceled || e = .channelClosed

/-- How the steps of one flush go: the write, and after an ingress error a new sender and the write
once more. `none` is success. -/
structure Writes where
  first : Option Exn
  recreate : Option Exn
  second : Option Exn
deriving DecidableEq, Repr

structure Settings where
  batchSize : ℕ
  /-- the length of the rented array -/
  rented : ℕ
  batchTimeout : ℤ
  holdsBatch : batchSize ≤ rented

variable {Item : Type}

/-- What is asked of a sender. -/
inductive SenderCall where
  | created (sender : ℕ)
  | wrote (sender : ℕ)
  | disposed (sender : ℕ)
deriving DecidableEq, Repr

/-- `read` are the items taken from the channel, `flushed` those in a batch that was written and
`failed` those counted as failed, each as often as that happened. Senders are numbered as they are
made, and `writes` are the batches handed to each. -/
structure Record (Item : Type) where
  read : List Item := []
  flushed : List Item := []
  failed : List Item := []
  channelCount : ℤ := 0
  senders : ℕ := 0
  writes : List (ℕ × List Item) := []
  senderCalls : List SenderCall := []
deriving DecidableEq, Repr

namespace Record

def recordFlushSuccess (r : Record Item) (batch : List Item) : Record Item :=
  { r with flushed := r.flushed ++ batch }

def recordFlushFailure (r : Record Item) (batch : List Item) : Record Item :=
  { r with failed := r.failed ++ batch }

def newSender (r : Record Item) : ℕ × Record Item :=
  (r.senders, { r with
    senders := r.senders + 1
    senderCalls := r.senderCalls ++ [.created r.senders] })

def writeBatch (r : Record Item) (sender : ℕ) (batch : List Item) : Record Item :=
  { r with
    writes := r.writes ++ [(sender, batch)]
    senderCalls := r.senderCalls ++ [.wrote sender] }

def dispose (r : Record Item) (sender : ℕ) : Record Item :=
  { r with senderCalls := r.senderCalls ++ [.disposed sender] }

end Record

def flushInternal (r : Record Item) (sender : ℕ) (batch : List Item) (writes : Writes) :
    Except Exn Unit × Record Item :=
  if batch.isEmpty then (.ok (), r)
  else
    let r := r.writeBatch sender batch
    match writes.first with
    | none => (.ok (), r.recordFlushSuccess batch)
    | some .ingress =>
        let r := r.dispose sender
        match writes.recreate with
        | some e => (.error e, r)
        | none =>
            let (sender, r) := r.newSender
            let r := r.writeBatch sender batch
            match writes.second with
            | none => (.ok (), r.recordFlushSuccess batch)
            | some e => (.error e, r.recordFlushFailure batch)
    | some _ => (.ok (), r.recordFlushFailure batch)

/-- The channel answers each `TryRead` with an item or with none; past the list there is none. -/
def readChunk : ℕ → List (Option Item) → List Item × List (Option Item)
  | 0, reads => ([], reads)
  | _ + 1, [] => ([], [])
  | _ + 1, none :: reads => ([], reads)
  | n + 1, some item :: reads =>
      let (items, reads) := readChunk n reads
      (item :: items, reads)

theorem length_readChunk (n : ℕ) (reads : List (Option Item)) :
    (readChunk n reads).1.length ≤ n := by
  induction n, reads using readChunk.induct with
  | case1 reads => exact Nat.le_refl 0
  | case2 n => exact Nat.zero_le _
  | case3 n reads => exact Nat.zero_le _
  | case4 n item reads items reads' heq ih =>
    rw [heq] at ih
    rw [readChunk, heq]
    exact Nat.succ_le_succ ih

/-- Chunks of eight until there is no room left or a chunk reads nothing. -/
def drain (room : ℕ) (reads : List (Option Item)) : List Item :=
  if _hroom : room = 0 then []
  else
    match readChunk (min 8 room) reads with
    | ([], _) => []
    | (item :: items, reads) => (item :: items) ++ drain (room - (items.length + 1)) reads
termination_by room
decreasing_by
  omega

structure Buffer (Item : Type) where
  items : List Item := []
  oldest : Option ℤ := none
deriving DecidableEq, Repr

/-- `oldestUtc` after an item of this time. -/
def older (oldest : Option ℤ) (timestamp : ℤ) : Option ℤ :=
  match oldest with
  | none => some timestamp
  | some t => if timestamp < t then some timestamp else some t

section
variable (timestamp : Item → ℤ) (o : Settings)

/-- The items taken, and the buffer they are put into unless the first finds no place in it. -/
def readFromChannel (b : Buffer Item) (reads : List (Option Item)) :
    List Item × Except Exn (Buffer Item) :=
  match reads with
  | [] | none :: _ => ([], .ok b)
  | some firstItem :: reads =>
      if o.rented ≤ b.items.length then ([firstItem], .error .other)
      else
        let taken := firstItem :: drain (o.batchSize - (b.items.length + 1)) reads
        (taken, .ok
          { items := b.items ++ taken
            oldest := taken.foldl (fun oldest item => older oldest (timestamp item)) b.oldest })

def shouldFlush (b : Buffer Item) (now : ℤ) : Bool :=
  match b.oldest with
  | some oldest =>
      if b.items.length < o.batchSize ∧ 0 < b.items.length then o.batchTimeout ≤ now - oldest
      else o.batchSize ≤ b.items.length
  | none => o.batchSize ≤ b.items.length

end

/-- One turn of the loop. -/
inductive Round (Item : Type) where
  /-- the loop finds the token cancelled -/
  | canceled
  /-- the wait for items was cancelled or failed: its result throws an aggregate of that -/
  | waitFaulted
  | completed
  | available (reads : List (Option Item)) (now : ℤ) (writes : Writes)
  | ticked (writes : Writes)
  | tickFaulted (e : Exn)
  | tickStopped
deriving DecidableEq, Repr

structure Worker (Item : Type) where
  buffer : Buffer Item := {}
  record : Record Item := {}
deriving DecidableEq, Repr

/-- How a turn leaves the loop, if it does: at its end, or by an exception. -/
abbrev Leaving := Option (Except Exn Unit)

section
variable (timestamp : Item → ℤ) (o : Settings) (sender : ℕ)

/-- `FlushBatchAsync`, the buffer emptied unless it throws. -/
def flushBatch (w : Worker Item) (writes : Writes) : Leaving × Worker Item :=
  match flushInternal w.record sender w.buffer.items writes with
  | (.ok (), r) => (none, { buffer := {}, record := r })
  | (.error e, r) => (some (.error e), { w with record := r })

def round (w : Worker Item) : Round Item → Leaving × Worker Item
  | .canceled => (some (.ok ()), w)
  | .waitFaulted => (some (.error .other), w)
  | .completed => (some (.ok ()), w)
  | .available reads now writes =>
      match readFromChannel timestamp o w.buffer reads with
      | (taken, .error e) =>
          (some (.error e), { w with record := { w.record with read := w.record.read ++ taken } })
      | (taken, .ok buffer) =>
          let w : Worker Item :=
            { buffer := buffer, record := { w.record with read := w.record.read ++ taken } }
          if buffer.items.isEmpty then (none, w)
          else
            let w := { w with record :=
              { w.record with channelCount := w.record.channelCount - buffer.items.length } }
            if shouldFlush o buffer now then flushBatch sender w writes else (none, w)
  | .ticked writes => if w.buffer.items.isEmpty then (none, w) else flushBatch sender w writes
  | .tickFaulted e => (some (.error e), w)
  | .tickStopped => (some (.ok ()), w)

/-- With no turns left the worker is still running. -/
def loop (w : Worker Item) : List (Round Item) → Leaving × Worker Item
  | [] => (none, w)
  | r :: rounds =>
      match round timestamp o sender w r with
      | (none, w) => loop w rounds
      | left => left

end

structure Schedule (Item : Type) where
  newSender : Option Exn
  rounds : List (Round Item)
  final : Writes
deriving DecidableEq, Repr

/-- The handlers around the loop. -/
def afterLoop (sender : ℕ) (final : Writes) (left : Leaving) (w : Worker Item) :
    Leaving × Record Item :=
  match left with
  | some (.error e) =>
      if e.ends then
        let (result, r) := flushInternal w.record sender w.buffer.items final
        (some result, r)
      else (some (.error e), w.record)
  | left => (left, w.record)

/-- The `finally` of the worker. -/
def disposing (sender : ℕ) : Leaving × Record Item → Leaving × Record Item
  | (none, r) => (none, r)
  | (some result, r) => (some result, r.dispose sender)

/-- How the worker ends, if it does, and what it leaves on record. -/
def workerLoop (timestamp : Item → ℤ) (o : Settings) (s : Schedule Item) : Leaving × Record Item :=
  match s.newSender with
  | some e => (some (if e.ends then .ok () else .error e), {})
  | none =>
      let (sender, r) := ({} : Record Item).newSender
      let (left, w) := loop timestamp o sender { record := r } s.rounds
      disposing sender (afterLoop sender s.final left w)

end Kanat.DbWriter
