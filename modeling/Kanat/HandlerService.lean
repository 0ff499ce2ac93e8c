import Kanat.InterleavedThreads
import Mathlib.Logic.Function.Basic
import Mathlib.Data.Int.Notation

/-! # The packet handlers: captures, and the workers that parse and forward them

All handlers share one statistics object, and each has its own raw channel. -/
namespace Kanat.HandlerService
open ResumptionPrograms InterleavedThreads

variable {Handler Data Entity : Type}

/-- A captured packet; its number in the order of captures only tells it from other packets. -/
structure Packet (Handler Data : Type) where
  handler : Handler
  number : ℕ
  data : Data
deriving DecidableEq, Repr

inductive Exn where
  | canceled | channelClosed | other
deriving DecidableEq, Repr

/-- Where a thread may be interrupted. The forwarding calls name the packet the entity was parsed
from. -/
inductive Op (Handler Data Entity : Type) where
  | incrementCaptured (h : Handler) (data : Data)
  | tryWriteRaw (x : Packet Handler Data)
  | incrementBackpressure
  | writeRaw (x : Packet Handler Data)
  | addRawChannelCount (h : Handler) (by' : ℤ)
  | complete (h : Handler)
  | isCancellationRequested
  | readRaw (h : Handler)
  | tryReadRaw (h : Handler)
  | parse (x : Packet Handler Data)
  | transmit (x : Packet Handler Data) (entity : Entity)
  | tryWriteParsed (x : Packet Handler Data) (entity : Entity)
  | writeParsed (x : Packet Handler Data) (entity : Entity)
  | incrementParsedChannelCount
  | recordParseSuccess (x : Packet Handler Data)
  | recordParseFailure (x : Packet Handler Data)

abbrev Ans (Handler Data Entity : Type) : Op Handler Data Entity → Type
  | .incrementCaptured .. => Packet Handler Data
  | .tryWriteRaw _ | .tryWriteParsed .. | .isCancellationRequested => Bool
  | .writeRaw _ | .complete _ | .transmit .. | .writeParsed .. => Except Exn Unit
  | .readRaw _ => Except Exn (Packet Handler Data)
  | .tryReadRaw _ => Option (Packet Handler Data)
  | .parse _ => Except Exn (Option Entity)
  | _ => Unit

abbrev M (Handler Data Entity α : Type) :=
  Prog (Ans Handler Data Entity) Exn α

def perform (o : Op Handler Data Entity) : M Handler Data Entity (Ans Handler Data Entity o) :=
  Prog.perform o

def RAW_READ_BURST : ℕ := 64

def onNext (h : Handler) (data : Data) : M Handler Data Entity Unit := do
  let x ← perform (.incrementCaptured h data)
  match ← perform (.tryWriteRaw x) with
  | true => perform (.addRawChannelCount h 1)
  | false =>
      perform .incrementBackpressure
      perform (.writeRaw x) >>= Prog.ofExcept
      perform (.addRawChannelCount h 1)

def onCompleted (h : Handler) : M Handler Data Entity Unit :=
  perform (.complete h) >>= Prog.ofExcept

/-- What is there already, up to the burst. -/
def drain (h : Handler) : ℕ → List (Packet Handler Data) →
    M Handler Data Entity (List (Packet Handler Data))
  | 0, batch => pure batch
  | n + 1, batch => do
      match ← perform (.tryReadRaw h) with
      | none => pure batch
      | some more =>
          perform (.addRawChannelCount h (-1))
          drain h n (batch ++ [more])

/-- `none` once the channel is completed and empty. -/
def readBatchFromChannelAsync (h : Handler) :
    M Handler Data Entity (Option (List (Packet Handler Data))) := do
  match ← perform (.readRaw h) with
  | .error .channelClosed => pure none
  | .error e => throw e
  | .ok first =>
      perform (.addRawChannelCount h (-1))
      some <$> drain h (RAW_READ_BURST - 1) [first]

def forwardToParsedChannelAsync (x : Packet Handler Data) (parsed : Entity) :
    M Handler Data Entity Unit := do
  match ← perform (.tryWriteParsed x parsed) with
  | true => perform .incrementParsedChannelCount
  | false =>
      perform .incrementBackpressure
      perform (.writeParsed x parsed) >>= Prog.ofExcept
      perform .incrementParsedChannelCount

/-- One packet's `try` block. -/
def parseAndForward (x : Packet Handler Data) : M Handler Data Entity Unit := do
  match ← perform (.parse x) >>= Prog.ofExcept with
  | none => perform (.recordParseFailure x)
  | some parsedEntity =>
      perform (.transmit x parsedEntity) >>= Prog.ofExcept
      forwardToParsedChannelAsync x parsedEntity
      perform (.recordParseSuccess x)

def processBatchAsync (batch : List (Packet Handler Data)) : M Handler Data Entity Unit :=
  batch.forM fun x => (parseAndForward x).tryCatch fun _ => perform (.recordParseFailure x)

inductive Request (Handler Data : Type) where
  | onNext (h : Handler) (data : Data)
  | onCompleted (h : Handler)
  | worker (h : Handler)
deriving DecidableEq, Repr

/-- One turn of the worker's loop; a cancelled read ends the worker quietly. -/
def workerTurn (h : Handler) : M Handler Data Entity (Option (Request Handler Data)) := do
  match ← perform .isCancellationRequested with
  | true => return none
  | false =>
      match ← readBatchFromChannelAsync h with
      | none => return none
      | some rawBatch =>
          processBatchAsync rawBatch
          return some (.worker h)

def workerLoopAsync (h : Handler) : M Handler Data Entity (Option (Request Handler Data)) :=
  (workerTurn h).tryCatch fun
    | .canceled => pure none
    | e => throw e

def program : Request Handler Data → M Handler Data Entity (Option (Request Handler Data))
  | .onNext h data => do
      onNext h data
      return none
  | .onCompleted h => do
      onCompleted h
      return none
  | .worker h => workerLoopAsync h

structure World (Handler Data : Type) where
  raw : Handler → List (Packet Handler Data)
  rawCapacity : Handler → ℕ
  completed : Handler → Bool
  cancellationRequested : Bool
  captured : ℕ
  parsed : ℕ
  dropped : ℕ
  backpressure : ℕ
  rawChannelCount : Handler → ℤ
  parsedChannelCount : ℕ

/-- Before anything is captured. -/
def idle (rawCapacity : Handler → ℕ) : World Handler Data where
  raw _ := []
  rawCapacity := rawCapacity
  completed _ := false
  cancellationRequested := false
  captured := 0
  parsed := 0
  dropped := 0
  backpressure := 0
  rawChannelCount _ := 0
  parsedChannelCount := 0

/-- What an answer leaves open: how a call on the outside ends. -/
inductive Choice (Entity : Type) where
  | done
  | refused
  | raises (e : Exn)
  | entity (e : Entity)

section
variable [DecidableEq Handler]

def World.enqueue (w : World Handler Data) (x : Packet Handler Data) : World Handler Data :=
  { w with raw := Function.update w.raw x.handler (w.raw x.handler ++ [x]) }

/-- A read that finds nothing waits; its token may cancel it at any time once it is cancelled. -/
def answer (w : World Handler Data) :
    (o : Op Handler Data Entity) → Choice Entity → Option (Ans Handler Data Entity o × World Handler Data)
  | .incrementCaptured h data, .done =>
      some (⟨h, w.captured, data⟩, { w with captured := w.captured + 1 })
  | .tryWriteRaw x, .done =>
      if !w.completed x.handler && (w.raw x.handler).length < w.rawCapacity x.handler then
        some (true, w.enqueue x)
      else some (false, w)
  | .incrementBackpressure, .done => some ((), { w with backpressure := w.backpressure + 1 })
  | .writeRaw x, .done =>
      if w.completed x.handler then some (.error .channelClosed, w)
      else if (w.raw x.handler).length < w.rawCapacity x.handler then some (.ok (), w.enqueue x)
      else none
  | .addRawChannelCount h d, .done =>
      some ((), { w with
        rawChannelCount := Function.update w.rawChannelCount h (w.rawChannelCount h + d) })
  | .complete h, .done =>
      if w.completed h then some (.error .channelClosed, w)
      else some (.ok (), { w with completed := Function.update w.completed h true })
  | .isCancellationRequested, .done => some (w.cancellationRequested, w)
  | .readRaw h, .done =>
      match w.raw h with
      | x :: raw => some (.ok x, { w with raw := Function.update w.raw h raw })
      | [] => if w.completed h then some (.error .channelClosed, w) else none
  | .readRaw _, .refused =>
      if w.cancellationRequested then some (.error .canceled, w) else none
  | .tryReadRaw h, .done =>
      match w.raw h with
      | x :: raw => some (some x, { w with raw := Function.update w.raw h raw })
      | [] => some (none, w)
  | .parse _, .entity e => some (.ok (some e), w)
  | .parse _, .refused => some (.ok none, w)
  | .parse _, .raises e => some (.error e, w)
  | .transmit .., .done => some (.ok (), w)
  | .transmit .., .raises e => some (.error e, w)
  | .tryWriteParsed .., .done => some (true, w)
  | .tryWriteParsed .., .refused => some (false, w)
  | .writeParsed .., .done => some (.ok (), w)
  | .writeParsed .., .raises e => some (.error e, w)
  | .incrementParsedChannelCount, .done =>
      some ((), { w with parsedChannelCount := w.parsedChannelCount + 1 })
  | .recordParseSuccess _, .done => some ((), { w with parsed := w.parsed + 1 })
  | .recordParseFailure _, .done => some ((), { w with dropped := w.dropped + 1 })
  | _, _ => none

end

/-- The token is cancelled from outside, at any time. -/
def handlers (Handler Data Entity : Type) [DecidableEq Handler] : System (Ans Handler Data Entity) Exn
    (World Handler Data) (Request Handler Data) (Choice Entity) where
  program := program
  answer := answer
  drift w _ := some { w with cancellationRequested := true }

end Kanat.HandlerService
