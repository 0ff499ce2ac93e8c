import Kanat.DbWriter
import Mathlib.Algebra.BigOperators.Group.Finset.Basic
import Mathlib.Algebra.BigOperators.Group.Finset.Piecewise
import Mathlib.Data.Fintype.Basic

/-! # The parsed channels between the handlers and the writers, and the gauge that counts them

A step is one operation on a channel or on the count, which the statistics share between the packet types; a flush
touches neither, so that only whether it throws matters. -/
namespace Kanat.ParsedChannel
open DbWriter

variable {Kind Item : Type}

/-- Where a handler worker is in `ForwardToParsedChannelAsync`. -/
inductive Forwarding (Item : Type) where
  | idle
  | waiting (parsed : Item)
  | written
  deriving DecidableEq

structure Handler (Kind Item : Type) where
  kind : Kind
  forwarding : Forwarding Item
  deriving DecidableEq

/-- Where `ReadFromChannel` is: at its first item, or in a chunk. -/
inductive Reading where
  | first
  | chunk (itemsToRead itemsRead : ℕ)
  deriving DecidableEq

/-- Where a writer worker is in its loop; `crashed` has taken an item that the rented array had no room for. -/
inductive Phase where
  | waiting
  | reading (startIndex : ℕ) (reading : Reading)
  | counting (startIndex : ℕ)
  | counted
  | exited
  | crashed
  deriving DecidableEq

structure Writer (Kind Item : Type) where
  kind : Kind
  buffer : Buffer Item
  phase : Phase
  deriving DecidableEq

namespace Writer
variable (timestamp : Item → ℤ) (o : Settings)

/-- `buffer[currentIndex] = item` -/
def put (w : Writer Kind Item) (item : Item) : Writer Kind Item :=
  { w with buffer := ⟨w.buffer.items ++ [item], older w.buffer.oldest (timestamp item)⟩ }

/-- The head of the `while` over the chunks. -/
def nextChunk (w : Writer Kind Item) (startIndex : ℕ) : Writer Kind Item :=
  let currentIndex := w.buffer.items.length
  { w with phase :=
      if currentIndex < o.batchSize then .reading startIndex (.chunk (min 8 (o.batchSize - currentIndex)) 0)
      else .counting startIndex }

/-- What an answer of `TryRead` leads to. -/
def tryRead (w : Writer Kind Item) (startIndex : ℕ) : Reading → Option Item → Writer Kind Item
  | .first, none => { w with phase := .counting startIndex }
  | .first, some firstItem =>
    if o.rented ≤ w.buffer.items.length then { w with phase := .crashed }
    else (w.put timestamp firstItem).nextChunk o startIndex
  | .chunk itemsToRead itemsRead, some item =>
    let w := w.put timestamp item
    if itemsRead + 1 < itemsToRead then { w with phase := .reading startIndex (.chunk itemsToRead (itemsRead + 1)) }
    else w.nextChunk o startIndex
  | .chunk _ itemsRead, none =>
    if itemsRead = 0 then { w with phase := .counting startIndex } else w.nextChunk o startIndex

/-- A flush of the whole buffer, which stays as it was if it throws. -/
def flush (w : Writer Kind Item) (throws : Bool) : Writer Kind Item :=
  if throws then { w with phase := .exited } else { w with buffer := {}, phase := .waiting }

end Writer

/-- `written` and `read` count the items put into the channels and taken from them. -/
structure World (Kind Item : Type) where
  parsed : Kind → List Item
  capacity : Kind → ℕ
  completed : Kind → Bool
  channelCount : ℤ
  backpressure : ℕ
  handlers : List (Handler Kind Item)
  writers : List (Writer Kind Item)
  written : ℕ
  read : ℕ

inductive Event (Kind Item : Type) where
  | tryWrite (handler : ℕ) (parsed : Item)
  | write (handler : ℕ)
  | cancelWrite (handler : ℕ)
  | incrementChannelCount (handler : ℕ)
  | complete (kind : Kind)
  | available (worker : ℕ)
  | tryRead (worker : ℕ)
  | addChannelCount (worker : ℕ)
  | afterCount (worker : ℕ) (now : ℤ) (throws : Bool)
  | tick (worker : ℕ) (throws : Bool)
  | leave (worker : ℕ)

namespace World
variable [DecidableEq Kind]

/-- `GetChannelCount`: `Math.Max(0, (int)count)`. Of a count that has wrapped as a `long` the cast makes the same. -/
def getChannelCount (w : World Kind Item) : ℤ := max 0 (w.channelCount.bmod (2 ^ 32))

def enqueue (w : World Kind Item) (kind : Kind) (item : Item) : World Kind Item :=
  { w with
    parsed := Function.update w.parsed kind (w.parsed kind ++ [item])
    written := w.written + 1 }

def setHandler (w : World Kind Item) (i : ℕ) (handler : Handler Kind Item) (forwarding : Forwarding Item) :
    World Kind Item :=
  { w with handlers := w.handlers.set i { handler with forwarding } }

def setWriter (w : World Kind Item) (i : ℕ) (writer : Writer Kind Item) : World Kind Item :=
  { w with writers := w.writers.set i writer }

/-- Does a bounded channel take another item now? -/
def takes (w : World Kind Item) (kind : Kind) : Bool :=
  !w.completed kind && decide ((w.parsed kind).length < w.capacity kind)

def handlerStep (w : World Kind Item) (i : ℕ) (handler : Handler Kind Item) :
    Event Kind Item → Option (World Kind Item)
  | .tryWrite _ parsed =>
    match handler.forwarding with
    | .idle =>
      if w.takes handler.kind then some ((w.enqueue handler.kind parsed).setHandler i handler .written)
      else some ({ w with backpressure := w.backpressure + 1 }.setHandler i handler (.waiting parsed))
    | _ => none
  | .write _ =>
    match handler.forwarding with
    | .waiting parsed =>
      if w.takes handler.kind then some ((w.enqueue handler.kind parsed).setHandler i handler .written)
      else if w.completed handler.kind then some (w.setHandler i handler .idle)
      else none
    | _ => none
  | .cancelWrite _ =>
    match handler.forwarding with
    | .waiting _ => some (w.setHandler i handler .idle)
    | _ => none
  | .incrementChannelCount _ =>
    match handler.forwarding with
    | .written => some ({ w with channelCount := w.channelCount + 1 }.setHandler i handler .idle)
    | _ => none
  | _ => none

variable (timestamp : Item → ℤ) (o : Settings)

def writerStep (w : World Kind Item) (i : ℕ) (writer : Writer Kind Item) :
    Event Kind Item → Option (World Kind Item)
  | .available _ =>
    match writer.phase with
    | .waiting =>
      if w.parsed writer.kind = [] then none
      else some (w.setWriter i { writer with phase := .reading writer.buffer.items.length .first })
    | _ => none
  | .tryRead _ =>
    match writer.phase with
    | .reading startIndex reading =>
      match w.parsed writer.kind with
      | [] => some (w.setWriter i (writer.tryRead timestamp o startIndex reading none))
      | item :: items =>
        some ({ w with parsed := Function.update w.parsed writer.kind items, read := w.read + 1 }.setWriter i
          (writer.tryRead timestamp o startIndex reading (some item)))
    | _ => none
  | .addChannelCount _ =>
    match writer.phase with
    | .counting _ =>
      if writer.buffer.items.isEmpty then some (w.setWriter i { writer with phase := .waiting })
      else
        let bufferCount := writer.buffer.items.length
        some ({ w with channelCount := w.channelCount - bufferCount }.setWriter i { writer with phase := .counted })
    | _ => none
  | .afterCount _ now throws =>
    match writer.phase with
    | .counted =>
      some (w.setWriter i
        (if shouldFlush o writer.buffer now then writer.flush throws else { writer with phase := .waiting }))
    | _ => none
  | .tick _ throws =>
    match writer.phase with
    | .waiting => some (w.setWriter i (if writer.buffer.items.isEmpty then writer else writer.flush throws))
    | _ => none
  | .leave _ =>
    match writer.phase with
    | .waiting => some (w.setWriter i { writer with phase := .exited })
    | _ => none
  | _ => none

/-- One step of a worker, or none where the worker has no such step to take. -/
def step (w : World Kind Item) (e : Event Kind Item) : Option (World Kind Item) :=
  match e with
  | .tryWrite i _ | .write i | .cancelWrite i | .incrementChannelCount i =>
    w.handlers[i]?.bind fun handler => w.handlerStep i handler e
  | .available i | .tryRead i | .addChannelCount i | .afterCount i _ _ | .tick i _ | .leave i =>
    w.writers[i]?.bind fun writer => w.writerStep timestamp o i writer e
  | .complete kind => some { w with completed := Function.update w.completed kind true }

def run (w : World Kind Item) : List (Event Kind Item) → Option (World Kind Item)
  | [] => some w
  | e :: events => (w.step timestamp o e).bind fun w' => run w' events

/-- No item is between a channel and its count. -/
def Quiescent (w : World Kind Item) : Prop :=
  (∀ handler ∈ w.handlers, handler.forwarding ≠ .written) ∧
    ∀ writer ∈ w.writers, ∀ startIndex,
      writer.phase ≠ .counting startIndex ∧ ∀ reading, writer.phase ≠ .reading startIndex reading

/-- The writers ended by an item they had no room for. -/
def crashed (w : World Kind Item) : ℕ := w.writers.countP fun writer => writer.phase = .crashed

/-- The items that a count takes off though an earlier one has. -/
def countedAgain (w : World Kind Item) : Event Kind Item → ℕ
  | .addChannelCount i =>
    match w.writers[i]?.map Writer.phase with
    | some (.counting startIndex) => startIndex
    | _ => 0
  | _ => 0

/-- Over a whole run. -/
def recounts (w : World Kind Item) : List (Event Kind Item) → ℕ
  | [] => 0
  | e :: events => w.countedAgain e + ((w.step timestamp o e).map fun w' => recounts w' events).getD 0

end World

/-- Empty channels, and the workers at their start. -/
def idle (capacity : Kind → ℕ) (handlers writers : List Kind) : World Kind Item where
  parsed _ := []
  capacity := capacity
  completed _ := false
  channelCount := 0
  backpressure := 0
  handlers := handlers.map (⟨·, .idle⟩)
  writers := writers.map (⟨·, {}, .waiting⟩)
  written := 0
  read := 0

end Kanat.ParsedChannel
