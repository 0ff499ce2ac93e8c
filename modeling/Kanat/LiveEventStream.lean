import Kanat.ServerSentEvents

/-! # A Session's live events as a stream, and what a window's EventSource makes of it

`stream` writes the messages published and the pings between them; the other side takes the text line by line, in
whatever reads it comes. Both are folds, joined by what is left between two events. -/
namespace Kanat.LiveEventStream
open ServerSentEvents

def retryMs : ℕ := 1000

/-- What `queue.get()` gives within `PING_S`: a message, nothing, or the `None` that ends the stream. -/
inductive Got where
  | message (text : String)
  | timeout
  | closed
  deriving DecidableEq

def chunks : List Got → List String
  | [] => []
  | .timeout :: rest => "event: ping\ndata: ping\n\n" :: chunks rest
  | .closed :: _ => []
  | .message text :: rest => ("data: " ++ text ++ "\n\n") :: chunks rest

/-- `event_stream` -/
def eventStream (gots : List Got) : List String := s!"retry: {retryMs}\n\n" :: chunks gots

/-- The stream's text. -/
def wire (yielded : List String) : List Char := yielded.flatMap String.toList

def Got.text : Got → List Char
  | .message text => text.toList
  | _ => []

/-- What the EventSource dispatches of a message or a ping. -/
def Got.event : Got → Option Event
  | .message text => some ⟨"message".toList, text.toList⟩
  | .timeout => some ⟨"ping".toList, "ping".toList⟩
  | .closed => none

/-- Those before the stream's end. -/
def live (gots : List Got) : List Got := gots.takeWhile (· ≠ .closed)

/-- What reaches `onmessage` of the events dispatched. -/
def onMessage (events : List Event) : List (List Char) :=
  events.filterMap fun e => if e.type = "message".toList then some e.data else none

/-- Between events, with nothing of the next one read. -/
structure Idle (p : Parser) : Prop where
  line : p.line = []
  afterReturn : p.afterReturn = false
  data : p.data = []
  event : p.event = []

variable {p : Parser} {gots : List Got}

theorem isName {name : List Char} (h : name.all fun c => c ≠ '\n' ∧ c ≠ '\r' ∧ c ≠ ':') :
    ∀ c ∈ name, c ≠ '\n' ∧ c ≠ '\r' ∧ c ≠ ':' :=
  fun c hc => of_decide_eq_true (List.all_eq_true.mp h c hc)

theorem isLine {text : List Char} (h : text.all fun c => c ≠ '\n' ∧ c ≠ '\r') :
    ∀ c ∈ text, c ≠ '\n' ∧ c ≠ '\r' :=
  fun c hc => of_decide_eq_true (List.all_eq_true.mp h c hc)

theorem Idle.read_retry (h : Idle p) : p.read (s!"retry: {retryMs}\n\n").toList = { p with retry := some retryMs } := by
  have htext : (s!"retry: {retryMs}\n\n").toList = sent "retry".toList "1000".toList ++ ['\n'] := by decide
  rw [htext, read_append, read_sent (isName (by decide)) (by decide) (isLine (by decide)) h.line h.afterReturn]
  obtain ⟨line, afterReturn, data, event⟩ := p
  cases h.line
  cases h.afterReturn
  cases h.data
  cases h.event
  rfl

theorem Idle.read_ping (h : Idle p) : p.read "event: ping\ndata: ping\n\n".toList =
    { p with dispatched := p.dispatched ++ [⟨"ping".toList, "ping".toList⟩] } := by
  have htext : "event: ping\ndata: ping\n\n".toList =
      sent "event".toList "ping".toList ++ (sent "data".toList "ping".toList ++ ['\n']) := by decide
  rw [htext, read_append, read_sent (isName (by decide)) (by decide) (isLine (by decide)) h.line h.afterReturn,
    read_append]
  obtain ⟨line, afterReturn, data, event⟩ := p
  cases h.line
  cases h.afterReturn
  cases h.data
  cases h.event
  rw [read_sent (isName (by decide)) (by decide) (isLine (by decide)) rfl rfl]
  rfl

theorem Idle.read_message (h : Idle p) {text : String} (htext : ∀ c ∈ text.toList, c ≠ '\n' ∧ c ≠ '\r') :
    p.read ("data: " ++ text ++ "\n\n").toList =
      { p with dispatched := p.dispatched ++ [⟨"message".toList, text.toList⟩] } := by
  have hsent : ("data: " ++ text ++ "\n\n").toList = sent "data".toList text.toList ++ ['\n'] := by
    simp [sent]
  rw [hsent, read_append, read_sent (isName (by decide)) (by decide) htext h.line h.afterReturn]
  obtain ⟨line, afterReturn, data, event⟩ := p
  cases h.line
  cases h.afterReturn
  cases h.data
  cases h.event
  have hfield (q : Parser) :
      q.field "data".toList text.toList = { q with data := q.data ++ text.toList ++ ['\n'] } := by
    rw [Parser.field, if_neg (by decide), if_pos rfl]
  rw [hfield, Parser.read, List.foldl_cons, List.foldl_nil]
  simp [Parser.feed, Parser.endLine, Parser.dispatch]

theorem wire_cons (chunk : String) (rest : List String) : wire (chunk :: rest) = chunk.toList ++ wire rest :=
  List.flatMap_cons

private theorem read_chunks (h : Idle p)
    (htext : ∀ got ∈ gots, ∀ c ∈ got.text, c ≠ '\n' ∧ c ≠ '\r') :
    p.read (wire (chunks gots)) = { p with dispatched := p.dispatched ++ (live gots).filterMap Got.event } := by
  induction gots generalizing p with
  | nil =>
    rw [live, List.takeWhile_nil, List.filterMap_nil, List.append_nil]
    rfl
  | cons got gots ih =>
    have hrest {q : Parser} (hq : Idle q) := ih hq fun got hm => htext got (List.mem_cons_of_mem _ hm)
    have hlive (hgot : got ≠ .closed) : live (got :: gots) = got :: live gots :=
      List.takeWhile_cons_of_pos (by simpa using hgot)
    cases got with
    | closed =>
      rw [live, List.takeWhile_cons_of_neg (by simp), List.filterMap_nil, List.append_nil]
      rfl
    | timeout =>
      have hnext : Idle { p with dispatched := p.dispatched ++ [⟨"ping".toList, "ping".toList⟩] } :=
        ⟨h.line, h.afterReturn, h.data, h.event⟩
      rw [chunks, wire_cons, read_append, h.read_ping, hlive nofun]
      refine (hrest hnext).trans ?_
      rw [List.filterMap_cons_some (by rfl), List.append_assoc]
      rfl
    | message text =>
      have hnext : Idle { p with dispatched := p.dispatched ++ [⟨"message".toList, text.toList⟩] } :=
        ⟨h.line, h.afterReturn, h.data, h.event⟩
      rw [chunks, wire_cons, read_append, h.read_message (htext (.message text) List.mem_cons_self), hlive nofun]
      refine (hrest hnext).trans ?_
      rw [List.filterMap_cons_some (by rfl), List.append_assoc]
      rfl

private theorem onMessage_live (gots : List Got) : onMessage ((live gots).filterMap Got.event) =
    (live gots).filterMap fun got => match got with
      | .message text => some text.toList
      | _ => none := by
  rw [onMessage, List.filterMap_filterMap]
  refine List.filterMap_congr fun got _ => ?_
  cases got <;> rfl

/-- However a stream's text is cut into reads and wherever it breaks off, a window is handed whole messages, in the
order they were published, and no ping; the last of them too, once all of the text is there. A message's JSON is one
line. -/
theorem window_reads_messages (gots : List Got)
    (hjson : ∀ got ∈ gots, ∀ c ∈ got.text, c ≠ '\n' ∧ c ≠ '\r') (reads : List (List Char))
    (hreads : reads.flatten <+: wire (eventStream gots)) :
    let messages := (live gots).filterMap fun got => match got with
      | .message text => some text.toList
      | _ => none
    let p := reads.foldl Parser.read {}
    onMessage p.dispatched <+: messages ∧
      (reads.flatten = wire (eventStream gots) → onMessage p.dispatched = messages ∧ p.retry = some retryMs) := by
  intro messages p
  have hidle : Idle ({} : Parser) := ⟨rfl, rfl, rfl, rfl⟩
  have hall : Parser.read {} (wire (eventStream gots)) =
      { ({} : Parser) with retry := some retryMs, dispatched := (live gots).filterMap Got.event } := by
    rw [eventStream, wire_cons, read_append, hidle.read_retry]
    exact read_chunks ⟨rfl, rfl, rfl, rfl⟩ hjson
  have hread : p = Parser.read {} reads.flatten := List.foldl_flatten.symm
  have hshown : onMessage ((live gots).filterMap Got.event) = messages := onMessage_live gots
  constructor
  · have hbegins := dispatched_of_prefix {} hreads
    rw [hall, ← hread] at hbegins
    exact hshown ▸ hbegins.filterMap _
  · intro hwhole
    rw [hread, hwhole, hall]
    exact ⟨hshown, rfl⟩

/-- The text breaks off within its second message. -/
theorem window_reads_messages_brokenOff :
    let text := wire (eventStream [.message "0", .timeout, .message "1"])
    let p := [text.take 30, (text.drop 30).take 23].foldl Parser.read {}
    onMessage p.dispatched <+: [['0'], ['1']] ∧ onMessage p.dispatched = [['0']] := by
  intro text p
  have hjson : ∀ got ∈ [Got.message "0", .timeout, .message "1"], ∀ c ∈ got.text, c ≠ '\n' ∧ c ≠ '\r' := by
    simp [Got.text]
  have hcut : [text.take 30, (text.drop 30).take 23].flatten <+: text := by
    rw [List.flatten_cons, List.flatten_cons, List.flatten_nil, List.append_nil, ← List.take_add]
    exact List.take_prefix _ _
  obtain ⟨hbegins, -⟩ := window_reads_messages _ hjson [text.take 30, (text.drop 30).take 23] hcut
  exact ⟨hbegins, by decide⟩

end Kanat.LiveEventStream
