import Mathlib.Data.List.Infix
import Mathlib.Tactic.Common

/-! # Server-Sent Events

What an EventSource makes of a stream's text, character by character: lines end in a line feed, a carriage return or
both, a blank one dispatches the event so far, and an event still open at the end of the stream is dropped. -/
namespace Kanat.ServerSentEvents

structure Event where
  type : List Char
  data : List Char
  deriving DecidableEq

structure Parser where
  line : List Char := []
  afterReturn : Bool := false
  data : List Char := []
  event : List Char := []
  lastEventId : List Char := []
  retry : Option ℕ := none
  dispatched : List Event := []
  deriving DecidableEq

namespace Parser

def dispatch (p : Parser) : Parser :=
  if p.data = [] then { p with event := [] }
  else
    { p with
      data := []
      event := []
      dispatched := p.dispatched ++ [⟨if p.event = [] then "message".toList else p.event, p.data.dropLast⟩] }

def number (digits : List Char) : ℕ := digits.foldl (fun n c => 10 * n + (c.toNat - '0'.toNat)) 0

def field (p : Parser) (name value : List Char) : Parser :=
  if name = "event".toList then { p with event := value }
  else if name = "data".toList then { p with data := p.data ++ value ++ ['\n'] }
  else if name = "id".toList then if '\x00' ∈ value then p else { p with lastEventId := value }
  else if name = "retry".toList then
    if value ≠ [] ∧ value.all Char.isDigit then { p with retry := some (number value) } else p
  else p

/-- A field's value, less the one space that may come before it. -/
def valueOf : List Char → List Char
  | ' ' :: rest => rest
  | rest => rest

def endLine (p : Parser) : Parser :=
  let line := p.line
  let p := { p with line := [] }
  if line = [] then p.dispatch
  else
    match line.span (· ≠ ':') with
    | (name, []) => p.field name []
    | ([], _) => p
    | (name, _ :: rest) => p.field name (valueOf rest)

def feed (p : Parser) (c : Char) : Parser :=
  if c = '\n' then
    if p.afterReturn then { p with afterReturn := false } else p.endLine
  else if c = '\r' then { p.endLine with afterReturn := true }
  else { p with line := p.line ++ [c], afterReturn := false }

def read (p : Parser) (text : List Char) : Parser := text.foldl feed p

end Parser

/-- One field of an event, as it is sent. -/
def sent (name value : List Char) : List Char := name ++ ':' :: ' ' :: value ++ ['\n']

section
variable {p : Parser} {text rest : List Char}

theorem read_append (p : Parser) (text rest : List Char) : p.read (text ++ rest) = (p.read text).read rest :=
  List.foldl_append

/-- What was dispatched stays so. -/
theorem dispatched_feed (p : Parser) (c : Char) : p.dispatched <+: (p.feed c).dispatched := by
  have hfield (q : Parser) (name value : List Char) : (q.field name value).dispatched = q.dispatched := by
    simp only [Parser.field]
    split_ifs <;> rfl
  have hline : p.dispatched <+: p.endLine.dispatched := by
    simp only [Parser.endLine]
    split
    · simp only [Parser.dispatch]
      split
      · exact List.prefix_refl _
      · exact List.prefix_append _ _
    · split
      · rw [hfield]
      · exact List.prefix_refl _
      · rw [hfield]
  rw [Parser.feed]
  split_ifs
  · exact List.prefix_refl _
  · exact hline
  · exact hline
  · exact List.prefix_refl _

private theorem dispatched_read (p : Parser) (text : List Char) : p.dispatched <+: (p.read text).dispatched := by
  induction text generalizing p with
  | nil => exact List.prefix_refl _
  | cons c text ih => exact (dispatched_feed p c).trans (ih (p.feed c))

/-- A stream cut anywhere has dispatched the first of its events, each whole. -/
theorem dispatched_of_prefix (p : Parser) (h : text <+: rest) :
    (p.read text).dispatched <+: (p.read rest).dispatched := by
  obtain ⟨more, rfl⟩ := h
  rw [read_append]
  exact dispatched_read _ _

/-- Text without a line's end is kept for its line. -/
theorem read_line (h : ∀ c ∈ text, c ≠ '\n' ∧ c ≠ '\r') (hreturn : p.afterReturn = false) :
    p.read text = { p with line := p.line ++ text } := by
  induction text generalizing p with
  | nil =>
    rw [List.append_nil]
    rfl
  | cons c text ih =>
    obtain ⟨hfeed, hreturn'⟩ := h c List.mem_cons_self
    have hone : p.feed c = { p with line := p.line ++ [c], afterReturn := false } := by
      rw [Parser.feed, if_neg hfeed, if_neg hreturn']
    have hopen : (p.feed c).afterReturn = false := by rw [hone]
    have hrest := ih (fun d hd => h d (List.mem_cons_of_mem _ hd)) hopen
    rw [Parser.read, List.foldl_cons]
    refine hrest.trans ?_
    rw [hone, hreturn, List.append_assoc]
    rfl

private theorem span_name {name : List Char} (h : ∀ c ∈ name, c ≠ ':') (value : List Char) :
    (name ++ ':' :: value).span (· ≠ ':') = (name, ':' :: value) := by
  rw [List.span_eq_takeWhile_dropWhile, List.takeWhile_append_of_pos, List.dropWhile_append_of_pos]
  · simp
  · simpa using h
  · simpa using h

/-- A field sent is that field. -/
theorem read_sent {name value : List Char} (hname : ∀ c ∈ name, c ≠ '\n' ∧ c ≠ '\r' ∧ c ≠ ':') (hne : name ≠ [])
    (hvalue : ∀ c ∈ value, c ≠ '\n' ∧ c ≠ '\r') (hline : p.line = []) (hreturn : p.afterReturn = false) :
    p.read (sent name value) = p.field name value := by
  have htext : ∀ c ∈ name ++ ':' :: ' ' :: value, c ≠ '\n' ∧ c ≠ '\r' := by
    intro c hc
    rcases List.mem_append.mp hc with hc | hc
    · exact ⟨(hname c hc).1, (hname c hc).2.1⟩
    · rcases List.mem_cons.mp hc with rfl | hc
      · decide
      · rcases List.mem_cons.mp hc with rfl | hc
        · decide
        · exact hvalue c hc
  have hread := read_line htext hreturn
  rw [sent, read_append, hread, hline, List.nil_append]
  change Parser.feed _ '\n' = _
  rw [Parser.feed, if_pos rfl]
  simp only [hreturn, Bool.false_eq_true, if_false, Parser.endLine]
  rw [if_neg (by simp), span_name (fun c hc => (hname c hc).2.2)]
  obtain ⟨c, name, rfl⟩ := List.exists_cons_of_ne_nil hne
  cases p
  cases hline
  cases hreturn
  rfl

end

end Kanat.ServerSentEvents
