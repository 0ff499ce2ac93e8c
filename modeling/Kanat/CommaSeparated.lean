import Mathlib.Data.List.Basic
import Mathlib.Tactic.Common

/-! # Comma-separated values

Rows of texts as the `excel` dialect writes them, a field quoted where it holds a comma, a quote or a line's end, and
the reader of that dialect, character by character. -/
namespace Kanat.CommaSeparated

abbrev Field := List Char

def special (c : Char) : Bool := c = ',' || c = '"' || c = '\r' || c = '\n'

def doubled (c : Char) : List Char := if c = '"' then ['"', '"'] else [c]

def writeField (field : Field) : List Char :=
  if field.any special then '"' :: field.flatMap doubled ++ ['"'] else field

/-- The fields, a comma between them. -/
def writeFields : List Field → List Char
  | [] => []
  | [field] => writeField field
  | field :: fields => writeField field ++ ',' :: writeFields fields

/-- The one empty field is quoted, or its row would be blank. -/
def writeRow (row : List Field) : List Char :=
  (if row = [[]] then ['"', '"'] else writeFields row) ++ ['\r', '\n']

def write (rows : List (List Field)) : List Char := rows.flatMap writeRow

inductive State where
  | startRecord | startField | inField | inQuotedField | quoteInQuotedField | afterReturn
  deriving DecidableEq

structure Reader where
  state : State := .startRecord
  field : Field := []
  fields : List Field := []
  rows : List (List Field) := []

namespace Reader

def saveField (r : Reader) : Reader := { r with field := [], fields := r.fields ++ [r.field] }

def endRecord (r : Reader) (c : Char) : Reader :=
  { r with state := if c = '\r' then .afterReturn else .startRecord, fields := [], rows := r.rows ++ [r.fields] }

def add (r : Reader) (c : Char) (state : State) : Reader := { r with state, field := r.field ++ [c] }

def ends (c : Char) : Bool := c = '\r' || c = '\n'

def startField (r : Reader) (c : Char) : Reader :=
  if ends c then r.saveField.endRecord c
  else if c = '"' then { r with state := .inQuotedField }
  else if c = ',' then { r.saveField with state := .startField }
  else r.add c .inField

def startRecord (r : Reader) (c : Char) : Reader := if ends c then r.endRecord c else r.startField c

def feed (r : Reader) (c : Char) : Reader :=
  match r.state with
  | .startRecord => r.startRecord c
  | .startField => r.startField c
  | .inField =>
    if ends c then r.saveField.endRecord c
    else if c = ',' then { r.saveField with state := .startField }
    else r.add c .inField
  | .inQuotedField => if c = '"' then { r with state := .quoteInQuotedField } else r.add c .inQuotedField
  | .quoteInQuotedField =>
    if c = '"' then r.add c .inQuotedField
    else if ends c then r.saveField.endRecord c
    else if c = ',' then { r.saveField with state := .startField }
    else r.add c .inField
  | .afterReturn =>
    let r := { r with state := .startRecord }
    if c = '\n' then r else r.startRecord c

def feedAll (r : Reader) (text : List Char) : Reader := text.foldl feed r

/-- A last record that no line's end ends is one too. -/
def finish (r : Reader) : List (List Field) :=
  match r.state with
  | .startRecord | .afterReturn => r.rows
  | _ => r.rows ++ [r.saveField.fields]

end Reader

def read (text : List Char) : List (List Field) := (Reader.feedAll {} text).finish

namespace Reader
variable {fields : List Field} {rows : List (List Field)} {field : Field}

theorem feedAll_append (r : Reader) (text text' : List Char) :
    r.feedAll (text ++ text') = (r.feedAll text).feedAll text' :=
  List.foldl_append

theorem feedAll_cons (r : Reader) (c : Char) (text : List Char) : r.feedAll (c :: text) = (r.feed c).feedAll text := rfl

theorem feedAll_doubled (text : List Char) : feedAll ⟨.inQuotedField, field, fields, rows⟩ (text.flatMap doubled) =
    ⟨.inQuotedField, field ++ text, fields, rows⟩ := by
  induction text generalizing field with
  | nil => rw [List.append_nil]; rfl
  | cons c text ih =>
    have hfeed : feedAll ⟨.inQuotedField, field, fields, rows⟩ (doubled c) =
        ⟨.inQuotedField, field ++ [c], fields, rows⟩ := by
      unfold doubled
      split_ifs with hc
      · subst hc
        rfl
      · simp [feedAll, feed, add, hc]
    rw [List.flatMap_cons, feedAll_append, hfeed, ih, List.append_assoc, List.singleton_append]

private theorem feedAll_plain {text : List Char} (h : text.any special = false) :
    feedAll ⟨.inField, field, fields, rows⟩ text = ⟨.inField, field ++ text, fields, rows⟩ := by
  induction text generalizing field with
  | nil => rw [List.append_nil]; rfl
  | cons c text ih =>
    rw [List.any_cons, Bool.or_eq_false_iff] at h
    have hfeed : feed ⟨.inField, field, fields, rows⟩ c = ⟨.inField, field ++ [c], fields, rows⟩ := by
      have hc := h.1
      simp only [special, Bool.or_eq_false_iff, decide_eq_false_iff_not] at hc
      simp [feed, ends, add, hc]
    rw [feedAll_cons, hfeed, ih h.2, List.append_assoc, List.singleton_append]

/-- Where a row has no field, or another one is to come. -/
def Opens (state : State) : Prop := state = .startRecord ∨ state = .startField

/-- The state in which a field as written is left. -/
@[grind =] def fieldState (state : State) (field : Field) : State :=
  if field.any special then .quoteInQuotedField else if field = [] then state else .inField

private theorem feed_open {state : State} (hstate : Opens state) (c : Char) (hc : special c = false) :
    feed ⟨state, [], fields, rows⟩ c = ⟨.inField, [c], fields, rows⟩ := by
  simp only [special, Bool.or_eq_false_iff, decide_eq_false_iff_not] at hc
  rcases hstate with rfl | rfl <;> simp [feed, startRecord, startField, ends, add, hc]

private theorem feed_quote {state : State} (hstate : Opens state) :
    feed ⟨state, [], fields, rows⟩ '"' = ⟨.inQuotedField, [], fields, rows⟩ := by
  rcases hstate with rfl | rfl <;> rfl

theorem feedAll_writeField {state : State} (hstate : Opens state) (field : Field) :
    feedAll ⟨state, [], fields, rows⟩ (writeField field) = ⟨fieldState state field, field, fields, rows⟩ := by
  unfold writeField fieldState
  split_ifs with hspecial hempty
  · rw [List.cons_append, feedAll_cons, feed_quote hstate, feedAll_append, feedAll_doubled]
    rfl
  · subst hempty
    rfl
  · obtain ⟨c, text, rfl⟩ := List.exists_cons_of_ne_nil hempty
    rw [Bool.not_eq_true, List.any_cons, Bool.or_eq_false_iff] at hspecial
    rw [feedAll_cons, feed_open hstate c hspecial.1, feedAll_plain hspecial.2]
    rfl

private theorem feed_comma {state : State} (hstate : Opens state) (field : Field) :
    feed ⟨fieldState state field, field, fields, rows⟩ ',' = ⟨.startField, [], fields ++ [field], rows⟩ := by
  unfold fieldState
  split_ifs with hspecial hempty
  · rfl
  · subst hempty
    rcases hstate with rfl | rfl <;> rfl
  · rfl

private theorem feedAll_lineEnd {state : State} (hstate : Opens state) (field : Field)
    (hblank : state = .startRecord → field ≠ []) :
    feedAll ⟨fieldState state field, field, fields, rows⟩ ['\r', '\n'] =
      ⟨.startRecord, [], [], rows ++ [fields ++ [field]]⟩ := by
  unfold fieldState
  split_ifs with hspecial hempty
  · rfl
  · subst hempty
    rcases hstate with rfl | rfl
    · exact absurd rfl (hblank rfl)
    · rfl
  · rfl

private theorem feedAll_writeFields {state : State} (hstate : Opens state) {row : List Field} (hrow : row ≠ [])
    (hblank : state = .startRecord → row ≠ [[]]) : feedAll ⟨state, [], fields, rows⟩ (writeFields row ++ ['\r', '\n']) =
      ⟨.startRecord, [], [], rows ++ [fields ++ row]⟩ := by
  induction row generalizing state fields with
  | nil => exact absurd rfl hrow
  | cons field row ih =>
    cases row with
    | nil =>
      rw [writeFields, feedAll_append, feedAll_writeField hstate, feedAll_lineEnd hstate]
      exact fun hstart hempty => hblank hstart (by rw [hempty])
    | cons next row =>
      have hwrite : writeFields (field :: next :: row) = writeField field ++ ',' :: writeFields (next :: row) := rfl
      rw [hwrite, List.append_assoc, feedAll_append, feedAll_writeField hstate, List.cons_append, feedAll_cons,
        feed_comma hstate, ih (.inr rfl) (List.cons_ne_nil _ _) nofun, List.append_assoc, List.singleton_append]

private theorem feedAll_writeRow (row : List Field) : feedAll ⟨.startRecord, [], [], rows⟩ (writeRow row) =
    ⟨.startRecord, [], [], rows ++ [row]⟩ := by
  unfold writeRow
  split_ifs with hblank
  · subst hblank
    rfl
  · cases row with
    | nil => rfl
    | cons field row => exact feedAll_writeFields (.inl rfl) (List.cons_ne_nil _ _) fun _ => hblank

private theorem feedAll_write (written : List (List Field)) : feedAll ⟨.startRecord, [], [], rows⟩ (write written) =
    ⟨.startRecord, [], [], rows ++ written⟩ := by
  induction written generalizing rows with
  | nil => rw [List.append_nil]; rfl
  | cons row written ih =>
    rw [write, List.flatMap_cons, feedAll_append, feedAll_writeRow]
    exact ih.trans (by rw [List.append_assoc, List.singleton_append])

end Reader

/-- What is written is read, whatever the fields hold. -/
theorem read_write (rows : List (List Field)) : read (write rows) = rows := by
  unfold read
  rw [Reader.feedAll_write, List.nil_append]
  rfl

end Kanat.CommaSeparated
