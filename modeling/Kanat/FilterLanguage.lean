import Mathlib.Data.List.Forall2
import Mathlib.Data.Nat.Notation

/-! # Capture filters

A filter of hosts, ports and protocols under `and`, `or` and parentheses: the two have equal precedence and
associate to the left. -/
namespace Kanat.FilterLanguage

inductive Token where
  | lparen | rparen | and | or | host | port
  | word (text : List Char)
deriving DecidableEq, Repr

def classify (text : List Char) : Token :=
  if text = ['a', 'n', 'd'] then .and
  else if text = ['o', 'r'] then .or
  else if text = ['h', 'o', 's', 't'] then .host
  else if text = ['p', 'o', 'r', 't'] then .port
  else .word text

/-- The token of the characters gathered so far, if any. -/
def flush (text : List Char) : List Token := if text = [] then [] else [classify text]

/-- The tokens of a text, where `text` is gathered already. -/
def lexFrom (text : List Char) : List Char → List Token
  | [] => flush text
  | c :: cs =>
    if c = ' ' then flush text ++ lexFrom [] cs
    else if c = '(' then flush text ++ .lparen :: lexFrom [] cs
    else if c = ')' then flush text ++ .rparen :: lexFrom [] cs
    else lexFrom (text ++ [c]) cs

def lex (cs : List Char) : List Token := lexFrom [] cs

/-- What a packet says of each primitive. -/
structure Answers where
  protocol : List Char → Bool
  host : List Char → Bool
  port : List Char → Bool

inductive Connective where
  | and | or

def Connective.token : Connective → Token
  | .and => .and
  | .or => .or

def Connective.text : Connective → List Char
  | .and => ['a', 'n', 'd']
  | .or => ['o', 'r']

/-- A connective between two blanks. -/
def Connective.separator (c : Connective) : List Char := ' ' :: (c.text ++ [' '])

def Connective.join : Connective → Bool → Bool → Bool
  | .and, a, b => a && b
  | .or, a, b => a || b

/-- How far the expression between two parentheses has been read. -/
inductive Level where
  | start
  | term (value : Bool)
  | joined (value : Bool) (c : Connective)

def Level.read : Level → Bool → Option Level
  | .start, b => some (.term b)
  | .joined a c, b => some (.term (c.join a b))
  | .term _, _ => none

/-- The value of a filter's tokens, or `none` if they are no filter. -/
@[grind =] def eval (m : Answers) : List Token → List Level → Option Bool
  | [], [.term b] => some b
  | .lparen :: ts, levels => eval m ts (.start :: levels)
  | .rparen :: ts, .term b :: level :: levels => (level.read b).bind fun level => eval m ts (level :: levels)
  | .and :: ts, .term b :: levels => eval m ts (.joined b .and :: levels)
  | .or :: ts, .term b :: levels => eval m ts (.joined b .or :: levels)
  | .host :: .word w :: ts, level :: levels => (level.read (m.host w)).bind fun level => eval m ts (level :: levels)
  | .port :: .word w :: ts, level :: levels => (level.read (m.port w)).bind fun level => eval m ts (level :: levels)
  | .word p :: .port :: .word w :: ts, level :: levels =>
    (level.read (m.protocol p && m.port w)).bind fun level => eval m ts (level :: levels)
  | .word p :: ts, level :: levels => (level.read (m.protocol p)).bind fun level => eval m ts (level :: levels)
  | _, _ => none

/-- Whether a packet passes a filter; every packet passes an empty one. -/
def passes (m : Answers) (filter : List Char) : Bool :=
  lex filter = [] || eval m (lex filter) [.start] = some true

theorem lexFrom_blank (text cs ds : List Char) : lexFrom text (cs ++ ' ' :: ds) = lexFrom text cs ++ lex ds := by
  induction cs generalizing text with
  | nil => simp [lexFrom, lex]
  | cons c cs ih =>
    rw [List.cons_append, lexFrom, lexFrom]
    simp only [ih]
    split_ifs <;> simp

private theorem lexFrom_rparen (text cs : List Char) : lexFrom text (cs ++ [')']) = lexFrom text cs ++ [.rparen] := by
  induction cs generalizing text with
  | nil => simp [lexFrom, flush]
  | cons c cs ih =>
    rw [List.cons_append, lexFrom, lexFrom]
    simp only [ih]
    split_ifs <;> simp

theorem lex_blank (cs ds : List Char) : lex (cs ++ ' ' :: ds) = lex cs ++ lex ds := lexFrom_blank [] cs ds

private theorem lex_paren (cs : List Char) : lex ('(' :: (cs ++ [')'])) = .lparen :: (lex cs ++ [.rparen]) :=
  congrArg (Token.lparen :: ·) (lexFrom_rparen [] cs)

/-- Characters that are gathered into one token. -/
def Plain (text : List Char) : Prop := ∀ c ∈ text, c ≠ ' ' ∧ c ≠ '(' ∧ c ≠ ')'

theorem lexFrom_plain {cs : List Char} (h : Plain cs) (text : List Char) : lexFrom text cs = flush (text ++ cs) := by
  induction cs generalizing text with
  | nil => rw [List.append_nil, lexFrom]
  | cons c cs ih =>
    obtain ⟨hblank, hl, hr⟩ := h c List.mem_cons_self
    rw [lexFrom, if_neg hblank, if_neg hl, if_neg hr, ih fun d hd => h d (List.mem_cons_of_mem c hd)]
    simp

/-- One word that is no keyword. -/
def IsWord (text : List Char) : Prop := lex text = [.word text]

instance (text : List Char) : Decidable (IsWord text) := inferInstanceAs (Decidable (_ = _))

theorem isWord_of_digits {text : List Char} (hdigit : ∀ c ∈ text, c.isDigit = true) (hne : text ≠ []) :
    IsWord text := by
  have hplain : Plain text := by
    intro c hc
    refine ⟨?_, ?_, ?_⟩ <;>
    · rintro rfl
      exact absurd (hdigit _ hc) (by decide)
  have hword : classify text = .word text := by
    have hletter (c : Char) (hc : c.isDigit = false) (cs : List Char) : text ≠ c :: cs := by
      rintro rfl
      exact absurd (hdigit c List.mem_cons_self) (by simp [hc])
    rw [classify, if_neg (hletter _ rfl _), if_neg (hletter _ rfl _), if_neg (hletter _ rfl _),
      if_neg (hletter _ rfl _)]
  rw [IsWord, lex, lexFrom_plain hplain, flush, List.nil_append, if_neg hne, hword]

private theorem lex_connective (c : Connective) : lex c.text = [c.token] := by cases c <;> rfl

/-- Filters put side by side with a connective between them. -/
theorem lex_intercalate (c : Connective) (filters : List (List Char)) :
    lex (List.intercalate c.separator filters) = List.intercalate [c.token] (filters.map lex) := by
  induction filters with
  | nil => rfl
  | cons f fs ih =>
    cases fs with
    | nil => simp
    | cons g gs =>
      rw [List.intercalate_cons_cons, List.map_cons, List.map_cons, List.intercalate_cons_cons, ← List.map_cons, ← ih]
      rw [show f ++ c.separator ++ List.intercalate c.separator (g :: gs) =
        f ++ ' ' :: (c.text ++ ' ' :: List.intercalate c.separator (g :: gs)) by simp [Connective.separator]]
      rw [lex_blank, lex_blank, lex_connective, List.append_assoc]

section
variable {m : Answers}

/-- Tokens read as one term, wherever they stand. -/
def Reads (m : Answers) (ts : List Token) (b : Bool) : Prop :=
  ∀ rest level levels, rest.head? ≠ some .port →
    eval m (ts ++ rest) (level :: levels) = (level.read b).bind fun level => eval m rest (level :: levels)

theorem reads_host (w : List Char) : Reads m [.host, .word w] (m.host w) := fun _ _ _ _ => rfl

theorem reads_port (w : List Char) : Reads m [.port, .word w] (m.port w) := fun _ _ _ _ => rfl

theorem reads_protocol_port (p w : List Char) :
    Reads m [.word p, .port, .word w] (m.protocol p && m.port w) := fun _ _ _ _ => rfl

theorem reads_protocol (p : List Char) : Reads m [.word p] (m.protocol p) := by
  intro rest level levels hrest
  cases rest with
  | nil => rfl
  | cons t ts =>
    cases t with
    | port => exact absurd rfl hrest
    | _ => rfl

/-- A filter between parentheses is read as one term. -/
def Yields (m : Answers) (ts : List Token) (b : Bool) : Prop :=
  ∀ rest levels, rest.head? ≠ some .port →
    eval m (ts ++ rest) (.start :: levels) = eval m rest (.term b :: levels)

theorem Reads.yields {ts : List Token} {b : Bool} (h : Reads m ts b) : Yields m ts b :=
  fun rest levels hrest => h rest .start levels hrest

theorem Yields.reads_paren {ts : List Token} {b : Bool} (h : Yields m ts b) :
    Reads m (.lparen :: (ts ++ [.rparen])) b := by
  intro rest level levels _
  have hrparen : (Token.rparen :: rest).head? ≠ some .port := by simp
  have heval := h (.rparen :: rest) (level :: levels) hrparen
  rw [List.cons_append, List.append_assoc]
  exact heval

private theorem eval_connective (c : Connective) (b : Bool) (ts : List Token) (levels : List Level) :
    eval m (c.token :: ts) (.term b :: levels) = eval m ts (.joined b c :: levels) := by
  cases c <;> rfl

theorem Connective.head_ne_port (c : Connective) (ts : List Token) : (c.token :: ts).head? ≠ some .port := by
  cases c <;> simp [Connective.token]

theorem Yields.join {ts us : List Token} {b v : Bool} (h : Yields m ts b) (c : Connective) (hu : Reads m us v) :
    Yields m (ts ++ c.token :: us) (c.join b v) := by
  intro rest levels hrest
  rw [List.append_assoc, List.cons_append, h _ _ (c.head_ne_port _), eval_connective, hu _ _ _ hrest]
  rfl

private theorem intercalate_append_cons {α : Type} (sep a t : List α) (ts : List (List α)) :
    List.intercalate sep ((a ++ t) :: ts) = a ++ List.intercalate sep (t :: ts) := by
  cases ts with
  | nil => simp
  | cons u us => simp only [List.intercalate_cons_cons, List.append_assoc]

/-- Terms joined by one connective. -/
theorem yields_intercalate (c : Connective) {terms : List (List Token)} {values : List Bool} {b : Bool}
    {term : List Token} (hterm : Yields m term b) (hterms : List.Forall₂ (Reads m) terms values) :
    Yields m (List.intercalate [c.token] (term :: terms)) (values.foldl c.join b) := by
  induction hterms generalizing term b with
  | nil => simpa using hterm
  | @cons t v ts vs ht _ ih =>
    have hjoined := ih (hterm.join c ht)
    rw [show term ++ c.token :: t = (term ++ [c.token]) ++ t by simp, intercalate_append_cons] at hjoined
    rwa [List.intercalate_cons_cons, List.foldl_cons]

theorem foldl_or (values : List Bool) (b : Bool) : values.foldl Connective.or.join b = (b || values.any id) := by
  induction values generalizing b with
  | nil => simp
  | cons v vs ih => rw [List.foldl_cons, ih, List.any_cons, ← Bool.or_assoc]; rfl

theorem foldl_and (values : List Bool) (b : Bool) : values.foldl Connective.and.join b = (b && values.all id) := by
  induction values generalizing b with
  | nil => simp
  | cons v vs ih => rw [List.foldl_cons, ih, List.all_cons, ← Bool.and_assoc]; rfl

/-- Filters put side by side, each a term of its own. -/
theorem yields_lex_intercalate (c : Connective) {first : List Char} {filters : List (List Char)} {b : Bool}
    {values : List Bool} (hfirst : Reads m (lex first) b)
    (hfilters : List.Forall₂ (fun f v => Reads m (lex f) v) filters values) :
    Yields m (lex (List.intercalate c.separator (first :: filters))) (values.foldl c.join b) := by
  rw [lex_intercalate c, List.map_cons]
  exact yields_intercalate c hfirst.yields (List.forall₂_map_left_iff.mpr hfilters)

theorem Yields.ne_nil {ts : List Token} {b : Bool} (h : Yields m ts b) : ts ≠ [] := by
  rintro rfl
  have hnone : none = some b := h [] [] (by simp)
  exact absurd hnone (Option.some_ne_none b).symm

/-- What a whole filter says. -/
theorem passes_of_yields {filter : List Char} {b : Bool} (h : Yields m (lex filter) b) : passes m filter = b := by
  have heval := h [] [] (by simp)
  rw [List.append_nil] at heval
  simp [passes, h.ne_nil, heval, eval]

/-- A packet passes filters joined by `and` where it passes each; of no filter at all, it does. -/
theorem passes_and {filters : List (List Char)} {values : List Bool}
    (h : List.Forall₂ (fun f v => Reads m (lex f) v) filters values) :
    passes m (List.intercalate Connective.and.separator filters) = values.all id := by
  cases h with
  | nil => rfl
  | cons hfirst hfilters =>
    rw [List.all_cons, id, ← foldl_and]
    exact passes_of_yields (yields_lex_intercalate .and hfirst hfilters)

/-- Filters joined by `or` and put between parentheses are a term. -/
theorem reads_or {first : List Char} {filters : List (List Char)} {b : Bool} {values : List Bool}
    (hfirst : Reads m (lex first) b) (hfilters : List.Forall₂ (fun f v => Reads m (lex f) v) filters values) :
    Reads m (lex ('(' :: (List.intercalate Connective.or.separator (first :: filters) ++ [')']))) (b || values.any id) := by
  rw [lex_paren, ← foldl_or]
  exact (yields_lex_intercalate .or hfirst hfilters).reads_paren

end

end Kanat.FilterLanguage
