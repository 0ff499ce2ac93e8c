import Kanat.PlainTexts
import Kanat.Regexps

/-! # The texts of regular expressions

How Python's `re` and Go's `regexp` read a pattern. Of either syntax only the escapes of letters and digits other than
`\d` and `\w`, and the groups that begin with `(?` and not `(?:`, are beyond what is read here. -/
namespace Kanat.RegexpTexts
open PlainTexts Regexps

/-- A character, or a backslash and the one it escapes. -/
inductive Sym where
  | plain (c : Char)
  | escaped (c : Char)
  deriving DecidableEq

inductive Refusal where
  | malformed
  | beyond
  deriving DecidableEq

def syms : List Char → Option (List Sym)
  | [] => some []
  | '\\' :: c :: text => (syms text).map (.escaped c :: ·)
  | ['\\'] => none
  | c :: text => (syms text).map (.plain c :: ·)

def text : List Sym → List Char
  | [] => []
  | .plain c :: rest => c :: text rest
  | .escaped c :: rest => '\\' :: c :: text rest

/-- The digits of `{min}` or of `{min,max}`. -/
structure Count where
  min : List Char
  max : Option (List Char)
  deriving DecidableEq

inductive Token where
  | set (s : CharSet)
  | caret
  | dollar
  | bar
  | opening
  | closing
  | star
  | plus
  | question
  | braces (count : Count)
  deriving DecidableEq

/-- A class's member: a character, which may begin or end a range, or a set. -/
inductive Member where
  | char (c : Char)
  | perl (p : Perl)
  deriving DecidableEq

def Member.item : Member → ClassItem
  | char c => .range c c
  | perl p => .perl p

/-- Where in a class a reader stands: after a `-` it may be in a range. -/
inductive Place where
  | first
  | next
  | after (m : Member)
  | range (m : Member)
  deriving DecidableEq

/-- `ahead` symbols are already read. -/
inductive Mode where
  | top (ahead : ℕ)
  | opened
  | within (negated : Bool) (items : List ClassItem) (place : Place) (ahead : ℕ)
  deriving DecidableEq

def perl : Char → Option Perl
  | 'd' => some .digit
  | 'D' => some .nonDigit
  | 'w' => some .word
  | 'W' => some .nonWord
  | _ => none

def digits (digit : Char → Bool) : List Sym → List Char
  | .plain c :: rest => if digit c then c :: digits digit rest else []
  | _ => []

/-- A count's digits, and how many symbols it is, to its closing brace. -/
def braces (digit : Char → Bool) (rest : List Sym) : Option (Count × ℕ) :=
  let min := digits digit rest
  match rest.drop min.length with
  | .plain '}' :: _ => some (⟨min, none⟩, min.length + 1)
  | .plain ',' :: rest =>
    let max := digits digit rest
    match rest.drop max.length with
    | .plain '}' :: _ => some (⟨min, some max⟩, min.length + max.length + 2)
    | _ => none
  | _ => none

/-- What a language reads its own way: `head` begins a class's next member. -/
structure Reader where
  member : Sym → Except Refusal Member
  count : List Sym → Option (Count × ℕ)
  head : List ClassItem → Sym → List Sym → Except Refusal (List ClassItem × Place × ℕ)

def token : Char → Token
  | '.' => .set .any
  | '^' => .caret
  | '$' => .dollar
  | '|' => .bar
  | ')' => .closing
  | '*' => .star
  | '+' => .plus
  | '?' => .question
  | c => .set (.literal c)

namespace Reader

def outside (r : Reader) (s : Sym) (rest : List Sym) : Except Refusal (List Token × Mode) :=
  match s with
  | .escaped _ => (r.member s).map fun m => ([.set ⟨false, [m.item]⟩], .top 0)
  | .plain '[' => .ok ([], .opened)
  | .plain '(' =>
    match rest with
    | .plain '?' :: .plain ':' :: _ => .ok ([.opening], .top 2)
    | .plain '?' :: _ => .error .beyond
    | _ => .ok ([.opening], .top 0)
  | .plain '{' =>
    match r.count rest with
    | some (count, n) => .ok ([.braces count], .top n)
    | none => .ok ([.set (.literal '{')], .top 0)
  | .plain c => .ok ([token c], .top 0)

/-- The class's items so far, and where the reader stands if it has not ended. -/
def inside (r : Reader) (items : List ClassItem) (place : Place) (s : Sym) (rest : List Sym) :
    Except Refusal (List ClassItem × Option (Place × ℕ)) :=
  let head items := (r.head items s rest).map fun (items, place) => (items, some place)
  match place with
  | .first => head items
  | .next => if s = .plain ']' then .ok (items, none) else head items
  | .after m =>
    if s = .plain '-' then .ok (items, some (.range m, 0))
    else if s = .plain ']' then .ok (items ++ [m.item], none)
    else head (items ++ [m.item])
  | .range m =>
    if s = .plain ']' then .ok (items ++ [m.item, .range '-' '-'], none)
    else
      match r.member s with
      | .error refusal => .error refusal
      | .ok m' =>
        match m, m' with
        | .char lo, .char hi =>
          if lo ≤ hi then .ok (items ++ [.range lo hi], some (.next, 0)) else .error .malformed
        | _, _ => .error .malformed

def within (r : Reader) (negated : Bool) (items : List ClassItem) (place : Place) (s : Sym) (rest : List Sym) :
    Except Refusal (List Token × Mode) :=
  (r.inside items place s rest).map fun
    | (items, none) => ([.set ⟨negated, items⟩], .top 0)
    | (items, some (place, ahead)) => ([], .within negated items place ahead)

def step (r : Reader) : Mode → Sym → List Sym → Except Refusal (List Token × Mode)
  | .top (n + 1), _, _ => .ok ([], .top n)
  | .top 0, s, rest => r.outside s rest
  | .opened, s, rest => if s = .plain '^' then .ok ([], .within true [] .first 0) else r.within false [] .first s rest
  | .within negated items place (n + 1), _, _ => .ok ([], .within negated items place n)
  | .within negated items place 0, s, rest => r.within negated items place s rest

def run (r : Reader) : Mode → List Sym → Except Refusal (List Token)
  | mode, [] => if mode = .top 0 then .ok [] else .error .malformed
  | mode, s :: rest =>
    match r.step mode s rest with
    | .error refusal => .error refusal
    | .ok (tokens, mode) => (r.run mode rest).map (tokens ++ ·)

end Reader

namespace Python

def member : Sym → Except Refusal Member
  | .plain c => .ok (.char c)
  | .escaped c =>
    match perl c with
    | some p => .ok (.perl p)
    | none => if c.isAlphanum then .error .beyond else .ok (.char c)

def count (rest : List Sym) : Option (Count × ℕ) := (braces Char.isDigit rest).filter (·.1 ≠ ⟨[], none⟩)

def head (items : List ClassItem) (s : Sym) (_ : List Sym) : Except Refusal (List ClassItem × Place × ℕ) :=
  (member s).map fun m => (items, .after m, 0)

end Python

def pythonReader : Reader := ⟨Python.member, Python.count, Python.head⟩

namespace Go

def member : Sym → Except Refusal Member
  | .plain c => .ok (.char c)
  | .escaped c =>
    match perl c with
    | some p => .ok (.perl p)
    | none =>
      if c.isAlphanum then .error .beyond else if c.toNat < 128 then .ok (.char c) else .error .malformed

/-- No digits with a zero before others. -/
def plainNumber (l : List Char) : Bool := !(1 < l.length && l.head? = some '0')

def count (rest : List Sym) : Option (Count × ℕ) :=
  (braces Char.isDigit rest).filter fun (count, _) =>
    count.min ≠ [] && plainNumber count.min && count.max.all plainNumber

/-- The text before the first `:]`. -/
def closed : List Char → Option (List Char)
  | [] => none
  | ':' :: ']' :: _ => some []
  | c :: l => (closed l).map (c :: ·)

def posixNames : List (String × Posix) :=
  [("alnum", .alnum), ("alpha", .alpha), ("ascii", .ascii), ("blank", .blank), ("cntrl", .cntrl), ("digit", .digit),
    ("graph", .graph), ("lower", .lower), ("print", .print), ("punct", .punct), ("space", .space), ("upper", .upper),
    ("word", .word), ("xdigit", .xdigit)]

def posix (name : List Char) : Option ClassItem :=
  match name with
  | '^' :: name => (posixNames.find? (·.1.toList = name)).map fun entry => .posix true entry.2
  | name => (posixNames.find? (·.1.toList = name)).map fun entry => .posix false entry.2

/-- A class's name: what follows `[:`, to the first `:]` anywhere. -/
def named (s : Sym) (rest : List Sym) : Option (List Char) :=
  match s, rest with
  | .plain '[', .plain ':' :: rest => closed (text rest)
  | _, _ => none

def head (items : List ClassItem) (s : Sym) (rest : List Sym) : Except Refusal (List ClassItem × Place × ℕ) :=
  match named s rest with
  | some name =>
    match posix name with
    | some item => .ok (items ++ [item], .next, name.length + 3)
    | none => .error .malformed
  | none =>
    (member s).map fun
      | .perl p => (items ++ [.perl p], .next, 0)
      | .char c => (items, .after (.char c), 0)

end Go

def goReader : Reader := ⟨Go.member, Go.count, Go.head⟩

/-- What stands before a repetition's sign. -/
inductive Item where
  | single (r : Regexp)
  | anchor (r : Regexp)
  | repeated (min : ℕ) (max : Option ℕ) (r : Regexp)
  | settled (r : Regexp)
  deriving DecidableEq

def Item.regexp : Item → Regexp
  | single r | anchor r | settled r => r
  | repeated min max r => .many .greedy min max r

/-- A group being read: its earlier branches and the branch's items, the latest first. -/
structure Group where
  branches : List Regexp
  items : List Item
  deriving DecidableEq

def branch (items : List Item) : Regexp := items.foldl (fun r item => .seq item.regexp r) .empty

def Group.regexp (g : Group) : Regexp := g.branches.foldl (fun r branch => .alt branch r) (branch g.items)

def Group.push (g : Group) (item : Item) : Group := { g with items := item :: g.items }

/-- A language's rules for repetitions. -/
structure Rules where
  anchors : Bool
  possessive : Bool
  limit : ℕ

def Count.least (c : Count) : ℕ := valueOf c.min

def Count.most (c : Count) : Option ℕ :=
  match c.max with
  | none => some c.least
  | some [] => none
  | some max => some (valueOf max)

def Count.allowed (c : Count) (limit : ℕ) : Bool :=
  c.least ≤ limit && c.most.all fun most => most ≤ limit && c.least ≤ most

namespace Rules

def quantify (rules : Rules) (min : ℕ) (max : Option ℕ) (g : Group) : Option Group :=
  match g.items with
  | .single r :: items => some { g with items := .repeated min max r :: items }
  | .anchor r :: items => if rules.anchors then some { g with items := .repeated min max r :: items } else none
  | .repeated .. :: _ | .settled _ :: _ | [] => none

/-- A group and those around it, after a token. -/
def step (rules : Rules) (g : Group) (around : List Group) : Token → Option (Group × List Group)
  | .set s => some (g.push (.single (.set s)), around)
  | .caret => some (g.push (.anchor .caret), around)
  | .dollar => some (g.push (.anchor .dollar), around)
  | .bar => some (⟨branch g.items :: g.branches, []⟩, around)
  | .opening => some (⟨[], []⟩, g :: around)
  | .closing =>
    match around with
    | [] => none
    | outer :: around => some (outer.push (.single g.regexp), around)
  | .star => (rules.quantify 0 none g).map (·, around)
  | .plus =>
    match g.items with
    | .repeated min max r :: items =>
      if rules.possessive then some ({ g with items := .settled (.many .possessive min max r) :: items }, around)
      else none
    | _ => (rules.quantify 1 none g).map (·, around)
  | .question =>
    match g.items with
    | .repeated min max r :: items => some ({ g with items := .settled (.many .lazy min max r) :: items }, around)
    | _ => (rules.quantify 0 (some 1) g).map (·, around)
  | .braces count => if count.allowed rules.limit then (rules.quantify count.least count.most g).map (·, around) else none

def parse (rules : Rules) (g : Group) (around : List Group) : List Token → Option Regexp
  | [] => if around = [] then some g.regexp else none
  | token :: tokens => (rules.step g around token).bind fun (g, around) => rules.parse g around tokens

end Rules

structure Language where
  reader : Reader
  rules : Rules

def python : Language := ⟨pythonReader, ⟨false, true, 4294967294⟩⟩

def go : Language := ⟨goReader, ⟨true, false, 1000⟩⟩

namespace Language

def tokens (l : Language) (pattern : List Char) : Except Refusal (List Token) :=
  match syms pattern with
  | none => .error .malformed
  | some ss => l.reader.run (.top 0) ss

def compile (l : Language) (pattern : List Char) : Except Refusal Regexp :=
  match l.tokens pattern with
  | .error refusal => .error refusal
  | .ok tokens =>
    match l.rules.parse ⟨[], []⟩ [] tokens with
    | none => .error .malformed
    | some r => .ok r

end Language

variable {g g' : Group} {around : List Group} {ts : List Token} {t : Token} {r r' : Regexp} {items : List Item}
  {p p' : Group × List Group} {min : ℕ} {max : Option ℕ} {rules : Rules}

theorem quantify_cases (h : rules.quantify min max g = some g') : ∃ item items, g.items = item :: items ∧
    (item = .single item.regexp ∨ item = .anchor item.regexp ∧ rules.anchors = true) ∧
    g' = { g with items := .repeated min max item.regexp :: items } := by
  unfold Rules.quantify at h
  split at h
  next r items hi => exact ⟨.single r, items, hi, .inl rfl, (Option.some.inj h).symm⟩
  next r items hi =>
    split at h
    next ha => exact ⟨.anchor r, items, hi, .inr ⟨rfl, ha⟩, (Option.some.inj h).symm⟩
    next => cases h
  all_goals cases h

/-- Python repeats what Go does, less the anchors. -/
theorem quantify_python (h : python.rules.quantify min max g = some g') : go.rules.quantify min max g = some g' := by
  obtain ⟨item, items, hi, hs | ⟨-, ha⟩, rfl⟩ := quantify_cases h
  · rw [Rules.quantify, hi, hs]
    rfl
  · cases ha

theorem step_agree (hp : python.rules.step g around t = some p) (hg : go.rules.step g around t = some p') : p = p' := by
  have hq : ∀ min max, (python.rules.quantify min max g).map (·, around) = some p →
      (go.rules.quantify min max g).map (·, around) = some p' → p = p' := by
    intro min max hp hg
    obtain ⟨g', hq, rfl⟩ := Option.map_eq_some_iff.mp hp
    rw [quantify_python hq] at hg
    exact Option.some.inj hg
  cases t with
  | star => exact hq _ _ hp hg
  | plus =>
    simp only [Rules.step] at hp hg
    split at hp
    next hi =>
      rw [hi] at hg
      cases hg
    next hi =>
      split at hg
      next hi' => exact absurd hi' (hi _ _ _ _)
      next => exact hq _ _ hp hg
  | question =>
    simp only [Rules.step] at hp hg
    split at hp
    next hi =>
      rw [hi] at hg
      exact Option.some.inj (hp.symm.trans hg)
    next hi =>
      split at hg
      next hi' => exact absurd hi' (hi _ _ _ _)
      next => exact hq _ _ hp hg
  | braces count =>
    simp only [Rules.step] at hp hg
    split at hp
    next =>
      split at hg
      next => exact hq _ _ hp hg
      next => cases hg
    next => cases hp
  | closing =>
    simp only [Rules.step] at hp hg
    exact Option.some.inj (hp.symm.trans hg)
  | _ => exact Option.some.inj (hp.symm.trans hg)

/-- One text's tokens, read by both, are one expression. -/
theorem parse_agree (hp : python.rules.parse g around ts = some r) (hg : go.rules.parse g around ts = some r') :
    r = r' := by
  induction ts generalizing g around with
  | nil => exact Option.some.inj (hp.symm.trans hg)
  | cons t ts ih =>
    obtain ⟨p, hp, hr⟩ := Option.bind_eq_some_iff.mp hp
    obtain ⟨p', hg, hr'⟩ := Option.bind_eq_some_iff.mp hg
    obtain rfl := step_agree hp hg
    exact ih hr hr'

def Group.Proper (g : Group) : Prop := (∀ b ∈ g.branches, b.proper = true) ∧ ∀ item ∈ g.items, item.regexp.proper = true

theorem proper_branch (h : ∀ item ∈ items, item.regexp.proper = true) : (branch items).proper = true := by
  have hfold : ∀ r : Regexp, r.proper = true →
      (items.foldl (fun r item => .seq item.regexp r) r).proper = true := by
    induction items with
    | nil => exact fun _ hr => hr
    | cons item items ih =>
      intro r hr
      exact ih (fun i hi => h i (List.mem_cons_of_mem _ hi)) _
        (Bool.and_eq_true_iff.mpr ⟨h item List.mem_cons_self, hr⟩)
  exact hfold _ rfl

theorem Group.Proper.regexp (h : g.Proper) : g.regexp.proper = true := by
  obtain ⟨branches, items⟩ := g
  obtain ⟨hb, hi⟩ := h
  have hfold : ∀ r : Regexp, r.proper = true → (branches.foldl (fun r branch => .alt branch r) r).proper = true := by
    clear hi
    induction branches with
    | nil => exact fun _ hr => hr
    | cons b branches ih =>
      intro r hr
      exact ih (fun c hc => hb c (List.mem_cons_of_mem _ hc)) _
        (Bool.and_eq_true_iff.mpr ⟨hb b List.mem_cons_self, hr⟩)
  exact hfold _ (proper_branch hi)

theorem Group.Proper.push (h : g.Proper) {item : Item} (hi : item.regexp.proper = true) : (g.push item).Proper :=
  ⟨h.1, List.forall_mem_cons.mpr ⟨hi, h.2⟩⟩

theorem Group.Proper.quantify (h : g.Proper) (hm : ∀ most, max = some most → min ≤ most)
    (hq : rules.quantify min max g = some g') : g'.Proper := by
  obtain ⟨item, items, hi, -, rfl⟩ := quantify_cases hq
  have hall := h.2
  rw [hi] at hall
  obtain ⟨hitem, hitems⟩ := List.forall_mem_cons.mp hall
  exact ⟨h.1, List.forall_mem_cons.mpr ⟨proper_many.mpr ⟨by decide, hm, hitem⟩, hitems⟩⟩

theorem Count.least_le (c : Count) {limit : ℕ} (h : c.allowed limit = true) {most : ℕ} (hm : c.most = some most) :
    c.least ≤ most := by
  simp only [Count.allowed, hm, Option.all_some, Bool.and_eq_true, decide_eq_true_eq] at h
  exact h.2.2

/-- A language without the possessive reads none into a group. -/
theorem Group.Proper.step (hr : rules.possessive = false) (hg : g.Proper) (ha : ∀ outer ∈ around, outer.Proper)
    (hs : rules.step g around t = some p) : p.1.Proper ∧ ∀ outer ∈ p.2, outer.Proper := by
  have hq : ∀ min max, (∀ most, max = some most → min ≤ most) →
      (rules.quantify min max g).map (·, around) = some p → p.1.Proper ∧ ∀ outer ∈ p.2, outer.Proper := by
    intro min max hm h
    obtain ⟨g', hq, rfl⟩ := Option.map_eq_some_iff.mp h
    exact ⟨hg.quantify hm hq, ha⟩
  cases t with
  | set s =>
    obtain rfl := Option.some.inj hs
    exact ⟨hg.push rfl, ha⟩
  | caret =>
    obtain rfl := Option.some.inj hs
    exact ⟨hg.push rfl, ha⟩
  | dollar =>
    obtain rfl := Option.some.inj hs
    exact ⟨hg.push rfl, ha⟩
  | bar =>
    obtain rfl := Option.some.inj hs
    exact ⟨⟨List.forall_mem_cons.mpr ⟨proper_branch hg.2, hg.1⟩, by simp⟩, ha⟩
  | opening =>
    obtain rfl := Option.some.inj hs
    exact ⟨⟨by simp, by simp⟩, List.forall_mem_cons.mpr ⟨hg, ha⟩⟩
  | closing =>
    cases around with
    | nil => cases hs
    | cons outer around =>
      obtain rfl := Option.some.inj hs
      obtain ⟨ho, ha⟩ := List.forall_mem_cons.mp ha
      exact ⟨ho.push hg.regexp, ha⟩
  | star => exact hq 0 none (by simp) hs
  | plus =>
    simp only [Rules.step, hr] at hs
    split at hs
    next => cases hs
    next => exact hq 1 none (by simp) hs
  | question =>
    simp only [Rules.step] at hs
    split at hs
    next min max r items hi =>
      obtain rfl := Option.some.inj hs
      have hall := hg.2
      rw [hi] at hall
      obtain ⟨hitem, hitems⟩ := List.forall_mem_cons.mp hall
      obtain ⟨-, hm, hr⟩ := proper_many.mp hitem
      exact ⟨⟨hg.1, List.forall_mem_cons.mpr ⟨proper_many.mpr ⟨by decide, hm, hr⟩, hitems⟩⟩, ha⟩
    next => exact hq 0 (some 1) (by simp) hs
  | braces count =>
    simp only [Rules.step] at hs
    split at hs
    next hc => exact hq _ _ (fun _ => count.least_le hc) hs
    next => cases hs

private theorem proper_parse (hr : rules.possessive = false) (hg : g.Proper) (ha : ∀ outer ∈ around, outer.Proper)
    (hs : rules.parse g around ts = some r) : r.proper = true := by
  induction ts generalizing g around with
  | nil =>
    simp only [Rules.parse] at hs
    split at hs
    · rw [← Option.some.inj hs]
      exact hg.regexp
    · cases hs
  | cons t ts ih =>
    obtain ⟨p, hp, hs⟩ := Option.bind_eq_some_iff.mp hs
    obtain ⟨hg, ha⟩ := Group.Proper.step hr hg ha hp
    exact ih hg ha hs

/-- What a language's compiler gives, from its tokens. -/
theorem compile_eq_ok {l : Language} {pattern : List Char} (h : l.compile pattern = .ok r) :
    ∃ ts, l.tokens pattern = .ok ts ∧ l.rules.parse ⟨[], []⟩ [] ts = some r := by
  unfold Language.compile at h
  split at h
  next => cases h
  next ts hts =>
    split at h
    next => cases h
    next r' hr =>
      cases h
      exact ⟨ts, hts, hr⟩

theorem proper_compile_go {pattern : List Char} (h : go.compile pattern = .ok r) : r.proper = true := by
  obtain ⟨ts, -, hp⟩ := compile_eq_ok h
  exact proper_parse rfl ⟨by simp, by simp⟩ (by simp) hp

end Kanat.RegexpTexts
