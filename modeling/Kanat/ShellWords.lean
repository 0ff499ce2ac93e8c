import Mathlib.Data.List.Basic

/-! # Words under a shell's quoting

Quotes, and the characters that end a word. A text with more to it, by what its dialect gives a meaning of its own,
reads as `none`; so does one that ends inside quotes. -/
namespace Kanat.ShellWords

structure Dialect where
  separator : Char → Bool
  /-- Stands for itself outside quotes. -/
  plain : Char → Bool
  /-- Stands for itself between double quotes. -/
  verbatim : Char → Bool
  separator_single : separator '\'' = false
  separator_double : separator '"' = false

inductive Mode where
  | bare
  | single
  | double

section
variable (d : Dialect)

/-- The words of a text, `word` being what has been read of one. -/
@[grind =] def wordsFrom : Mode → Option (List Char) → List Char → Option (List (List Char))
  | .bare, word, [] => some word.toList
  | .single, _, [] | .double, _, [] => none
  | .bare, word, c :: l =>
    if d.separator c then (wordsFrom .bare none l).map (word.toList ++ ·)
    else if c = '\'' then wordsFrom .single (some (word.getD [])) l
    else if c = '"' then wordsFrom .double (some (word.getD [])) l
    else if d.plain c then wordsFrom .bare (some (word.getD [] ++ [c])) l
    else none
  | .single, word, c :: l =>
    if c = '\'' then wordsFrom .bare word l else wordsFrom .single (some (word.getD [] ++ [c])) l
  | .double, word, c :: l =>
    if c = '"' then wordsFrom .bare word l
    else if d.verbatim c then wordsFrom .double (some (word.getD [] ++ [c])) l
    else none

def words (text : String) : Option (List String) :=
  (wordsFrom d .bare none text.toList).map fun l => l.map String.ofList

end

/-- Words as `/bin/sh` splits them, and nothing else of it: no expansion. A backslash is left out. -/
def quoting : Dialect where
  separator c := c == ' ' || c == '\t' || c == '\n'
  plain c := c != '\\'
  verbatim c := c != '\\'
  separator_single := rfl
  separator_double := rfl

/-- One line of a bash script of simple commands. -/
def bash : Dialect where
  separator c := c == ' ' || c == '\t'
  plain c := c.isAlphanum || "-_./:,@%+".toList.contains c
  verbatim c := !"$`\\!".toList.contains c
  separator_single := rfl
  separator_double := rfl

def reserved : List String :=
  ["if", "then", "elif", "else", "fi", "time", "for", "in", "until", "while", "do", "done", "case", "esac", "coproc",
    "select", "function"]

/-- The simple commands of a script, one a line. -/
def commands (script : String) : Option (List (List String)) := do
  let lines ← (script.toList.splitOn '\n').mapM fun line => words bash (String.ofList line)
  let commands := lines.filter (· ≠ [])
  if commands.any fun command => reserved.contains (command.headD "") then none else return commands

/-- The programs a script's commands run: nothing comes after the one that `exec` puts in the shell's place. -/
def programs : List (List String) → List (List String)
  | [] => []
  | command :: rest =>
    match command with
    | "exec" :: program :: args => [program :: args]
    | _ => command :: programs rest

variable {d : Dialect} {text value w l : List Char} {c : Char}

/-- Read from its beginning, a text gives one word, which may go on. -/
def Stands (d : Dialect) (text value : List Char) : Prop :=
  ∀ l, wordsFrom d .bare none (text ++ l) = wordsFrom d .bare (some value) l

def Bare (d : Dialect) (c : Char) : Prop := d.separator c = false ∧ c ≠ '\'' ∧ c ≠ '"' ∧ d.plain c = true

theorem wordsFrom_bare (h : Bare d c) (word : Option (List Char)) (l : List Char) :
    wordsFrom d .bare word (c :: l) = wordsFrom d .bare (some (word.getD [] ++ [c])) l := by
  obtain ⟨hs, h₁, h₂, hp⟩ := h
  simp [wordsFrom, hs, h₁, h₂, hp]

private theorem wordsFrom_bare_append (h : ∀ c ∈ w, Bare d c) (value l : List Char) :
    wordsFrom d .bare (some value) (w ++ l) = wordsFrom d .bare (some (value ++ w)) l := by
  induction w generalizing value with
  | nil => rw [List.nil_append, List.append_nil]
  | cons c w ih =>
    obtain ⟨hc, hw⟩ := List.forall_mem_cons.mp h
    rw [List.cons_append, wordsFrom_bare hc, ih hw, Option.getD_some, List.append_assoc, List.singleton_append]

private theorem wordsFrom_single (h : ∀ c ∈ w, c ≠ '\'') (value l : List Char) :
    wordsFrom d .single (some value) (w ++ '\'' :: l) = wordsFrom d .bare (some (value ++ w)) l := by
  induction w generalizing value with
  | nil => simp [wordsFrom]
  | cons c w ih =>
    obtain ⟨hc, hw⟩ := List.forall_mem_cons.mp h
    rw [List.cons_append, wordsFrom, if_neg hc, ih hw, Option.getD_some, List.append_assoc, List.singleton_append]

private theorem wordsFrom_double (h : ∀ c ∈ w, c ≠ '"' ∧ d.verbatim c = true) (value l : List Char) :
    wordsFrom d .double (some value) (w ++ '"' :: l) = wordsFrom d .bare (some (value ++ w)) l := by
  induction w generalizing value with
  | nil => simp [wordsFrom]
  | cons c w ih =>
    obtain ⟨⟨hc, hv⟩, hw⟩ := List.forall_mem_cons.mp h
    rw [List.cons_append, wordsFrom, if_neg hc, if_pos hv, ih hw, Option.getD_some, List.append_assoc,
      List.singleton_append]

theorem stands_bare (hne : w ≠ []) (h : ∀ c ∈ w, Bare d c) : Stands d w w := by
  intro l
  obtain ⟨c, w, rfl⟩ := List.exists_cons_of_ne_nil hne
  obtain ⟨hc, hw⟩ := List.forall_mem_cons.mp h
  rw [List.cons_append, wordsFrom_bare hc, wordsFrom_bare_append hw]
  rfl

theorem stands_single (h : ∀ c ∈ w, c ≠ '\'') : Stands d ('\'' :: (w ++ ['\''])) w := by
  intro l
  rw [List.cons_append, wordsFrom, if_neg (by simp [d.separator_single]), if_pos rfl, List.append_assoc,
    List.singleton_append, Option.getD_none, wordsFrom_single h, List.nil_append]

theorem stands_double (h : ∀ c ∈ w, c ≠ '"' ∧ d.verbatim c = true) : Stands d ('"' :: (w ++ ['"'])) w := by
  intro l
  rw [List.cons_append, wordsFrom, if_neg (by simp [d.separator_double]), if_neg (by decide), if_pos rfl,
    List.append_assoc, List.singleton_append, Option.getD_none, wordsFrom_double h, List.nil_append]

/-- Words written one after another, a separator between each two, are read back. -/
theorem wordsFrom_intercalate (hc : d.separator c = true) (written : List (List Char × List Char))
    (h : ∀ p ∈ written, Stands d p.1 p.2) :
    wordsFrom d .bare none ([c].intercalate (written.map Prod.fst)) = some (written.map Prod.snd) := by
  induction written with
  | nil => rfl
  | cons p written ih =>
    obtain ⟨hp, hw⟩ := List.forall_mem_cons.mp h
    cases written with
    | nil =>
      have hl := hp []
      rw [List.append_nil] at hl
      simpa [List.intercalate, wordsFrom] using hl
    | cons q written =>
      have hi := ih hw
      rw [List.map_cons, List.map_cons] at hi
      simp only [List.intercalate, List.map_cons, List.intersperse_cons_cons, List.flatten_cons,
        List.singleton_append] at hi ⊢
      rw [hp, wordsFrom, if_pos hc, hi]
      rfl

theorem mem_intercalate {s : Char} {ls : List (List Char)} (h : c ∈ [s].intercalate ls) :
    c = s ∨ ∃ l ∈ ls, c ∈ l := by
  induction ls with
  | nil => simp [List.intercalate] at h
  | cons l ls ih =>
    cases ls with
    | nil => exact .inr ⟨l, List.mem_singleton.mpr rfl, by simpa [List.intercalate] using h⟩
    | cons l' ls =>
      simp only [List.intercalate, List.intersperse_cons_cons, List.flatten_cons, List.mem_append,
        List.mem_singleton] at h ih
      rcases h with h | rfl | h
      · exact .inr ⟨l, List.mem_cons_self, h⟩
      · exact .inl rfl
      · exact (ih h).imp_right fun ⟨m, hm, hc⟩ => ⟨m, List.mem_cons_of_mem _ hm, hc⟩

/-- A script of one line between two ends of line is its one command. -/
theorem commands_line {script : String} {line : List Char} {command : List String}
    (hs : script.toList = '\n' :: (line ++ ['\n'])) (hline : '\n' ∉ line)
    (hw : words bash (String.ofList line) = some command) (hne : command ≠ []) (hr : command.headD "" ∉ reserved) :
    commands script = some [command] := by
  have hsplit : script.toList.splitOn '\n' = [[], line, []] := by
    have hj : script.toList = ['\n'].intercalate [[], line, []] := by
      rw [hs]
      simp [List.intercalate]
    rw [hj]
    refine List.splitOn_intercalate '\n' (fun l hl => ?_) (by simp)
    simp only [List.mem_cons, List.not_mem_nil, or_false] at hl
    rcases hl with rfl | rfl | rfl
    · exact List.not_mem_nil
    · exact hline
    · exact List.not_mem_nil
  have hnil : words bash (String.ofList []) = some [] := rfl
  rw [commands, hsplit]
  rw [List.headD_eq_head?_getD] at hr
  simp [hnil, hw, hne, hr]

theorem words_of_wordsFrom {text : String} {l : List (List Char)} (h : wordsFrom d .bare none text.toList = some l) :
    words d text = some (l.map String.ofList) := by
  rw [words, h]
  rfl

end Kanat.ShellWords
