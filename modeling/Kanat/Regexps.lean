import Mathlib.Data.List.Infix
import Mathlib.Data.List.Basic

/-! # Regular expressions

What a regular expression matches: by backtracking, in the order of its alternatives, and as a relation. Where a match
stands in a text is said by the text left there. -/
namespace Kanat.Regexps

inductive Perl where
  | digit
  | nonDigit
  | word
  | nonWord
  deriving DecidableEq

inductive Posix where
  | alnum
  | alpha
  | ascii
  | blank
  | cntrl
  | digit
  | graph
  | lower
  | print
  | punct
  | space
  | upper
  | word
  | xdigit
  deriving DecidableEq

def within (lo hi c : Char) : Bool := lo ≤ c && c ≤ hi

def isWord (c : Char) : Bool := c.isAlphanum || c = '_'

def Perl.contains : Perl → Char → Bool
  | digit, c => c.isDigit
  | nonDigit, c => !c.isDigit
  | word, c => isWord c
  | nonWord, c => !isWord c

def Posix.contains : Posix → Char → Bool
  | alnum, c => c.isAlphanum
  | alpha, c => c.isAlpha
  | ascii, c => c.toNat < 128
  | blank, c => c = '\t' || c = ' '
  | cntrl, c => c.toNat < 32 || c.toNat = 127
  | digit, c => c.isDigit
  | graph, c => within '!' '~' c
  | lower, c => c.isLower
  | print, c => within ' ' '~' c
  | punct, c => within '!' '~' c && !c.isAlphanum
  | space, c => within '\t' '\r' c || c = ' '
  | upper, c => c.isUpper
  | word, c => isWord c
  | xdigit, c => c.isDigit || within 'A' 'F' c || within 'a' 'f' c

inductive ClassItem where
  | range (lo hi : Char)
  | perl (p : Perl)
  | posix (negated : Bool) (p : Posix)
  deriving DecidableEq

def ClassItem.contains : ClassItem → Char → Bool
  | range lo hi, c => within lo hi c
  | perl p, c => p.contains c
  | posix negated p, c => negated != p.contains c

structure CharSet where
  negated : Bool
  items : List ClassItem
  deriving DecidableEq

namespace CharSet

def contains (s : CharSet) (c : Char) : Bool := s.negated != s.items.any (·.contains c)

def literal (c : Char) : CharSet := ⟨false, [.range c c]⟩

/-- `.` -/
def any : CharSet := ⟨true, [.range '\n' '\n']⟩

end CharSet

inductive Greed where
  | greedy
  | lazy
  | possessive
  deriving DecidableEq

/-- No `max` is no bound. -/
inductive Regexp where
  | empty
  | set (s : CharSet)
  | caret
  | dollar
  | seq (r s : Regexp)
  | alt (r s : Regexp)
  | many (greed : Greed) (min : ℕ) (max : Option ℕ) (r : Regexp)
  deriving DecidableEq

def times (f : List Char → List (List Char)) : ℕ → List Char → List (List Char)
  | 0, rest => [rest]
  | n + 1, rest => (f rest).flatMap (times f n)

/-- Up to `n` times more. Once more must take something. -/
def more (f : List Char → List (List Char)) (greed : Greed) : ℕ → List Char → List (List Char)
  | 0, rest => [rest]
  | n + 1, rest =>
    let again := ((f rest).filter (·.length < rest.length)).flatMap (more f greed n)
    if greed = .lazy then rest :: again else again ++ [rest]

def repeated (f : List Char → List (List Char)) (greed : Greed) (min : ℕ) (max : Option ℕ) (rest : List Char) :
    List (List Char) :=
  let found := (times f min rest).flatMap fun rest => more f greed ((max.map (· - min)).getD rest.length) rest
  if greed = .possessive then found.take 1 else found

/-- Where a match from here may end, in the order tried. `$` is also before a last newline. -/
def ends (text : List Char) : Regexp → List Char → List (List Char)
  | .empty, rest => [rest]
  | .set s, rest =>
    match rest with
    | c :: rest => if s.contains c then [rest] else []
    | [] => []
  | .caret, rest => if rest = text then [rest] else []
  | .dollar, rest => if rest = [] ∨ rest = ['\n'] then [rest] else []
  | .seq r s, rest => (ends text r rest).flatMap (ends text s)
  | .alt r s, rest => ends text r rest ++ ends text s rest
  | .many greed min max r, rest => repeated (ends text r) greed min max rest

/-- `search` -/
def search (r : Regexp) (text : List Char) : Bool := text.tails.any fun rest => !(ends text r rest).isEmpty

def Times (R : List Char → List Char → Prop) : ℕ → List Char → List Char → Prop
  | 0, s, t => s = t
  | n + 1, s, t => ∃ u, R s u ∧ Times R n u t

def Matches (text : List Char) : Regexp → List Char → List Char → Prop
  | .empty, s, t => s = t
  | .set cs, s, t => ∃ c, cs.contains c = true ∧ s = c :: t
  | .caret, s, t => s = text ∧ s = t
  | .dollar, s, t => s = [] ∧ s = t
  | .seq a b, s, t => ∃ u, Matches text a s u ∧ Matches text b u t
  | .alt a b, s, t => Matches text a s t ∨ Matches text b s t
  | .many _ min max r, s, t => ∃ n, min ≤ n ∧ (∀ m, max = some m → n ≤ m) ∧ Times (Matches text r) n s t

/-- Some part of the text matches. -/
def Matched (r : Regexp) (text : List Char) : Prop := ∃ s t, s <:+ text ∧ Matches text r s t

/-- Nothing is possessive, and every bound is reached. -/
def Regexp.proper : Regexp → Bool
  | .empty | .set _ | .caret | .dollar => true
  | .seq r s | .alt r s => r.proper && s.proper
  | .many greed min max r => greed ≠ .possessive && (max.all fun m => min ≤ m) && r.proper

variable {R : List Char → List Char → Prop} {f : List Char → List (List Char)} {text s t u : List Char} {m n : ℕ}
  {greed : Greed} {max : Option ℕ} {r : Regexp}

theorem proper_many : (Regexp.many greed n max r).proper = true ↔
    greed ≠ .possessive ∧ (∀ m, max = some m → n ≤ m) ∧ r.proper = true := by
  simp [Regexp.proper, Option.all_eq_true, and_assoc]

theorem times_add : Times R (m + n) s t ↔ ∃ u, Times R m s u ∧ Times R n u t := by
  induction m generalizing s with
  | zero => simp [Times]
  | succ m ih =>
    rw [Nat.succ_add]
    simp only [Times, ih]
    constructor
    · rintro ⟨v, hv, u, hm, hn⟩
      exact ⟨u, ⟨v, hv, hm⟩, hn⟩
    · rintro ⟨u, ⟨v, hv, hm⟩, hn⟩
      exact ⟨v, hv, u, hm, hn⟩

theorem Times.isSuffix (hR : ∀ s t, R s t → t <:+ s) (h : Times R n s t) : t <:+ s := by
  induction n generalizing s with
  | zero => exact h ▸ List.suffix_rfl
  | succ n ih =>
    obtain ⟨u, hu, hn⟩ := h
    exact (ih hn).trans (hR _ _ hu)

theorem Matches.isSuffix (h : Matches text r s t) : t <:+ s := by
  induction r generalizing s t with
  | empty => exact h ▸ List.suffix_rfl
  | set cs =>
    obtain ⟨c, -, rfl⟩ := h
    exact List.suffix_cons _ _
  | caret => exact h.2 ▸ List.suffix_rfl
  | dollar => exact h.2 ▸ List.suffix_rfl
  | seq a b iha ihb =>
    obtain ⟨u, ha, hb⟩ := h
    exact (ihb hb).trans (iha ha)
  | alt a b iha ihb =>
    rcases h with h | h
    · exact iha h
    · exact ihb h
  | many greed min max r ih =>
    obtain ⟨n, -, -, h⟩ := h
    exact h.isSuffix fun _ _ => ih

/-- Times that take nothing can be left out. -/
theorem Times.shorten (hR : ∀ s t, R s t → t <:+ s) (h : Times R n s t) :
    ∃ m, m ≤ n ∧ m ≤ s.length ∧ Times (fun s t => R s t ∧ t.length < s.length) m s t := by
  induction n generalizing s with
  | zero => exact ⟨0, le_rfl, Nat.zero_le _, h⟩
  | succ n ih =>
    obtain ⟨u, hu, hn⟩ := h
    obtain ⟨m, hmn, hmu, hm⟩ := ih hn
    rcases (hR s u hu).length_le.lt_or_eq with hlt | heq
    · exact ⟨m + 1, by omega, by omega, u, ⟨hu, hlt⟩, hm⟩
    · obtain rfl := (hR s u hu).eq_of_length heq
      exact ⟨m, by omega, hmu, hm⟩

theorem Times.mono {S : List Char → List Char → Prop} (hS : ∀ s t, R s t → S s t) (h : Times R n s t) : Times S n s t := by
  induction n generalizing s with
  | zero => exact h
  | succ n ih =>
    obtain ⟨u, hu, hn⟩ := h
    exact ⟨u, hS _ _ hu, ih hn⟩

theorem mem_times : t ∈ times f n s ↔ Times (fun s t => t ∈ f s) n s t := by
  induction n generalizing s with
  | zero => simp [times, Times, eq_comm]
  | succ n ih => simp [times, Times, ih]

theorem mem_more : t ∈ more f greed n s ↔ ∃ m, m ≤ n ∧ Times (fun s t => t ∈ f s ∧ t.length < s.length) m s t := by
  induction n generalizing s with
  | zero =>
    simp only [more, List.mem_singleton, Nat.le_zero, exists_eq_left, Times]
    exact eq_comm
  | succ n ih =>
    have hmem : t ∈ more f greed (n + 1) s ↔
        t = s ∨ ∃ u, (u ∈ f s ∧ u.length < s.length) ∧ t ∈ more f greed n u := by
      rw [more]
      split
      · simp [and_assoc]
      · simp [and_assoc, or_comm]
    rw [hmem]
    constructor
    · rintro (rfl | ⟨u, hu, hn⟩)
      · exact ⟨0, Nat.zero_le _, rfl⟩
      · obtain ⟨m, hm, h⟩ := ih.mp hn
        exact ⟨m + 1, by omega, u, hu, h⟩
    · rintro ⟨m, hm, h⟩
      cases m with
      | zero => exact .inl h.symm
      | succ m =>
        obtain ⟨u, hu, h⟩ := h
        exact .inr ⟨u, hu, ih.mpr ⟨m, by omega, h⟩⟩

/-- Found by backtracking is what any number of times within the bounds gives. -/
theorem mem_repeated (hf : ∀ s t, t ∈ f s → t <:+ s) (hg : greed ≠ .possessive) (hmax : ∀ m, max = some m → n ≤ m) :
    t ∈ repeated f greed n max s ↔
      ∃ k, n ≤ k ∧ (∀ m, max = some m → k ≤ m) ∧ Times (fun s t => t ∈ f s) k s t := by
  simp only [repeated, if_neg hg, List.mem_flatMap, mem_times, mem_more]
  constructor
  · rintro ⟨u, hn, m, hm, h⟩
    refine ⟨n + m, by omega, ?_, times_add.mpr ⟨u, hn, h.mono fun _ _ hst => hst.1⟩⟩
    rintro b rfl
    have := hmax b rfl
    simp only [Option.map_some, Option.getD_some] at hm
    omega
  · rintro ⟨k, hk, hb, h⟩
    obtain ⟨j, rfl⟩ := Nat.exists_eq_add_of_le hk
    obtain ⟨u, hn, hj⟩ := times_add.mp h
    obtain ⟨m, hmj, hmu, hm⟩ := hj.shorten hf
    refine ⟨u, hn, m, ?_, hm⟩
    cases max with
    | none => exact hmu
    | some b =>
      have := hb b rfl
      simp only [Option.map_some, Option.getD_some]
      omega

theorem isSuffix_of_mem_ends (h : t ∈ ends text r s) : t <:+ s := by
  induction r generalizing s t with
  | empty =>
    rw [List.mem_singleton.mp h]
  | set cs =>
    cases s with
    | nil => simp [ends] at h
    | cons c s =>
      simp only [ends] at h
      split at h
      · rw [List.mem_singleton.mp h]
        exact List.suffix_cons _ _
      · simp at h
  | caret =>
    simp only [ends] at h
    split at h
    · rw [List.mem_singleton.mp h]
    · simp at h
  | dollar =>
    simp only [ends] at h
    split at h
    · rw [List.mem_singleton.mp h]
    · simp at h
  | seq a b iha ihb =>
    obtain ⟨u, hu, ht⟩ := List.mem_flatMap.mp h
    exact (ihb ht).trans (iha hu)
  | alt a b iha ihb =>
    rcases List.mem_append.mp h with h | h
    · exact iha h
    · exact ihb h
  | many greed min max r ih =>
    have hfound : t ∈ (times (ends text r) min s).flatMap fun rest =>
        more (ends text r) greed ((max.map (· - min)).getD rest.length) rest := by
      simp only [ends, repeated] at h
      split at h
      · exact List.mem_of_mem_take h
      · exact h
    obtain ⟨u, hu, ht⟩ := List.mem_flatMap.mp hfound
    obtain ⟨m, -, hm⟩ := mem_more.mp ht
    exact (hm.isSuffix fun _ _ hst => ih hst.1).trans ((mem_times.mp hu).isSuffix fun _ _ => ih)

theorem Times.congr {S : List Char → List Char → Prop} (hs : s <:+ text) (hR : ∀ s t, R s t → t <:+ s)
    (hS : ∀ s t, S s t → t <:+ s) (h : ∀ s t, s <:+ text → (R s t ↔ S s t)) : Times R n s t ↔ Times S n s t := by
  induction n generalizing s with
  | zero => rfl
  | succ n ih =>
    simp only [Times]
    constructor
    · rintro ⟨u, hu, hn⟩
      exact ⟨u, (h s u hs).mp hu, (ih ((hR s u hu).trans hs)).mp hn⟩
    · rintro ⟨u, hu, hn⟩
      exact ⟨u, (h s u hs).mpr hu, (ih ((hS s u hu).trans hs)).mpr hn⟩

/-- In a text of one line, what backtracking finds is what matches. -/
theorem mem_ends (hn : '\n' ∉ text) (hr : r.proper = true) (hs : s <:+ text) :
    t ∈ ends text r s ↔ Matches text r s t := by
  induction r generalizing s t with
  | empty =>
    simp only [ends, Matches, List.mem_singleton]
    exact eq_comm
  | set cs =>
    cases s with
    | nil => simp [ends, Matches]
    | cons c s =>
      simp only [ends, Matches]
      by_cases hc : cs.contains c = true
      · rw [if_pos hc, List.mem_singleton]
        constructor
        · rintro rfl
          exact ⟨c, hc, rfl⟩
        · rintro ⟨d, -, he⟩
          exact (List.cons.inj he).2.symm
      · rw [if_neg hc]
        constructor
        · intro h
          cases h
        · rintro ⟨d, hd, he⟩
          exact absurd ((List.cons.inj he).1 ▸ hd) hc
  | caret =>
    by_cases h : s = text
    · simp [ends, Matches, h, eq_comm]
    · simp [ends, Matches, h]
  | dollar =>
    have hne : s ≠ ['\n'] := by
      rintro rfl
      exact hn (hs.subset (List.mem_singleton_self _))
    by_cases h : s = []
    · simp [ends, Matches, h, eq_comm]
    · simp [ends, Matches, h, hne]
  | seq a b iha ihb =>
    obtain ⟨ha, hb⟩ := Bool.and_eq_true_iff.mp hr
    simp only [ends, Matches, List.mem_flatMap]
    constructor
    · rintro ⟨u, hu, ht⟩
      have hu := (iha ha hs).mp hu
      exact ⟨u, hu, (ihb hb (hu.isSuffix.trans hs)).mp ht⟩
    · rintro ⟨u, hu, ht⟩
      exact ⟨u, (iha ha hs).mpr hu, (ihb hb (hu.isSuffix.trans hs)).mpr ht⟩
  | alt a b iha ihb =>
    obtain ⟨ha, hb⟩ := Bool.and_eq_true_iff.mp hr
    simp only [ends, Matches, List.mem_append, iha ha hs, ihb hb hs]
  | many greed min max r ih =>
    obtain ⟨hg, hb, hr⟩ := proper_many.mp hr
    simp only [ends, Matches, mem_repeated (fun _ _ => isSuffix_of_mem_ends) hg hb]
    refine exists_congr fun k => and_congr_right fun _ => and_congr_right fun _ => ?_
    exact Times.congr hs (fun _ _ => isSuffix_of_mem_ends) (fun _ _ => Matches.isSuffix) fun _ _ hs => ih hr hs

/-- A text of one line is found to match iff some part of it does. -/
theorem search_iff (hn : '\n' ∉ text) (hr : r.proper = true) : search r text = true ↔ Matched r text := by
  simp only [search, List.any_eq_true, List.mem_tails, Bool.not_eq_true', List.isEmpty_eq_false_iff_exists_mem]
  constructor
  · rintro ⟨s, hs, t, ht⟩
    exact ⟨s, t, hs, (mem_ends hn hr hs).mp ht⟩
  · rintro ⟨s, t, hs, h⟩
    exact ⟨s, hs, t, (mem_ends hn hr hs).mpr h⟩

end Kanat.Regexps
