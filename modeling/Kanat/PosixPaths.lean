import Mathlib.Data.List.Basic
import Mathlib.Data.List.Infix
import Mathlib.Tactic.Common

/-! # POSIX paths

Absolute paths as texts, normalized segment by segment: `.` stays, `..` goes up, and never above the root. -/
namespace Kanat.PosixPaths

abbrev Segment := List Char

def enter (here : List Segment) (segment : Segment) : List Segment :=
  if segment = [] ∨ segment = ['.'] then here
  else if segment = ['.', '.'] then here.dropLast
  else here ++ [segment]

def walk (here segments : List Segment) : List Segment := segments.foldl enter here

/-- Of no segments, nothing; the root itself has a slash. -/
def text (segments : List Segment) : List Char := segments.flatMap fun segment => '/' :: segment

/-- `path.posix.normalize` of an absolute path: a slash it ends in stays. -/
def normalize (path : List Char) : List Char :=
  let segments := walk [] (path.splitOn '/')
  if segments = [] then ['/'] else text segments ++ (if path.getLast? = some '/' then ['/'] else [])

/-- `path.posix.join` of an absolute path and another one. -/
def join (base path : List Char) : List Char := normalize (if path = [] then base else base ++ '/' :: path)

/-- The name of a file or a folder. -/
def Plain (segment : Segment) : Prop :=
  segment ≠ [] ∧ segment ≠ ['.'] ∧ segment ≠ ['.', '.'] ∧ '/' ∉ segment

/-- An absolute path, normalized. -/
structure Directory where
  segments : List Segment
  plain : ∀ segment ∈ segments, Plain segment

variable {here segments root rest : List Segment} {segment : Segment} {path : List Char}

theorem plain_enter (hhere : ∀ s ∈ here, Plain s) (hsegment : '/' ∉ segment) : ∀ s ∈ enter here segment, Plain s := by
  intro s hs
  unfold enter at hs
  split_ifs at hs with hstay hup
  · exact hhere s hs
  · exact hhere s (List.dropLast_subset _ hs)
  · rcases List.mem_append.mp hs with hs | hs
    · exact hhere s hs
    · rw [List.mem_singleton.mp hs]
      exact ⟨fun h => hstay (.inl h), fun h => hstay (.inr h), hup, hsegment⟩

theorem plain_walk (hhere : ∀ s ∈ here, Plain s) (hsegments : ∀ s ∈ segments, '/' ∉ s) :
    ∀ s ∈ walk here segments, Plain s := by
  induction segments generalizing here with
  | nil => exact hhere
  | cons segment segments ih =>
    exact ih (plain_enter hhere (hsegments segment List.mem_cons_self)) fun s hs =>
      hsegments s (List.mem_cons_of_mem _ hs)

private theorem enter_plain (h : Plain segment) : enter here segment = here ++ [segment] := by
  rw [enter, if_neg (by rintro (hs | hs); exacts [h.1 hs, h.2.1 hs]), if_neg h.2.2.1]

theorem walk_plain (h : ∀ s ∈ segments, Plain s) : walk here segments = here ++ segments := by
  induction segments generalizing here with
  | nil => exact (List.append_nil here).symm
  | cons segment segments ih =>
    rw [walk, List.foldl_cons, enter_plain (h segment List.mem_cons_self)]
    exact (ih fun s hs => h s (List.mem_cons_of_mem _ hs)).trans (by rw [List.append_assoc, List.singleton_append])

private theorem walk_append (segments segments' : List Segment) :
    walk here (segments ++ segments') = walk (walk here segments) segments' :=
  List.foldl_append

theorem text_append (segments segments' : List Segment) :
    text (segments ++ segments') = text segments ++ text segments' :=
  List.flatMap_append

theorem text_cons (segment : Segment) (segments : List Segment) :
    text (segment :: segments) = '/' :: (segment ++ text segments) := rfl

theorem notMem_of_mem_splitOn (h : segment ∈ path.splitOn '/') : '/' ∉ segment := by
  induction path generalizing segment with
  | nil =>
    rw [List.splitOn_nil] at h
    rw [List.mem_singleton.mp h]
    exact List.not_mem_nil
  | cons c path ih =>
    rw [List.splitOn_cons_eq_if_modifyHead] at h
    split_ifs at h with hc
    · rcases List.mem_cons.mp h with rfl | h
      · exact List.not_mem_nil
      · exact ih h
    · obtain ⟨first, others, hsplit⟩ := List.exists_cons_of_ne_nil (List.splitOn_ne_nil '/' path)
      rw [hsplit] at h ih
      rcases List.mem_cons.mp h with rfl | h
      · rintro (_ | ⟨_, hmem⟩)
        · exact hc (beq_self_eq_true _)
        · exact ih List.mem_cons_self hmem
      · exact ih (List.mem_cons_of_mem _ h)

theorem splitOn_append (base path : List Char) :
    (base ++ '/' :: path).splitOn '/' = base.splitOn '/' ++ path.splitOn '/' := by
  rw [List.splitOn_eq_splitOnP, List.splitOn_eq_splitOnP, List.splitOn_eq_splitOnP]
  exact List.splitOnP_append_cons base path (beq_self_eq_true '/')

private theorem splitOn_segment (h : '/' ∉ segment) : segment.splitOn '/' = [segment] := by
  rw [List.splitOn_eq_splitOnP]
  exact List.splitOnP_eq_singleton fun c hc => beq_false_of_ne fun heq => h (heq ▸ hc)

theorem splitOn_text (h : ∀ s ∈ segments, '/' ∉ s) : (text segments).splitOn '/' = [] :: segments := by
  induction segments using List.reverseRecOn with
  | nil => exact List.splitOn_nil '/'
  | append_singleton segments segment ih =>
    have hlast : text [segment] = '/' :: segment := List.append_nil _
    rw [text_append, hlast, splitOn_append, splitOn_segment (h segment (by simp)),
      ih fun s hs => h s (List.mem_append_left _ hs), List.cons_append]

/-- What a path that ends in a slash keeps. -/
def slash (path : List Char) : List Char := if path.getLast? = some '/' then ['/'] else []

theorem slash_text (h : ∀ s ∈ segments, Plain s) : slash (text segments) = [] := by
  rcases List.eq_nil_or_concat' segments with rfl | ⟨front, segment, rfl⟩
  · rfl
  · obtain ⟨hne, -, -, hmem⟩ := h segment (by simp)
    have hlast : text [segment] = '/' :: segment := List.append_nil _
    refine if_neg fun hslash => hmem ?_
    rw [text_append, hlast, List.getLast?_append_of_ne_nil _ (List.cons_ne_nil _ _),
      List.getLast?_cons_of_ne_nil hne] at hslash
    exact List.mem_of_getLast? hslash

private theorem slash_append (base : List Char) (hpath : path ≠ []) : slash (base ++ '/' :: path) = slash path := by
  rw [slash, List.getLast?_append_of_ne_nil _ (List.cons_ne_nil _ _), List.getLast?_cons_of_ne_nil hpath, slash]

theorem walk_text (root : Directory) : walk [] ((text root.segments).splitOn '/') = root.segments := by
  rw [splitOn_text fun s hs => (root.plain s hs).2.2.2]
  exact walk_plain root.plain

theorem join_text (root : Directory) (path : List Char) :
    join (text root.segments) path = if walk root.segments (path.splitOn '/') = [] then ['/']
      else text (walk root.segments (path.splitOn '/')) ++ slash path := by
  unfold join normalize
  by_cases hpath : path = []
  · have hstay : walk root.segments (path.splitOn '/') = root.segments := by
      rw [hpath, List.splitOn_nil]
      rfl
    have hslash : slash (text root.segments) = [] := slash_text root.plain
    rw [if_pos hpath, walk_text, hstay, hpath]
    change (if root.segments = [] then ['/'] else text root.segments ++ slash (text root.segments)) = _
    rw [hslash]
    rfl
  · rw [if_neg hpath, splitOn_append, walk_append, walk_text]
    change (if walk root.segments (path.splitOn '/') = [] then ['/']
      else text (walk root.segments (path.splitOn '/')) ++ slash (text root.segments ++ '/' :: path)) = _
    rw [slash_append _ hpath]

/-- Nothing, or from a slash on. -/
def Breaks (l : List Char) : Prop := ∀ c ∈ l.head?, c = '/'

private theorem breaks_text (segments : List Segment) : Breaks (text segments) := by
  cases segments with
  | nil => exact fun c hc => absurd hc (by simp [text])
  | cons segment segments => exact fun c hc => (Option.some_inj.mp hc).symm

theorem takeWhile_segment {l : List Char} (h : '/' ∉ segment) (hl : Breaks l) :
    (segment ++ l).takeWhile (· ≠ '/') = segment := by
  have hne : ∀ c ∈ segment, decide (c ≠ '/') = true := fun c hc => decide_eq_true fun heq => h (heq ▸ hc)
  rw [List.takeWhile_append_of_pos hne]
  cases l with
  | nil => exact List.append_nil _
  | cons c l =>
    obtain rfl := hl c rfl
    rw [List.takeWhile_cons_of_neg (by simp), List.append_nil]

private theorem append_isPrefix {segment' : Segment} {l l' : List Char} (h : '/' ∉ segment) (h' : '/' ∉ segment')
    (hl : Breaks l) (hne : l ≠ []) (hl' : Breaks l') :
    segment ++ l <+: segment' ++ l' ↔ segment = segment' ∧ l <+: l' := by
  constructor
  · rintro ⟨more, hmore⟩
    have hbreaks : Breaks (l ++ more) := by rwa [Breaks, List.head?_append_of_ne_nil _ hne]
    have heq : segment = segment' := by
      rw [← takeWhile_segment h hbreaks, ← takeWhile_segment h' hl', ← hmore, List.append_assoc]
    subst heq
    rw [List.append_assoc] at hmore
    exact ⟨rfl, more, List.append_cancel_left hmore⟩
  · rintro ⟨rfl, more, rfl⟩
    exact ⟨more, List.append_assoc _ _ _⟩

/-- A path begins with a folder's and a slash when it is one of what the folder has in it. -/
theorem text_isPrefix (hroot : ∀ s ∈ root, '/' ∉ s) (hsegments : ∀ s ∈ segments, '/' ∉ s) :
    text root ++ ['/'] <+: text segments ↔ ∃ rest, rest ≠ [] ∧ segments = root ++ rest := by
  induction root generalizing segments with
  | nil =>
    cases segments with
    | nil => simp [text]
    | cons segment segments => exact iff_of_true ⟨segment ++ text segments, rfl⟩ ⟨_, List.cons_ne_nil _ _, rfl⟩
  | cons s root ih =>
    cases segments with
    | nil => simp [text]
    | cons t segments =>
      have hbreaks : Breaks (text root ++ ['/']) := by
        cases root with
        | nil => exact fun c hc => (Option.some_inj.mp hc).symm
        | cons u root => exact fun c hc => (Option.some_inj.mp hc).symm
      rw [text_cons, text_cons, List.cons_append, List.append_assoc, List.cons_prefix_cons, and_iff_right rfl,
        append_isPrefix (hroot s List.mem_cons_self) (hsegments t List.mem_cons_self) hbreaks
          (List.append_ne_nil_of_right_ne_nil _ (List.cons_ne_nil _ _)) (breaks_text segments),
        ih (fun u hu => hroot u (List.mem_cons_of_mem _ hu)) fun u hu => hsegments u (List.mem_cons_of_mem _ hu)]
      simp only [List.cons_append, List.cons.injEq]
      constructor
      · rintro ⟨rfl, rest, hne, rfl⟩
        exact ⟨rest, hne, rfl, rfl⟩
      · rintro ⟨rest, hne, rfl, rfl⟩
        exact ⟨rfl, rest, hne, rfl⟩

end Kanat.PosixPaths
