import Kanat.PlainTexts

/-! # The lines and words of a text

How Python reads a text file: its line ends made `\n`, the lines `str.splitlines` and iteration give, the words of
`str.split`. -/
namespace Kanat.TextLines
open PlainTexts

abbrev Text := List Char

/-- The rest of a text after a `\r` or not, each `\r\n` and `\r` read as `\n`. -/
def universalFrom : Bool → Text → Text
  | _, [] => []
  | afterReturn, c :: cs =>
    if c = '\r' then '\n' :: universalFrom true cs
    else if afterReturn ∧ c = '\n' then universalFrom false cs
    else c :: universalFrom false cs

def universal (t : Text) : Text := universalFrom false t

def isLineBreak (c : Char) : Bool :=
  let n := c.toNat
  (10 ≤ n && n ≤ 13) || (0x1C ≤ n && n ≤ 0x1E) || n == 0x85 || n == 0x2028 || n == 0x2029

/-- Of a text that was read, whose line ends are no `\r\n`. -/
def splitlines (t : Text) : List Text :=
  let pieces := t.splitOnP isLineBreak
  if pieces.getLast? = some [] then pieces.dropLast else pieces

def words (t : Text) : List Text := (t.splitOnP isspace).filter (· ≠ [])

/-- The lines that an open file gives, each with the `\n` that ends it. -/
def fileLines : Text → List Text
  | [] => []
  | c :: cs => if c = '\n' then ['\n'] :: fileLines cs else (c :: (fileLines cs).headD []) :: (fileLines cs).tail

/-- The lines of a text that are not blank. -/
def nonblank (t : Text) : List Text := (splitlines (strip isspace (universal t))).filter fun l => strip isspace l ≠ []

/-- Lines, each ended. -/
def ended (ls : List Text) : Text := ls.flatMap fun l => l ++ ['\n']

variable {c : Char} {t x y : Text} {ls : List Text}

theorem words_append_space (hc : isspace c) (x y : Text) : words (x ++ c :: y) = words x ++ words y := by
  have hpieces : (x ++ c :: y).splitOnP isspace = x.splitOnP isspace ++ y.splitOnP isspace :=
    List.splitOnP_append_cons x y hc
  rw [words, hpieces, List.filter_append, words, words]

@[simp] theorem words_nil : words [] = [] := rfl

theorem words_cons_space (hc : isspace c) (t : Text) : words (c :: t) = words t := words_append_space hc [] t

private theorem words_concat_space (hc : isspace c) (t : Text) : words (t ++ [c]) = words t := by
  rw [words_append_space hc t [], words_nil, List.append_nil]

theorem words_eq_nil : words t = [] ↔ ∀ c ∈ t, isspace c := by
  induction t with
  | nil => simp
  | cons c t ih =>
    by_cases hc : isspace c
    · rw [words_cons_space hc, ih, List.forall_mem_cons, and_iff_right hc]
    · refine iff_of_false (fun h => ?_) fun h => hc (h c List.mem_cons_self)
      obtain ⟨head, tail, hsplit⟩ := List.exists_cons_of_ne_nil (List.splitOnP_ne_nil isspace t)
      rw [words, List.splitOnP_cons_eq_if_modifyHead, if_neg hc, hsplit, List.modifyHead_cons] at h
      simp at h

theorem isspace_of_isLineBreak (hc : isLineBreak c) : isspace c := by
  simp only [isLineBreak, Bool.or_eq_true, Bool.and_eq_true, decide_eq_true_eq, beq_iff_eq] at hc
  simp only [isspace, Bool.or_eq_true, Bool.and_eq_true, decide_eq_true_eq, beq_iff_eq]
  omega

/-- The words of each line that has some. -/
def rows (t : Text) : List (List Text) := ((t.splitOnP isLineBreak).map words).filter (· ≠ [])

theorem rows_append_break (hc : isLineBreak c) (x y : Text) : rows (x ++ c :: y) = rows x ++ rows y := by
  have hpieces : (x ++ c :: y).splitOnP isLineBreak = x.splitOnP isLineBreak ++ y.splitOnP isLineBreak :=
    List.splitOnP_append_cons x y hc
  rw [rows, hpieces, List.map_append, List.filter_append, rows, rows]

@[simp] theorem rows_nil : rows [] = [] := rfl

private theorem rows_cons_space (hc : isspace c) (t : Text) : rows (c :: t) = rows t := by
  by_cases hbreak : isLineBreak c
  · exact rows_append_break hbreak [] t
  · obtain ⟨head, tail, hsplit⟩ := List.exists_cons_of_ne_nil (List.splitOnP_ne_nil isLineBreak t)
    rw [rows, List.splitOnP_cons_eq_if_modifyHead, if_neg hbreak, hsplit, List.modifyHead_cons, List.map_cons,
      words_cons_space hc, rows, hsplit, List.map_cons]

theorem rows_of_unbroken (h : ∀ c ∈ t, ¬ isLineBreak c) : rows t = [words t].filter (· ≠ []) := by
  rw [rows, List.splitOnP_eq_singleton fun c hc => by simpa using h c hc, List.map_singleton]

theorem rows_concat_space (hc : isspace c) (t : Text) : rows (t ++ [c]) = rows t := by
  by_cases hbreak : isLineBreak c
  · rw [rows_append_break hbreak t [], rows_nil, List.append_nil]
  · by_cases ht : ∀ d ∈ t, ¬ isLineBreak d
    · have hconcat : ∀ d ∈ t ++ [c], ¬ isLineBreak d := by
        intro d hd
        rcases List.mem_append.mp hd with hd | hd
        · exact ht d hd
        · exact List.mem_singleton.mp hd ▸ hbreak
      rw [rows_of_unbroken hconcat, rows_of_unbroken ht, words_concat_space hc]
    · simp only [not_forall, not_not] at ht
      obtain ⟨d, hd, hd'⟩ := ht
      obtain ⟨x, y, heq⟩ := List.append_of_mem hd
      rw [heq, List.append_assoc, List.cons_append, rows_append_break hd', rows_append_break hd',
        rows_concat_space hc y]
termination_by t.length
decreasing_by
  rw [heq, List.length_append, List.length_cons]
  omega

private theorem rows_dropWhile (t : Text) : rows (t.dropWhile isspace) = rows t := by
  induction t with
  | nil => rfl
  | cons c t ih =>
    by_cases hc : isspace c
    · rw [List.dropWhile_cons_of_pos hc, rows_cons_space hc, ih]
    · rw [List.dropWhile_cons_of_neg hc]

private theorem rows_rdropWhile (t : Text) : rows (t.rdropWhile isspace) = rows t := by
  induction t using List.reverseRecOn with
  | nil => rfl
  | append_singleton t c ih =>
    by_cases hc : isspace c
    · rw [List.rdropWhile_concat_pos _ _ _ hc, rows_concat_space hc, ih]
    · rw [List.rdropWhile_concat_neg _ _ _ hc]

/-- What surrounds a text is in no row. -/
theorem rows_strip (t : Text) : rows (strip isspace t) = rows t := by
  rw [strip, rows_rdropWhile, rows_dropWhile]

private theorem rows_eq_splitlines (t : Text) : rows t = ((splitlines t).map words).filter (· ≠ []) := by
  simp only [rows, splitlines]
  split_ifs with hlast
  · have hpieces := List.dropLast_append_getLast? [] hlast
    rw [← hpieces, List.map_append, List.filter_append]
    simp
  · rfl

/-- The words of a text's nonblank lines. -/
theorem map_words_nonblank (t : Text) : (nonblank t).map words = rows (universal t) := by
  rw [← rows_strip (universal t), rows_eq_splitlines, nonblank]
  rw [List.filter_map]
  refine congrArg (List.map words) (List.filter_congr fun l _ => ?_)
  simp only [Function.comp_apply, ne_eq, words_eq_nil, strip_eq_nil]

theorem not_isLineBreak_of_mem_splitOnP {l : Text} (h : l ∈ t.splitOnP isLineBreak) : ∀ c ∈ l, ¬ isLineBreak c := by
  induction t generalizing l with
  | nil =>
    obtain rfl := List.mem_singleton.mp h
    simp
  | cons d t ih =>
    obtain ⟨head, tail, hsplit⟩ := List.exists_cons_of_ne_nil (List.splitOnP_ne_nil isLineBreak t)
    rw [hsplit] at ih
    rw [List.splitOnP_cons_eq_if_modifyHead, hsplit, List.modifyHead_cons] at h
    split_ifs at h with hd
    · rcases List.mem_cons.mp h with rfl | h
      · simp
      · exact ih h
    · rcases List.mem_cons.mp h with rfl | h
      · exact List.forall_mem_cons.mpr ⟨hd, ih List.mem_cons_self⟩
      · exact ih (List.mem_cons_of_mem _ h)

/-- A line that is read is not broken and has words. -/
theorem mem_nonblank {l : Text} (h : l ∈ nonblank t) : (∀ c ∈ l, ¬ isLineBreak c) ∧ words l ≠ [] := by
  obtain ⟨hmem, hblank⟩ := List.mem_filter.mp h
  refine ⟨not_isLineBreak_of_mem_splitOnP (t := strip isspace (universal t)) ?_, ?_⟩
  · simp only [splitlines] at hmem
    split_ifs at hmem
    · exact List.dropLast_subset _ hmem
    · exact hmem
  · simpa only [ne_eq, decide_eq_true_eq, words_eq_nil, strip_eq_nil] using hblank

theorem rows_ended (h : ∀ l ∈ ls, (∀ c ∈ l, ¬ isLineBreak c) ∧ words l ≠ []) : rows (ended ls) = ls.map words := by
  induction ls with
  | nil => rfl
  | cons l ls ih =>
    obtain ⟨⟨hunbroken, hwords⟩, hls⟩ := List.forall_mem_cons.mp h
    have hended : ended (l :: ls) = l ++ '\n' :: ended ls := by simp [ended]
    rw [hended, rows_append_break (by decide), ih hls, rows_of_unbroken hunbroken, List.map_cons,
      List.filter_cons_of_pos (by simpa using hwords)]
    rfl

private theorem universalFrom_newline (b : Bool) (x y : Text) :
    universalFrom b (x ++ '\n' :: y) = universalFrom b (x ++ ['\n']) ++ universal y := by
  induction x generalizing b with
  | nil => cases b <;> rfl
  | cons c x ih =>
    rw [List.cons_append, List.cons_append]
    unfold universalFrom
    split_ifs
    · rw [ih, List.cons_append]
    · rw [ih]
    · rw [ih, List.cons_append]

private theorem universal_of_plain (h : ∀ c ∈ t, c ≠ '\r') : universal t = t := by
  induction t with
  | nil => rfl
  | cons c t ih =>
    obtain ⟨hc, ht⟩ := List.forall_mem_cons.mp h
    have hrest : universalFrom false t = t := ih ht
    rw [universal, universalFrom, if_neg hc, if_neg (by simp), hrest]

/-- No character of an unbroken line is a line end. -/
theorem ne_of_not_isLineBreak (hc : ¬ isLineBreak c) : c ≠ '\r' ∧ c ≠ '\n' := by
  constructor
  · rintro rfl
    exact hc (by decide)
  · rintro rfl
    exact hc (by decide)

private theorem universal_ended (h : ∀ l ∈ ls, ∀ c ∈ l, ¬ isLineBreak c) : universal (ended ls) = ended ls := by
  refine universal_of_plain fun c hc => ?_
  obtain ⟨l, hl, hc⟩ := List.mem_flatMap.mp hc
  rcases List.mem_append.mp hc with hc | hc
  · exact (ne_of_not_isLineBreak (h l hl c hc)).1
  · rw [List.mem_singleton.mp hc]
    decide

/-- Lines written are read back, but for the blanks at a text's two ends. -/
theorem map_words_nonblank_ended (h : ∀ l ∈ ls, (∀ c ∈ l, ¬ isLineBreak c) ∧ words l ≠ []) :
    (nonblank (ended ls)).map words = ls.map words := by
  rw [map_words_nonblank, universal_ended fun l hl => (h l hl).1, rows_ended h]

theorem fileLines_cons_ne (hc : c ≠ '\n') (t : Text) :
    fileLines (c :: t) = (c :: (fileLines t).headD []) :: (fileLines t).tail := by
  rw [fileLines, if_neg hc]

theorem fileLines_ne_nil (h : t ≠ []) : fileLines t ≠ [] := by
  cases t with
  | nil => exact absurd rfl h
  | cons c t =>
    rw [fileLines]
    split_ifs <;> exact List.cons_ne_nil _ _

theorem fileLines_append (x y : Text) : fileLines (x ++ '\n' :: y) = fileLines (x ++ ['\n']) ++ fileLines y := by
  induction x with
  | nil => rfl
  | cons c x ih =>
    obtain ⟨head, tail, hx⟩ := List.exists_cons_of_ne_nil (fileLines_ne_nil (t := x ++ ['\n']) (by simp))
    rw [List.cons_append, List.cons_append]
    by_cases hc : c = '\n'
    · subst hc
      change ['\n'] :: fileLines (x ++ '\n' :: y) = ['\n'] :: fileLines (x ++ ['\n']) ++ fileLines y
      rw [ih, List.cons_append]
    · rw [fileLines_cons_ne hc, fileLines_cons_ne hc, ih, hx]
      rfl

/-- What no line end is in goes before the first line. -/
theorem fileLines_prefix {p : Text} (hp : '\n' ∉ p) {head : Text} {tail : List Text} (h : fileLines t = head :: tail) :
    fileLines (p ++ t) = (p ++ head) :: tail := by
  induction p with
  | nil => exact h
  | cons c p ih =>
    rw [List.mem_cons, not_or] at hp
    rw [List.cons_append, fileLines_cons_ne (Ne.symm hp.1), ih hp.2]
    rfl

private theorem universal_append {pre : Text} (h : ∀ c ∈ pre, c ≠ '\r') (t : Text) :
    universal (pre ++ t) = pre ++ universal t := by
  induction pre with
  | nil => rfl
  | cons c pre ih =>
    obtain ⟨hc, hpre⟩ := List.forall_mem_cons.mp h
    have hrest : universalFrom false (pre ++ t) = pre ++ universalFrom false t := ih hpre
    rw [List.cons_append, universal, universalFrom, if_neg hc, if_neg (by simp), hrest]
    rfl

theorem universalFrom_ends (b : Bool) (l : Text) :
    (universalFrom b (l ++ ['\n']) = [] ∧ b = true) ∨ ∃ z, universalFrom b (l ++ ['\n']) = z ++ ['\n'] := by
  induction l generalizing b with
  | nil =>
    cases b with
    | false => exact .inr ⟨[], rfl⟩
    | true => exact .inl ⟨rfl, rfl⟩
  | cons c l ih =>
    rw [List.cons_append, universalFrom]
    split_ifs with hreturn hswallowed
    · rcases ih true with ⟨h, -⟩ | ⟨z, h⟩
      · exact .inr ⟨[], by rw [h]; rfl⟩
      · exact .inr ⟨'\n' :: z, by rw [h]; rfl⟩
    · rcases ih false with ⟨-, h⟩ | h
      · cases h
      · exact .inr h
    · rcases ih false with ⟨-, h⟩ | ⟨z, h⟩
      · cases h
      · exact .inr ⟨c :: z, by rw [h]; rfl⟩

/-- A text ended is a line or, where it holds line ends of its own, several. -/
def broken (t : Text) : List Text := fileLines (universal (t ++ ['\n']))

theorem fileLines_ended (ls : List Text) : fileLines (universal (ended ls)) = ls.flatMap broken := by
  induction ls with
  | nil => rfl
  | cons l ls ih =>
    have hended : ended (l :: ls) = l ++ '\n' :: ended ls := by simp [ended]
    rcases universalFrom_ends false l with ⟨-, h⟩ | ⟨z, hz⟩
    · cases h
    · have hl : universal (l ++ ['\n']) = z ++ ['\n'] := hz
      rw [hended, universal, universalFrom_newline, ← universal, hl, List.append_assoc, List.singleton_append,
        fileLines_append, ih, List.flatMap_cons, broken, hl]

theorem broken_append {pre : Text} (h : ∀ c ∈ pre, ¬ isLineBreak c) (t : Text) :
    broken (pre ++ t) = (pre ++ (broken t).headD []) :: (broken t).tail := by
  have hreturn : ∀ c ∈ pre, c ≠ '\r' := fun c hc => (ne_of_not_isLineBreak (h c hc)).1
  have hnewline : '\n' ∉ pre := fun hc => (ne_of_not_isLineBreak (h _ hc)).2 rfl
  have hne : universal (t ++ ['\n']) ≠ [] := by
    rcases universalFrom_ends false t with ⟨-, h⟩ | ⟨z, hz⟩
    · cases h
    · rw [universal, hz]
      simp
  obtain ⟨head, tail, hlines⟩ := List.exists_cons_of_ne_nil (fileLines_ne_nil hne)
  unfold broken
  rw [List.append_assoc, universal_append hreturn, fileLines_prefix hnewline hlines, hlines]
  rfl

theorem broken_of_unbroken (h : ∀ c ∈ t, ¬ isLineBreak c) : broken t = [t ++ ['\n']] := by
  have happend := broken_append h []
  rwa [List.append_nil] at happend

end Kanat.TextLines
