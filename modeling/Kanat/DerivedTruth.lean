import Kanat.Rounding
import Kanat.TruthDerivation

/-! # A truth derivation's files (tools/evaluate.py: write_derived, pre_existing_labels)

Numbers are formatted exactly. -/
namespace Kanat.DerivedTruth
open LabelExports MarkMatching PlainTexts TextLines TruthDerivation WeightedMatching
open Rounding (pyRound)

variable {R : Type} [Field R] [LinearOrder R]

def DERIVED_NAME : String := "board.new.txt"
def RAW_BEFORE_NAME : String := "board.before.export.txt"
def RAW_AFTER_NAME : String := "board.after.export.txt"
def SOURCE_NAME : String := "board.source.txt"
def UNPAIRED_FIELD : String := "before-marks-without-a-counterpart"
def PRE_EXISTING_FIELD : String := "pre-existing-export-lines"

def write (files : Files) (file : File) (text : Text) : Files := Function.update files file (some text)

/-- `shutil.copyfile` -/
def copyfile (files : Files) (source dest : File) : Except Raised Files :=
  if source = dest then .error .sameFileError
  else
    match files source with
    | none => .error .fileNotFoundError
    | some text => .ok (write files dest text)

/-- A raw export kept, unless it is where it belongs. -/
def keepRaw (abspath : String → File) (files : Files) (source : String) (raw : File) : Except Raised Files :=
  if abspath source ≠ raw then copyfile files (abspath source) raw else .ok files

def path (file : File) : Text := (file.dir ++ "/" ++ file.name).toList

section
variable [FloorRing R]

/-- `f"{x:.4f}"` and the like. -/
def fixed (digits : ℕ) (x : R) : Text :=
  let n := (pyRound (|x| * 10 ^ digits)).toNat
  (if x < 0 then ['-'] else []) ++ Nat.toDigits 10 (n / 10 ^ digits) ++ '.' :: zeroPadded digits (n % 10 ^ digits)

end

/-- Lines of the after export, from 1. -/
def recorded (preExisting : List ℕ) : Text := [','].intercalate (preExisting.map fun i => Nat.toDigits 10 (i + 1))

def derivedLines (result : Derived R) : List Text := result.new.map fun i => result.lines.getD i []

section
variable [FloorRing R] (abspath : String → File) (result : Derived R)
  (beforeImage beforeLabels afterImage afterLabels : String)

def comments : List Text :=
  [("# " ++ DERIVED_NAME ++ " is the after photograph's labels minus the before photograph's.").toList,
    "# Its coordinates are normalised against the after photograph.".toList]

/-- The paths as they were given, the photographs' made absolute. -/
def pathFields : List (String × Text) :=
  [("before-image", path (abspath beforeImage)), ("before-labels", beforeLabels.toList),
    ("after-image", path (abspath afterImage)), ("after-labels", afterLabels.toList)]

def measureFields : List (String × Text) :=
  [("photograph-registration-correlation", fixed 4 result.correlation),
    ("refitted-on-matched-marks", if result.refitted then "yes".toList else "no".toList),
    ("match-tolerance-photo-px", fixed 1 result.tolerancePx), ("labelled-after", Nat.toDigits 10 result.lines.length),
    ("pre-existing", Nat.toDigits 10 result.preExisting.length)]

def countFields : List (String × Text) :=
  [("new-bullet-holes", Nat.toDigits 10 result.new.length), (UNPAIRED_FIELD, Nat.toDigits 10 result.onlyBefore.length)]

def fieldLine (field : String × Text) : Text := field.1.toList ++ ':' :: ' ' :: field.2

def sourceLines : List Text :=
  comments ++ (pathFields abspath beforeImage beforeLabels afterImage afterLabels ++ measureFields result ++
    (PRE_EXISTING_FIELD, recorded result.preExisting) :: countFields result).map fieldLine

def writeDerived (files : Files) (outDir : String) : Except Raised Files :=
  (keepRaw abspath (write files ⟨outDir, DERIVED_NAME⟩ (ended (derivedLines result))) beforeLabels
    ⟨outDir, RAW_BEFORE_NAME⟩).bind fun files =>
  (keepRaw abspath files afterLabels ⟨outDir, RAW_AFTER_NAME⟩).map fun files =>
  write files ⟨outDir, SOURCE_NAME⟩
    (ended (sourceLines abspath result beforeImage beforeLabels afterImage afterLabels))

end

/-- What is before a line's first colon. -/
def fieldKey (line : Text) : Text := line.takeWhile (· ≠ ':')

def fieldValue (line : Text) : Text := strip isspace ((line.dropWhile (· ≠ ':')).drop 1)

/-- `_source_field` -/
def sourceField (files : Files) (labelPath : File) (field : String) : Option Text :=
  (files ⟨labelPath.dir, SOURCE_NAME⟩).bind fun text =>
    ((fileLines (universal text)).find? fun line => fieldKey line = field.toList).map fieldValue

def unsigned (t : Text) : Option ℕ :=
  if (t.splitOn '_').all fun part => part ≠ [] ∧ Digits part then some (valueOf (t.filter (· ≠ '_'))) else none

/-- `int`, of ASCII digits. -/
def int (t : Text) : Option ℤ :=
  match strip isspace t with
  | '-' :: digits => (unsigned digits).map fun n => -(n : ℤ)
  | '+' :: digits => (unsigned digits).map fun n => (n : ℤ)
  | digits => (unsigned digits).map fun n => (n : ℤ)

/-- An index counts from the end where it is negative. -/
def item (lines : List Text) (i : ℤ) : Except Raised Text :=
  match lines[(if 0 ≤ i then i else i + lines.length).toNat]? with
  | some line => if 0 ≤ i + lines.length then .ok line else .error .indexError
  | none => .error .indexError

def recordedLine (lines : List Text) (n : Text) : Except Raised Text :=
  match int n with
  | none => .error .valueError
  | some n => item lines (n - 1)

def preExistingLabels (float : Text → Option R) (files : Files) (labelPath : File) :
    Except Raised (Option (List (R × R))) :=
  match sourceField files labelPath PRE_EXISTING_FIELD, files ⟨labelPath.dir, RAW_AFTER_NAME⟩ with
  | some recorded, some text =>
    if labelPath.name ≠ DERIVED_NAME then .ok none
    else
      (((recorded.splitOn ',').filter (· ≠ [])).mapM (recordedLine (nonblank text))).bind fun found =>
        (centroids float found).map some
  | _, _ => .ok none

variable {key : String} {value line : Text} {field : String}

/-- A key in one line, before its line's first colon. -/
def PlainKey (key : Text) : Prop := ∀ c ∈ key, ¬ isLineBreak c ∧ c ≠ ':'

instance (key : Text) : Decidable (PlainKey key) := List.decidableBAll _ key

theorem fieldKey_append {key : Text} (h : PlainKey key) (rest : Text) : fieldKey (key ++ ':' :: rest) = key := by
  have hkey : ∀ c ∈ key, decide (c ≠ ':') = true := fun c hc => decide_eq_true (h c hc).2
  rw [fieldKey, List.takeWhile_append_of_pos hkey, List.takeWhile_cons_of_neg (by simp), List.append_nil]

private theorem fieldValue_append {key : Text} (h : PlainKey key) (rest : Text) :
    fieldValue (key ++ ':' :: rest) = strip isspace rest := by
  have hkey : ∀ c ∈ key, decide (c ≠ ':') = true := fun c hc => decide_eq_true (h c hc).2
  rw [fieldValue, List.dropWhile_append_of_pos hkey, List.dropWhile_cons_of_neg (by simp), List.drop_one,
    List.tail_cons]

/-- Past a field's own line is only what its value's line ends bring. -/
theorem broken_fieldLine (h : PlainKey key.toList) (value : Text) : broken (fieldLine (key, value)) =
    (key.toList ++ ':' :: ' ' :: (broken value).headD []) :: (broken value).tail := by
  have hpre : ∀ c ∈ key.toList ++ [':', ' '], ¬ isLineBreak c := by
    intro c hc
    rcases List.mem_append.mp hc with hc | hc
    · exact (h c hc).1
    · rcases List.mem_pair.mp hc with rfl | rfl <;> decide
  have hline := broken_append hpre value
  simp only [List.append_assoc, List.cons_append, List.nil_append] at hline
  exact hline

/-- None of the keys is the field's. -/
def OtherKeys (field : String) (keys : List String) : Prop := ∀ key ∈ keys, PlainKey key.toList ∧ key ≠ field

instance (field : String) (keys : List String) : Decidable (OtherKeys field keys) := List.decidableBAll _ keys

theorem find_fieldLines (field : String) (fields : List (String × Text))
    (h : OtherKeys field (fields.map fun f => f.1)) :
    ((fields.map fieldLine).flatMap broken).find? (fun line => fieldKey line = field.toList) =
      (fields.flatMap fun f => (broken f.2).tail).find? fun line => fieldKey line = field.toList := by
  induction fields with
  | nil => rfl
  | cons f fields ih =>
    obtain ⟨⟨hplain, hne⟩, hfields⟩ := List.forall_mem_cons.mp h
    have hkey : ¬ fieldKey (f.1.toList ++ ':' :: ' ' :: (broken f.2).headD []) = field.toList := by
      rw [fieldKey_append hplain]
      exact fun heq => hne (String.toList_inj.mp heq)
    rw [List.map_cons, List.flatMap_cons, List.flatMap_cons, List.find?_append, List.find?_append, ih hfields,
      broken_fieldLine hplain, List.find?_cons_of_neg (by simpa using hkey)]

/-- No blank, and so no line break. -/
def Unspaced (t : Text) : Prop := ∀ c ∈ t, ¬ isspace c

instance (t : Text) : Decidable (Unspaced t) := List.decidableBAll _ t

theorem Unspaced.unbroken {t : Text} (h : Unspaced t) : ∀ c ∈ t, ¬ isLineBreak c :=
  fun c hc hbreak => h c hc (isspace_of_isLineBreak hbreak)

theorem Unspaced.append {t t' : Text} (h : Unspaced t) (h' : Unspaced t') : Unspaced (t ++ t') := by
  intro c hc
  rcases List.mem_append.mp hc with hc | hc
  · exact h c hc
  · exact h' c hc

theorem unspaced_of_digits {t : Text} (h : Digits t) : Unspaced t := fun c hc => not_isspace_of_isDigit (h c hc)

theorem unspaced_toDigits (n : ℕ) : Unspaced (Nat.toDigits 10 n) := unspaced_of_digits (digits_toDigits n)

theorem unspaced_fixed [FloorRing R] (digits : ℕ) (x : R) : Unspaced (fixed digits x) := by
  have hsign : Unspaced (if x < 0 then ['-'] else []) := by
    intro c hc
    split_ifs at hc
    · rw [List.mem_singleton.mp hc]
      decide
    · exact absurd hc List.not_mem_nil
  refine (hsign.append (unspaced_toDigits _)).append (List.forall_mem_cons.mpr ⟨by decide, unspaced_of_digits (digits_zeroPadded _ _)⟩)

private theorem unspaced_intercalate {sep : Text} {ts : List Text} (hsep : Unspaced sep) (h : ∀ t ∈ ts, Unspaced t) :
    Unspaced (sep.intercalate ts) := by
  induction ts with
  | nil => exact fun c hc => absurd hc List.not_mem_nil
  | cons t ts ih =>
    obtain ⟨ht, hts⟩ := List.forall_mem_cons.mp h
    cases ts with
    | nil => simpa [List.intercalate] using ht
    | cons t' ts =>
      have hcons : sep.intercalate (t :: t' :: ts) = t ++ (sep ++ sep.intercalate (t' :: ts)) := rfl
      rw [hcons]
      exact ht.append (hsep.append (ih hts))

theorem unspaced_recorded (preExisting : List ℕ) : Unspaced (recorded preExisting) := by
  refine unspaced_intercalate (by decide) fun t ht => ?_
  obtain ⟨i, -, rfl⟩ := List.mem_map.mp ht
  exact unspaced_toDigits _

private theorem strip_padded {t : Text} (h : Unspaced t) : strip isspace (' ' :: (t ++ ['\n'])) = t := by
  rw [strip, List.dropWhile_cons_of_pos (by decide)]
  cases t with
  | nil => decide
  | cons c t =>
    have hc : ¬ isspace c := h c List.mem_cons_self
    rw [List.cons_append, List.dropWhile_cons_of_neg hc, ← List.cons_append,
      List.rdropWhile_concat_pos _ _ _ (by decide)]
    exact List.rdropWhile_eq_self_iff.mpr fun hl => h _ (List.getLast_mem hl)

private theorem unsigned_toDigits (n : ℕ) : unsigned (Nat.toDigits 10 n) = some n := by
  have hne : ∀ c ∈ Nat.toDigits 10 n, c ≠ '_' := by
    rintro c hc rfl
    exact absurd (digits_toDigits n _ hc) (by decide)
  have hparts : (Nat.toDigits 10 n).splitOn '_' = [Nat.toDigits 10 n] :=
    List.splitOnP_eq_singleton fun c hc => by simpa using hne c hc
  have hkept : (Nat.toDigits 10 n).filter (· ≠ '_') = Nat.toDigits 10 n :=
    List.filter_eq_self.mpr fun c hc => decide_eq_true (hne c hc)
  rw [unsigned, hparts, hkept, if_pos (by simp [digits_toDigits, Nat.toDigits_ne_nil]), valueOf_toDigits]

private theorem int_toDigits (n : ℕ) : int (Nat.toDigits 10 n) = some (n : ℤ) := by
  have hunsigned := unsigned_toDigits n
  have hdigits := digits_toDigits n
  rw [int, strip_of_forall (unspaced_toDigits n)]
  revert hunsigned hdigits
  generalize Nat.toDigits 10 n = t
  intro hunsigned hdigits
  split
  · exact absurd (hdigits _ List.mem_cons_self) (by decide)
  · exact absurd (hdigits _ List.mem_cons_self) (by decide)
  · rw [hunsigned]
    rfl

/-- The numbers recorded are read back. -/
theorem splitOn_recorded (preExisting : List ℕ) : ((recorded preExisting).splitOn ',').filter (· ≠ []) =
    preExisting.map fun i => Nat.toDigits 10 (i + 1) := by
  cases preExisting with
  | nil => decide
  | cons i preExisting =>
    have hsplit : (recorded (i :: preExisting)).splitOn ',' =
        (i :: preExisting).map fun i => Nat.toDigits 10 (i + 1) := by
      refine List.splitOn_intercalate ',' (fun t ht hmem => ?_) (by simp)
      obtain ⟨j, -, rfl⟩ := List.mem_map.mp ht
      exact absurd (digits_toDigits _ _ hmem) (by decide)
    rw [hsplit]
    refine List.filter_eq_self.mpr fun t ht => ?_
    obtain ⟨j, -, rfl⟩ := List.mem_map.mp ht
    exact decide_eq_true Nat.toDigits_ne_nil

private theorem recordedLine_toDigits {lines : List Text} {i : ℕ} (hi : i < lines.length) :
    recordedLine lines (Nat.toDigits 10 (i + 1)) = .ok (lines.getD i []) := by
  have hindex : (((i + 1 : ℕ) : ℤ) - 1) = i := by omega
  rw [recordedLine, int_toDigits]
  simp only [hindex, item, Int.natCast_nonneg, if_true, Int.toNat_natCast, List.getElem?_eq_getElem hi,
    List.getD_eq_getElem?_getD, Option.getD_some]
  rw [if_pos (by omega)]

section
variable [FloorRing R] (abspath : String → File) (result : Derived R)
  (beforeImage beforeLabels afterImage afterLabels : String)

/-- The lines that the paths' own line ends bring into the source file. -/
def strayLines : List Text :=
  (pathFields abspath beforeImage beforeLabels afterImage afterLabels).flatMap fun f => (broken f.2).tail

omit [Field R] [LinearOrder R] [FloorRing R] in
private theorem find_of_unspaced (field : String) (fields : List (String × Text))
    (h : OtherKeys field (fields.map fun f => f.1)) (hvalues : ∀ f ∈ fields, Unspaced f.2) :
    ((fields.map fieldLine).flatMap broken).find? (fun line => fieldKey line = field.toList) = none := by
  have hnone : (fields.flatMap fun f => (broken f.2).tail) = [] := by
    refine List.flatMap_eq_nil_iff.mpr fun f hf => ?_
    rw [broken_of_unbroken (hvalues f hf).unbroken]
    rfl
  rw [find_fieldLines field fields h, hnone]
  rfl

private theorem unspaced_measureFields : ∀ f ∈ measureFields result, Unspaced f.2 := by
  intro f hf
  simp only [measureFields, List.mem_cons, List.not_mem_nil, or_false] at hf
  rcases hf with rfl | rfl | rfl | rfl | rfl
  · exact unspaced_fixed _ _
  · cases result.refitted <;> decide
  · exact unspaced_fixed _ _
  · exact unspaced_toDigits _
  · exact unspaced_toDigits _

/-- The field is the first line so keyed that a path brings, or else the one that is written for it. -/
theorem find_sourceLines :
    ((sourceLines abspath result beforeImage beforeLabels afterImage afterLabels).flatMap broken).find?
        (fun line => fieldKey line = PRE_EXISTING_FIELD.toList) =
      ((strayLines abspath beforeImage beforeLabels afterImage afterLabels).find? fun line =>
        fieldKey line = PRE_EXISTING_FIELD.toList).or
          (some (PRE_EXISTING_FIELD.toList ++ ':' :: ' ' :: (recorded result.preExisting ++ ['\n']))) := by
  have hcomments : (comments.flatMap broken).find? (fun line => fieldKey line = PRE_EXISTING_FIELD.toList) = none := by
    decide
  have hpathKeys : OtherKeys PRE_EXISTING_FIELD
      ["before-image", "before-labels", "after-image", "after-labels"] := by
    decide
  have hmeasureKeys : OtherKeys PRE_EXISTING_FIELD ["photograph-registration-correlation", "refitted-on-matched-marks",
      "match-tolerance-photo-px", "labelled-after", "pre-existing"] := by decide
  have hkey : PlainKey PRE_EXISTING_FIELD.toList := by decide
  have hpaths := find_fieldLines _ (pathFields abspath beforeImage beforeLabels afterImage afterLabels) hpathKeys
  have hmeasures := find_of_unspaced _ (measureFields result) hmeasureKeys (unspaced_measureFields result)
  rw [sourceLines, List.flatMap_append, List.find?_append, hcomments, Option.none_or, List.map_append, List.map_append,
    List.flatMap_append, List.flatMap_append, List.find?_append, List.find?_append, hpaths, hmeasures, Option.or_none,
    List.map_cons, List.flatMap_cons, broken_fieldLine hkey, broken_of_unbroken (unspaced_recorded _).unbroken,
    List.cons_append, List.find?_cons_of_pos (by simp [fieldKey_append hkey])]
  rfl

variable {abspath result beforeImage beforeLabels afterImage afterLabels} {files files' : Files} {outDir : String}

@[simp] theorem write_self (files : Files) (file : File) (text : Text) : write files file text file = some text :=
  Function.update_self ..

theorem write_of_ne {file file' : File} (h : file' ≠ file) (text : Text) : write files file text file' = files file' :=
  Function.update_of_ne h ..

theorem file_ne (outDir : String) {name name' : String} (h : name ≠ name') :
    (⟨outDir, name⟩ : File) ≠ ⟨outDir, name'⟩ :=
  fun heq => h (congrArg File.name heq)

/-- The raw export's file then has what its source had, and no other file changes. -/
theorem keepRaw_ok {source : String} (raw : File) {text : Text} (h : files (abspath source) = some text) :
    ∃ files', keepRaw abspath files source raw = .ok files' ∧ files' raw = some text ∧
      ∀ file, file ≠ raw → files' file = files file := by
  unfold keepRaw copyfile
  by_cases hsame : abspath source = raw
  · refine ⟨files, by rw [if_neg (not_not.mpr hsame)], hsame ▸ h, fun _ _ => rfl⟩
  · refine ⟨write files raw text, by rw [if_pos hsame, if_neg hsame, h], write_self .., fun file hfile => ?_⟩
    exact write_of_ne hfile text

/-- What is found of an export once the derived file is written. -/
def afterDerived (abspath : String → File) (result : Derived R) (outDir path : String) (text : Text) : Text :=
  if abspath path = ⟨outDir, DERIVED_NAME⟩ then ended (derivedLines result) else text

theorem writeDerived_ok (result : Derived R) (beforeImage afterImage outDir : String) {beforeText afterText : Text}
    (hbefore : files (abspath beforeLabels) = some beforeText) (hafter : files (abspath afterLabels) = some afterText) :
    ∃ files', writeDerived abspath result beforeImage beforeLabels afterImage afterLabels files outDir = .ok files' ∧
      files' ⟨outDir, DERIVED_NAME⟩ = some (ended (derivedLines result)) ∧
      files' ⟨outDir, SOURCE_NAME⟩ =
        some (ended (sourceLines abspath result beforeImage beforeLabels afterImage afterLabels)) ∧
      files' ⟨outDir, RAW_BEFORE_NAME⟩ = some (afterDerived abspath result outDir beforeLabels beforeText) ∧
      files' ⟨outDir, RAW_AFTER_NAME⟩ = some (if abspath afterLabels = ⟨outDir, RAW_BEFORE_NAME⟩ then
        afterDerived abspath result outDir beforeLabels beforeText
        else afterDerived abspath result outDir afterLabels afterText) := by
  have hderived : ∀ {path : String} {text : Text}, files (abspath path) = some text →
      write files ⟨outDir, DERIVED_NAME⟩ (ended (derivedLines result)) (abspath path) =
        some (afterDerived abspath result outDir path text) := by
    intro path text h
    unfold afterDerived
    split_ifs with hpath
    · rw [hpath, write_self]
    · rw [write_of_ne hpath, h]
  obtain ⟨files₂, hkeep, hraw, hother⟩ := keepRaw_ok ⟨outDir, RAW_BEFORE_NAME⟩ (hderived hbefore)
  have hsecond : files₂ (abspath afterLabels) = some (if abspath afterLabels = ⟨outDir, RAW_BEFORE_NAME⟩ then
      afterDerived abspath result outDir beforeLabels beforeText
      else afterDerived abspath result outDir afterLabels afterText) := by
    split_ifs with hpath
    · rw [hpath, hraw]
    · rw [hother _ hpath, hderived hafter]
  obtain ⟨files₃, hkeep', hraw', hother'⟩ := keepRaw_ok ⟨outDir, RAW_AFTER_NAME⟩ hsecond
  refine ⟨_, by rw [writeDerived, hkeep, Except.bind, hkeep', Except.map], ?_, write_self .., ?_, ?_⟩
  · rw [write_of_ne (file_ne outDir (by decide)), hother' _ (file_ne outDir (by decide)),
      hother _ (file_ne outDir (by decide)), write_self]
  · rw [write_of_ne (file_ne outDir (by decide)), hother' _ (file_ne outDir (by decide)), hraw]
  · rw [write_of_ne (file_ne outDir (by decide)), hraw']

section
variable (norm : R × R → R) (maxWeightMatching : (V : Type) → [DecidableEq V] → WeightedGraph V R → List (V × V))
  (float : Text → Option R) (abspath : String → File) (files : Files) (beforeLabels afterLabels : String)
  (photographs : Photographs R) (result : Derived R) (outDir : String)

/-- Every label once: the raw exports unchanged, the after export's lines parted into the derived file's and those
recorded as pre-existing, and both read back. -/
structure Kept (files' : Files) : Prop where
  rawBefore : files' ⟨outDir, RAW_BEFORE_NAME⟩ = files (abspath beforeLabels)
  rawAfter : files' ⟨outDir, RAW_AFTER_NAME⟩ = files (abspath afterLabels)
  exported : ∃ text, files (abspath afterLabels) = some text ∧ result.lines = nonblank text
  parts : Parts result.lines.length result.new result.preExisting
  derived : files' ⟨outDir, DERIVED_NAME⟩ = some (ended (derivedLines result))
  recorded : sourceField files' ⟨outDir, DERIVED_NAME⟩ PRE_EXISTING_FIELD = some (recorded result.preExisting)
  labels : loadLabels float files' ⟨outDir, DERIVED_NAME⟩ =
    .ok (result.new.map fun i => centre float (result.lines.getD i []), 0)
  preExisting : preExistingLabels float files' ⟨outDir, DERIVED_NAME⟩ =
    .ok (some (result.preExisting.map fun i => centre float (result.lines.getD i [])))
  refit : (firstPairs norm maxWeightMatching float photographs result).length ≤ result.preExisting.length ∧
    result.new.length ≤
      (unmatched (firstPairs norm maxWeightMatching float photographs result) result.lines.length).length

/-- Neither export is where another file is written before it is copied, unless what is written there is what it holds,
and no line that a path brings is read as the pre-existing lines, unless it says the same. -/
structure Unharmed (beforeImage afterImage : String) : Prop where
  derivedBefore : abspath beforeLabels = ⟨outDir, DERIVED_NAME⟩ →
    files (abspath beforeLabels) = some (ended (derivedLines result))
  derivedAfter : abspath afterLabels = ⟨outDir, DERIVED_NAME⟩ →
    files (abspath afterLabels) = some (ended (derivedLines result))
  rawBefore : abspath afterLabels = ⟨outDir, RAW_BEFORE_NAME⟩ →
    files (abspath afterLabels) = files (abspath beforeLabels)
  stray : ∀ line, ((strayLines abspath beforeImage beforeLabels afterImage afterLabels).find? fun line =>
    fieldKey line = PRE_EXISTING_FIELD.toList) = some line → fieldValue line = recorded result.preExisting

end

variable {norm : R × R → R} {maxWeightMatching : (V : Type) → [DecidableEq V] → WeightedGraph V R → List (V × V)}
  {float : Text → Option R} {photographs : Photographs R}

private theorem mapM_map_ok {α β γ ε : Type} {f : β → Except ε γ} {g : α → β} {h : α → γ} {xs : List α}
    (hf : ∀ x ∈ xs, f (g x) = .ok (h x)) : (xs.map g).mapM f = .ok (xs.map h) := by
  induction xs with
  | nil => rfl
  | cons x xs ih =>
    obtain ⟨hx, hxs⟩ := List.forall_mem_cons.mp hf
    rw [List.map_cons, List.mapM_cons, hx, ih hxs]
    rfl

omit [FloorRing R] [LinearOrder R] in
theorem mem_of_parts {lines : List Text} {is : List ℕ} (h : ∀ i ∈ is, i < lines.length) :
    ∀ l ∈ is.map (fun i => lines.getD i []), l ∈ lines := by
  intro l hl
  obtain ⟨i, hi, rfl⟩ := List.mem_map.mp hl
  rw [List.getD_eq_getElem?_getD, List.getElem?_eq_getElem (h i hi)]
  exact List.getElem_mem _

omit [LinearOrder R] [FloorRing R] in
/-- The pre-existing lines are read back where they are recorded and the export is kept. -/
theorem preExistingLabels_ok {text : Text} (hafter : files' ⟨outDir, RAW_AFTER_NAME⟩ = some text)
    (hrecorded : sourceField files' ⟨outDir, DERIVED_NAME⟩ PRE_EXISTING_FIELD = some (recorded result.preExisting))
    (hlines : result.lines = nonblank text) (hreadable : ∀ l ∈ result.lines, Readable float l)
    (hparts : Parts result.lines.length result.new result.preExisting) :
    preExistingLabels float files' ⟨outDir, DERIVED_NAME⟩ =
      .ok (some (result.preExisting.map fun i => centre float (result.lines.getD i []))) := by
  have hlt : ∀ i ∈ result.preExisting, i < result.lines.length := fun i hi =>
    List.mem_range.mp (hparts.all.subset (List.mem_append_right _ hi))
  have hfound : (result.preExisting.map fun i => Nat.toDigits 10 (i + 1)).mapM (recordedLine (nonblank text)) =
      .ok (result.preExisting.map fun i => result.lines.getD i []) := by
    rw [← hlines]
    exact mapM_map_ok fun i hi => recordedLine_toDigits (hlt i hi)
  have hcentres : centroids float (result.preExisting.map fun i => result.lines.getD i []) =
      .ok ((result.preExisting.map fun i => result.lines.getD i []).map (centre float)) :=
    centroids_of_readable fun l hl => hreadable l (mem_of_parts hlt l hl)
  unfold preExistingLabels
  simp only [hrecorded, hafter, ne_eq, not_true, if_false, splitOn_recorded, hfound]
  rw [Except.bind, hcentres, List.map_map]
  rfl

omit [LinearOrder R] [FloorRing R] in
theorem loadLabels_derived {text : Text} (hderived : files' ⟨outDir, DERIVED_NAME⟩ = some (ended (derivedLines result)))
    (hlines : result.lines = nonblank text) (hreadable : ∀ l ∈ result.lines, Readable float l)
    (hparts : Parts result.lines.length result.new result.preExisting) :
    loadLabels float files' ⟨outDir, DERIVED_NAME⟩ =
      .ok (result.new.map fun i => centre float (result.lines.getD i []), 0) := by
  have hlt : ∀ i ∈ result.new, i < result.lines.length := fun i hi =>
    List.mem_range.mp (hparts.all.subset (List.mem_append_left _ hi))
  have hmem : ∀ l ∈ derivedLines result, l ∈ result.lines := mem_of_parts hlt
  have hload := loadLabels_ended hderived (fun l hl => mem_nonblank (hlines ▸ hmem l hl))
    fun l hl => hreadable l (hmem l hl)
  rw [hload, derivedLines, List.map_map]
  rfl

/-- Every label is kept once just where nothing written harms an export or the record. -/
theorem kept_iff_unharmed (hmatches : Matches maxWeightMatching)
    (h : deriveNewHoles norm maxWeightMatching float abspath files beforeLabels afterLabels (.ok photographs) =
      .ok result) (beforeImage afterImage outDir : String) :
    (∃ files', writeDerived abspath result beforeImage beforeLabels afterImage afterLabels files outDir = .ok files' ∧
      Kept norm maxWeightMatching float abspath files beforeLabels afterLabels photographs result outDir files') ↔
      Unharmed abspath files beforeLabels afterLabels result outDir beforeImage afterImage := by
  obtain ⟨⟨text, hafter, hlines, hreadable⟩, ⟨beforeText, hbefore⟩, hparts, hrefit, hnew⟩ :=
    deriveNewHoles_ok hmatches h
  obtain ⟨files', hwrite, hderived, hsource, hrawBefore, hrawAfter⟩ :=
    writeDerived_ok result beforeImage afterImage outDir hbefore hafter
  have hfield : sourceField files' ⟨outDir, DERIVED_NAME⟩ PRE_EXISTING_FIELD =
      (((strayLines abspath beforeImage beforeLabels afterImage afterLabels).find? fun line =>
        fieldKey line = PRE_EXISTING_FIELD.toList).or
          (some (PRE_EXISTING_FIELD.toList ++ ':' :: ' ' :: (recorded result.preExisting ++ ['\n'])))).map
            fieldValue := by
    rw [sourceField, hsource, Option.bind_some, fileLines_ended, find_sourceLines]
  have hnames : (⟨outDir, DERIVED_NAME⟩ : File) ≠ ⟨outDir, RAW_BEFORE_NAME⟩ := file_ne outDir (by decide)
  constructor
  · rintro ⟨written, hwritten, hkept⟩
    obtain rfl := Except.ok.inj (hwrite.symm.trans hwritten)
    have hB := Option.some.inj ((hrawBefore.symm.trans hkept.rawBefore).trans hbefore)
    have hA := Option.some.inj ((hrawAfter.symm.trans hkept.rawAfter).trans hafter)
    refine ⟨fun hpath => ?_, fun hpath => ?_, fun hpath => ?_, fun line hline => ?_⟩
    · rw [hbefore, ← hB, afterDerived, if_pos hpath]
    · rw [hafter, ← hA, if_neg (fun heq => hnames (hpath.symm.trans heq)), afterDerived, if_pos hpath]
    · rw [hafter, ← hA, if_pos hpath, hB, hbefore]
    · have hrecorded := hfield.symm.trans hkept.recorded
      rw [hline] at hrecorded
      exact Option.some.inj hrecorded
  · intro hunharmed
    have hB : afterDerived abspath result outDir beforeLabels beforeText = beforeText := by
      unfold afterDerived
      split_ifs with hpath
      · exact Option.some.inj ((hunharmed.derivedBefore hpath).symm.trans hbefore)
      · rfl
    have hA : afterDerived abspath result outDir afterLabels text = text := by
      unfold afterDerived
      split_ifs with hpath
      · exact Option.some.inj ((hunharmed.derivedAfter hpath).symm.trans hafter)
      · rfl
    have hkeptAfter : files' ⟨outDir, RAW_AFTER_NAME⟩ = some text := by
      rw [hrawAfter, hA, hB]
      split_ifs with hpath
      · rw [← hbefore, ← hunharmed.rawBefore hpath, hafter]
      · rfl
    have hrecorded : sourceField files' ⟨outDir, DERIVED_NAME⟩ PRE_EXISTING_FIELD =
        some (recorded result.preExisting) := by
      rw [hfield]
      cases hline : (strayLines abspath beforeImage beforeLabels afterImage afterLabels).find? fun line =>
          fieldKey line = PRE_EXISTING_FIELD.toList with
      | none =>
        have hkey : PlainKey PRE_EXISTING_FIELD.toList := by decide
        rw [Option.none_or, Option.map_some, fieldValue_append hkey, strip_padded (unspaced_recorded _)]
      | some line => exact congrArg some (hunharmed.stray line hline)
    exact ⟨files', hwrite, {
      rawBefore := by rw [hrawBefore, hB, hbefore]
      rawAfter := hkeptAfter.trans hafter.symm
      exported := ⟨text, hafter, hlines⟩
      parts := hparts
      derived := hderived
      recorded := hrecorded
      labels := loadLabels_derived hderived hlines hreadable hparts
      preExisting := preExistingLabels_ok hkeptAfter hrecorded hlines hreadable hparts
      refit := ⟨hrefit, hnew⟩ }⟩

omit [Field R] [LinearOrder R] [FloorRing R] in
/-- Exports apart from what is written, and paths that bring no lines. -/
theorem unharmed_of_apart (hbefore : abspath beforeLabels ≠ ⟨outDir, DERIVED_NAME⟩)
    (hafter : abspath afterLabels ≠ ⟨outDir, DERIVED_NAME⟩) (hraw : abspath afterLabels ≠ ⟨outDir, RAW_BEFORE_NAME⟩)
    (hstray : strayLines abspath beforeImage beforeLabels afterImage afterLabels = []) :
    Unharmed abspath files beforeLabels afterLabels result outDir beforeImage afterImage where
  derivedBefore h := absurd h hbefore
  derivedAfter h := absurd h hafter
  rawBefore h := absurd h hraw
  stray := by
    rw [hstray]
    intro line hline
    cases hline

end

/-- networkx's matching of a graph of one edge. -/
def firstEdge (V : Type) [DecidableEq V] (graph : WeightedGraph V ℚ) : List (V × V) :=
  (graph.head?.map fun e => e.1).toList

theorem matches_firstEdge : Matches firstEdge := by
  intro V _ graph _
  cases graph with
  | nil => exact ⟨fun _ h => absurd h List.not_mem_nil, List.Pairwise.nil⟩
  | cons e graph =>
    refine ⟨fun p hp => ⟨e, List.mem_cons_self, .inl (List.mem_singleton.mp hp)⟩, List.pairwise_singleton _ _⟩

/-- numpy's norm of a vector along an axis. -/
def axisNorm (v : ℚ × ℚ) : ℚ := |v.1| + |v.2|

def tenths (t : Text) : Option ℚ :=
  [("0.1".toList, (1 / 10 : ℚ)), ("0.2".toList, 2 / 10), ("0.5".toList, 5 / 10)].lookup t

/-- Paths from `/truth`. -/
def truthPath (p : String) : File :=
  if p = "out/board.new.txt" then ⟨"/truth/out", "board.new.txt"⟩ else ⟨"/truth", p⟩

def beforeExport : Text := "0 0.1 0.1 0.2 0.2\n".toList

def afterExport : Text := "0 0.1 0.1 0.2 0.2\n\n0 0.5 0.1 0.2 0.2\n".toList

def truthFiles (file : File) : Option Text :=
  if file = ⟨"/truth", "before.txt"⟩ then some beforeExport
  else if file = ⟨"/truth", "after.txt"⟩ ∨ file = ⟨"/truth/out", "board.new.txt"⟩ then some afterExport
  else none

def samePlace : Photographs ℚ where
  beforeSize := (1000, 1000)
  afterSize := (1000, 1000)
  register := id
  correlation := 9 / 10
  reach := 40
  estimateAffinePartial2D := fun _ _ => none

def oneNew : Derived ℚ where
  lines := ["0 0.1 0.1 0.2 0.2".toList, "0 0.5 0.1 0.2 0.2".toList]
  beforeLines := ["0 0.1 0.1 0.2 0.2".toList]
  new := [1]
  preExisting := [0]
  onlyBefore := []
  correlation := 9 / 10
  tolerancePx := 40
  refitted := false
  distances := [0]

private theorem deriveNewHoles_oneNew :
    deriveNewHoles axisNorm firstEdge tenths truthPath truthFiles "before.txt" "after.txt" (.ok samePlace) =
      .ok oneNew := by
  decide +kernel

theorem kept_iff_unharmed_oneNew :
    ∃ files', writeDerived truthPath oneNew "before.jpeg" "before.txt" "after.jpeg" "after.txt" truthFiles
        "/truth/out" = .ok files' ∧
      Kept axisNorm firstEdge tenths truthPath truthFiles "before.txt" "after.txt" samePlace oneNew "/truth/out"
        files' :=
  (kept_iff_unharmed matches_firstEdge deriveNewHoles_oneNew "before.jpeg" "after.jpeg" "/truth/out").mpr
    (unharmed_of_apart (by decide) (by decide) (by decide) (by decide))

/-- The after export where the derived file goes is written over, and then kept as it was written. -/
theorem not_kept : ¬ ∀ (norm : ℚ × ℚ → ℚ)
    (maxWeightMatching : (V : Type) → [DecidableEq V] → WeightedGraph V ℚ → List (V × V)) (float : Text → Option ℚ)
    (abspath : String → File) (files : Files) (beforeImage beforeLabels afterImage afterLabels outDir : String)
    (photographs : Photographs ℚ) (result : Derived ℚ), Matches maxWeightMatching →
    deriveNewHoles norm maxWeightMatching float abspath files beforeLabels afterLabels (.ok photographs) = .ok result →
    ∃ files', writeDerived abspath result beforeImage beforeLabels afterImage afterLabels files outDir = .ok files' ∧
      Kept norm maxWeightMatching float abspath files beforeLabels afterLabels photographs result outDir files' := by
  intro h
  obtain ⟨files', hwrite, hkept⟩ := h axisNorm firstEdge tenths truthPath truthFiles "before.jpeg"
    "before.txt" "after.jpeg" "out/board.new.txt" "/truth/out" samePlace oneNew matches_firstEdge (by decide +kernel)
  have hbefore : truthFiles (truthPath "before.txt") = some beforeExport := by decide
  have hafter : truthFiles (truthPath "out/board.new.txt") = some afterExport := by decide
  obtain ⟨written, hwritten, -, -, -, hraw⟩ :=
    writeDerived_ok oneNew "before.jpeg" "after.jpeg" "/truth/out" hbefore hafter
  obtain rfl := Except.ok.inj (hwritten.symm.trans hwrite)
  have hkeptRaw := hraw.symm.trans (hkept.rawAfter.trans hafter)
  exact absurd hkeptRaw (by decide)

end Kanat.DerivedTruth
