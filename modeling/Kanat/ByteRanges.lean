import Kanat.PlainTexts

/-! # Byte ranges

`core/ranges.py`, and the ranges of bytes RFC 9110 writes. A file keeps its bytes while it is sent. -/
namespace Kanat.ByteRanges
open PlainTexts

inductive Failure where
  | unsatisfiable
  | valueError
  deriving DecidableEq

/-- `int(digits)`; Python reads no longer ones. -/
def readInt (digits : List Char) : Except Failure ℕ :=
  if 4300 < digits.length then .error .valueError else .ok (valueOf digits)

/-- `([0-9]*)-([0-9]*)` -/
def fullmatch (l : List Char) : Option (List Char × List Char) :=
  match l.dropWhile Char.isDigit with
  | '-' :: last => if last.all Char.isDigit then some (l.takeWhile Char.isDigit, last) else none
  | _ => none

/-- What stands for the first range of a header. -/
def firstRange (header : Option String) : Option (List Char) :=
  match header with
  | none => none
  | some header =>
    if "bytes=".toList <+: header.toList then
      some (strip isspace ((header.toList.drop "bytes=".length).takeWhile (· ≠ ',')))
    else none

/-- The first and last byte for a range's two groups, not both empty. -/
def bounds (first last : List Char) (size : ℕ) : Except Failure (ℤ × ℤ) :=
  if first = [] then do
    let n ← readInt last
    if n ≤ 0 then throw .unsatisfiable
    return (max ((size : ℤ) - n) 0, (size : ℤ) - 1)
  else do
    let start ← readInt first
    let stop ← if last = [] then pure ((size : ℤ) - 1) else (readInt last).map fun n => (n : ℤ)
    if size ≤ start ∨ stop < start then throw .unsatisfiable
    return ((start : ℤ), min stop ((size : ℤ) - 1))

/-- `none` sends the whole file. -/
def parseRange (header : Option String) (size : ℕ) : Except Failure (Option (ℤ × ℤ)) :=
  match (firstRange header).bind fullmatch with
  | none => .ok none
  | some (first, last) => if first = [] ∧ last = [] then .ok none else (bounds first last size).map some

def chunk : ℕ := 256 * 1024

/-- `_read`'s loop, from where the file is read on. -/
def readLoop (content : List UInt8) (remaining : ℕ) : List (List UInt8) :=
  if _hr : remaining = 0 then []
  else
    let data := content.take (min chunk remaining)
    if _hd : data = [] then [] else data :: readLoop (content.drop data.length) (remaining - data.length)
termination_by remaining
decreasing_by exact Nat.sub_lt (Nat.pos_of_ne_zero _hr) (List.length_pos_of_ne_nil _hd)

def read (content : List UInt8) (start stop : ℤ) : List (List UInt8) :=
  readLoop (content.drop start.toNat) (stop - start + 1).toNat

structure Response where
  status : ℕ
  headers : List (String × String)
  mediaType : Option String
  body : List (List UInt8)
  deriving DecidableEq

def fileResponse (content : List UInt8) (rangeHeader : Option String) (mediaType : String) : Except Failure Response :=
  let size := content.length
  match parseRange rangeHeader size with
  | .error .unsatisfiable => .ok ⟨416, [("Content-Range", "bytes */" ++ toString size)], none, []⟩
  | .error .valueError => .error .valueError
  | .ok none => .ok ⟨200, [("Accept-Ranges", "bytes")], some mediaType, [content]⟩
  | .ok (some (start, stop)) => .ok {
      status := 206
      headers := [("Accept-Ranges", "bytes"),
        ("Content-Range", "bytes " ++ toString start ++ "-" ++ toString stop ++ "/" ++ toString size),
        ("Content-Length", toString (stop - start + 1))]
      mediaType := some mediaType
      body := read content start stop }

inductive RangeSpec where
  | int (firstPos : ℕ) (lastPos : Option ℕ)
  | suffix (suffixLength : ℕ)
  deriving DecidableEq

/-- `1*DIGIT` -/
def Number (l : List Char) (n : ℕ) : Prop := Digits l ∧ l ≠ [] ∧ valueOf l = n

namespace RangeSpec

def Writes : RangeSpec → List Char → Prop
  | int firstPos none, l => ∃ a, Number a firstPos ∧ l = a ++ ['-']
  | int firstPos (some lastPos), l => ∃ a b, Number a firstPos ∧ Number b lastPos ∧ l = a ++ '-' :: b
  | suffix n, l => ∃ b, Number b n ∧ l = '-' :: b

def reversed : RangeSpec → Bool
  | int firstPos (some lastPos) => lastPos < firstPos
  | int _ none | suffix _ => false

def satisfiable (size : ℕ) : RangeSpec → Bool
  | int firstPos _ => firstPos < size
  | suffix n => 0 < n

/-- The first and last byte selected. -/
def selected (size : ℕ) : RangeSpec → ℕ × ℕ
  | int firstPos none => (firstPos, size - 1)
  | int firstPos (some lastPos) => (firstPos, min lastPos (size - 1))
  | suffix n => (size - n, size - 1)

def ofGroups (first last : List Char) : Option RangeSpec :=
  if first = [] then if last = [] then none else some (suffix (valueOf last))
  else some (int (valueOf first) (if last = [] then none else some (valueOf last)))

end RangeSpec

variable {l a b : List Char} {spec : RangeSpec} {size : ℕ} {header : Option String}

theorem fullmatch_iff : fullmatch l = some (a, b) ↔ Digits a ∧ Digits b ∧ l = a ++ '-' :: b := by
  constructor
  · intro h
    unfold fullmatch at h
    split at h
    next last hl =>
      split at h
      next hlast =>
        obtain ⟨rfl, rfl⟩ := Prod.mk.inj (Option.some.inj h)
        refine ⟨fun c hc => List.mem_takeWhile_imp hc, List.all_eq_true.mp hlast, ?_⟩
        rw [← hl, List.takeWhile_append_dropWhile]
      next => cases h
    next => cases h
  · rintro ⟨ha, hb, rfl⟩
    have hd : (a ++ '-' :: b).dropWhile Char.isDigit = '-' :: b := by
      rw [List.dropWhile_append_of_pos ha, List.dropWhile_cons_of_neg (by decide)]
    have ht : (a ++ '-' :: b).takeWhile Char.isDigit = a := by
      rw [List.takeWhile_append_of_pos ha, List.takeWhile_cons_of_neg (by decide), List.append_nil]
    rw [fullmatch, hd]
    simp only [List.all_eq_true.mpr hb, if_true, ht]

theorem RangeSpec.ofGroups_eq_none_iff : RangeSpec.ofGroups a b = none ↔ a = [] ∧ b = [] := by
  unfold RangeSpec.ofGroups
  by_cases ha : a = []
  · by_cases hb : b = []
    · simp [ha, hb]
    · simp [ha, hb]
  · simp [ha]

/-- The pattern's groups are a range's numbers. -/
theorem writes_iff : spec.Writes l ↔ ∃ a b, fullmatch l = some (a, b) ∧ RangeSpec.ofGroups a b = some spec := by
  constructor
  · intro h
    cases spec with
    | int firstPos lastPos =>
      cases lastPos with
      | none =>
        obtain ⟨a, ⟨ha, hne, rfl⟩, rfl⟩ := h
        exact ⟨a, [], fullmatch_iff.mpr ⟨ha, digits_nil, rfl⟩, by simp [RangeSpec.ofGroups, hne]⟩
      | some lastPos =>
        obtain ⟨a, b, ⟨ha, hne, rfl⟩, ⟨hb, hne', rfl⟩, rfl⟩ := h
        exact ⟨a, b, fullmatch_iff.mpr ⟨ha, hb, rfl⟩, by simp [RangeSpec.ofGroups, hne, hne']⟩
    | suffix n =>
      obtain ⟨b, ⟨hb, hne, rfl⟩, rfl⟩ := h
      exact ⟨[], b, fullmatch_iff.mpr ⟨digits_nil, hb, rfl⟩, by simp [RangeSpec.ofGroups, hne]⟩
  · rintro ⟨a, b, hm, hs⟩
    obtain ⟨ha, hb, rfl⟩ := fullmatch_iff.mp hm
    by_cases hna : a = []
    · subst hna
      by_cases hnb : b = []
      · simp [RangeSpec.ofGroups, hnb] at hs
      · simp only [RangeSpec.ofGroups, if_true, if_neg hnb, Option.some.injEq] at hs
        subst hs
        exact ⟨b, ⟨hb, hnb, rfl⟩, rfl⟩
    · simp only [RangeSpec.ofGroups, if_neg hna, Option.some.injEq] at hs
      subst hs
      by_cases hnb : b = []
      · subst hnb
        exact ⟨a, ⟨ha, hna, rfl⟩, rfl⟩
      · rw [if_neg hnb]
        exact ⟨a, b, ⟨ha, hna, rfl⟩, ⟨hb, hnb, rfl⟩, rfl⟩

/-- No number in the text has more digits than Python reads. -/
def Readable (l : List Char) : Prop := ∀ ds, ds <:+: l → Digits ds → ds.length ≤ 4300

theorem readInt_eq (h : a.length ≤ 4300) : readInt a = .ok (valueOf a) := if_neg (by omega)

theorem readable_groups (h : Readable l) (hm : fullmatch l = some (a, b)) : a.length ≤ 4300 ∧ b.length ≤ 4300 := by
  obtain ⟨ha, hb, rfl⟩ := fullmatch_iff.mp hm
  exact ⟨h a (List.prefix_append _ _).isInfix ha, h b ⟨a ++ ['-'], [], by simp⟩ hb⟩

/-- Read, a range is refused if it is not satisfiable or reversed, and else bounded as selected. -/
theorem bounds_eq (ha : a.length ≤ 4300) (hb : b.length ≤ 4300) (hs : RangeSpec.ofGroups a b = some spec)
    (hsize : ∀ n, spec = .suffix n → 0 < n → 0 < size) : bounds a b size =
      if spec.satisfiable size && !spec.reversed then
        .ok (((spec.selected size).1 : ℤ), ((spec.selected size).2 : ℤ))
      else .error .unsatisfiable := by
  unfold bounds
  by_cases hna : a = []
  · subst hna
    by_cases hnb : b = []
    · simp [RangeSpec.ofGroups, hnb] at hs
    · simp only [RangeSpec.ofGroups, if_true, if_neg hnb, Option.some.injEq] at hs
      subst hs
      simp only [if_true, readInt_eq hb]
      by_cases hn : valueOf b = 0
      · simp [hn, RangeSpec.satisfiable, RangeSpec.reversed, throw, throwThe, MonadExceptOf.throw, bind, Except.bind]
      · have hpos := hsize _ rfl (Nat.pos_of_ne_zero hn)
        have hl : max ((size : ℤ) - valueOf b) 0 = ((size - valueOf b : ℕ) : ℤ) := by omega
        have hu : (size : ℤ) - 1 = ((size - 1 : ℕ) : ℤ) := by omega
        simp [hn, RangeSpec.satisfiable, RangeSpec.reversed, RangeSpec.selected, bind, Except.bind, hl, hu,
          Nat.pos_of_ne_zero hn, pure, Except.pure]
  · simp only [RangeSpec.ofGroups, if_neg hna, Option.some.injEq] at hs
    subst hs
    simp only [if_neg hna, readInt_eq ha, bind, Except.bind]
    by_cases hstart : valueOf a < size
    · have hu : (size : ℤ) - 1 = ((size - 1 : ℕ) : ℤ) := by omega
      by_cases hnb : b = []
      · have hlt : valueOf a ≤ size - 1 := by omega
        simp [hnb, RangeSpec.satisfiable, RangeSpec.reversed, RangeSpec.selected, pure, Except.pure, hstart, hlt,
          Nat.not_le.mpr hstart, hu]
      · by_cases hle : valueOf a ≤ valueOf b
        · simp [hnb, readInt_eq hb, Except.map, RangeSpec.satisfiable, RangeSpec.reversed, RangeSpec.selected, hstart,
            hle, hu, pure, Except.pure, Nat.not_le.mpr hstart]
        · simp [hnb, readInt_eq hb, Except.map, RangeSpec.satisfiable, RangeSpec.reversed, Nat.not_le.mp hle,
            pure, Except.pure, throw, throwThe, MonadExceptOf.throw]
    · by_cases hnb : b = []
      · simp [hnb, RangeSpec.satisfiable, pure, Except.pure, hstart, Nat.not_lt.mp hstart, throw, throwThe,
          MonadExceptOf.throw]
      · simp [hnb, readInt_eq hb, Except.map, RangeSpec.satisfiable, hstart, Nat.not_lt.mp hstart, pure,
          Except.pure, throw, throwThe, MonadExceptOf.throw]

/-- What a satisfiable range selects lies in the file. -/
theorem selected_bounds (hs : spec.satisfiable size = true) (hr : spec.reversed = false)
    (hsize : ∀ n, spec = .suffix n → 0 < n → 0 < size) :
    (spec.selected size).1 ≤ (spec.selected size).2 ∧ (spec.selected size).2 < size := by
  cases spec with
  | int firstPos lastPos =>
    simp only [RangeSpec.satisfiable, decide_eq_true_eq] at hs
    cases lastPos with
    | none =>
      simp only [RangeSpec.selected]
      omega
    | some lastPos =>
      simp only [RangeSpec.reversed, decide_eq_false_iff_not] at hr
      simp only [RangeSpec.selected]
      omega
  | suffix n =>
    simp only [RangeSpec.satisfiable, decide_eq_true_eq] at hs
    have := hsize n rfl hs
    simp only [RangeSpec.selected]
    omega

/-- The loop stops at the last byte wanted. -/
theorem flatten_readLoop (content : List UInt8) (remaining : ℕ) :
    (readLoop content remaining).flatten = content.take remaining := by
  fun_induction readLoop content remaining with
  | case1 content => simp
  | case2 content remaining hr data hd =>
    have hc : content = [] := by
      have hlen := congrArg List.length hd
      simp only [data, List.length_take, List.length_nil, chunk] at hlen
      exact List.length_eq_zero_iff.mp (by omega)
    simp [hc]
  | case3 content remaining hr data hd ih =>
    have hdata : data = content.take data.length := List.prefix_iff_eq_take.mp (List.take_prefix _ _)
    have hle : data.length ≤ remaining := by
      simp only [data, List.length_take]
      omega
    calc data ++ (readLoop (content.drop data.length) (remaining - data.length)).flatten
        = content.take data.length ++ (content.drop data.length).take (remaining - data.length) := by rw [ih, ← hdata]
      _ = content.take remaining := by rw [← List.take_add, Nat.add_sub_cancel' hle]

theorem flatten_read (content : List UInt8) {start stop : ℕ} (h : start ≤ stop) :
    (read content start stop).flatten = (content.drop start).take (stop + 1 - start) := by
  have hn : ((stop : ℤ) - start + 1).toNat = stop + 1 - start := by omega
  rw [read, flatten_readLoop, hn, Int.toNat_natCast]

private theorem parseRange_eq_none_iff : parseRange header size = .ok none ↔
    ∀ l spec, firstRange header = some l → ¬RangeSpec.Writes spec l := by
  constructor
  · intro h l spec hf hw
    obtain ⟨a, b, hm, hs⟩ := writes_iff.mp hw
    have hne : ¬(a = [] ∧ b = []) := fun hab => by simp [RangeSpec.ofGroups_eq_none_iff.mpr hab] at hs
    simp only [parseRange, hf, Option.bind_some, hm, if_neg hne] at h
    cases hb : bounds a b size with
    | error e => simp [hb, Except.map] at h
    | ok range => simp [hb, Except.map] at h
  · intro h
    unfold parseRange
    split
    next => rfl
    next a b hg =>
      obtain ⟨l, hf, hm⟩ := Option.bind_eq_some_iff.mp hg
      have hnone : RangeSpec.ofGroups a b = none := by
        apply Option.eq_none_iff_forall_ne_some.mpr
        intro spec hs
        exact h l spec hf (writes_iff.mpr ⟨a, b, hm, hs⟩)
      exact if_pos (RangeSpec.ofGroups_eq_none_iff.mp hnone)

/-- A range that is written is parsed to its bounds. -/
theorem parseRange_eq (hf : firstRange header = some l) (hw : spec.Writes l) (hl : Readable l)
    (hsize : ∀ n, spec = .suffix n → 0 < n → 0 < size) : parseRange header size =
      if spec.satisfiable size && !spec.reversed then
        .ok (some (((spec.selected size).1 : ℤ), ((spec.selected size).2 : ℤ)))
      else .error .unsatisfiable := by
  obtain ⟨a, b, hm, hs⟩ := writes_iff.mp hw
  obtain ⟨ha, hb⟩ := readable_groups hl hm
  have hne : ¬(a = [] ∧ b = []) := fun hab => by simp [RangeSpec.ofGroups_eq_none_iff.mpr hab] at hs
  simp only [parseRange, hf, Option.bind_some, hm, if_neg hne, bounds_eq ha hb hs hsize]
  split <;> rfl

/-- The whole file is sent iff no range is written; one that is reversed or not satisfiable is refused, and of any
other one exactly the bytes it selects are sent. -/
theorem byte_ranges_exact (header : Option String) (size : ℕ) :
    (parseRange header size = .ok none ↔ ∀ l spec, firstRange header = some l → ¬RangeSpec.Writes spec l) ∧
    ∀ l spec, firstRange header = some l → RangeSpec.Writes spec l → Readable l →
      (∀ n, spec = .suffix n → 0 < n → 0 < size) →
      (parseRange header size = .error .unsatisfiable ↔ spec.satisfiable size = false ∨ spec.reversed = true) ∧
      (spec.satisfiable size = true → spec.reversed = false → ∃ start stop : ℕ,
        spec.selected size = (start, stop) ∧ start ≤ stop ∧ stop < size ∧
        parseRange header size = .ok (some ((start : ℤ), (stop : ℤ))) ∧
        ∀ (content : List UInt8) (mediaType : String), content.length = size → ∃ body,
          fileResponse content header mediaType = .ok {
            status := 206
            headers := [("Accept-Ranges", "bytes"),
              ("Content-Range", "bytes " ++ toString start ++ "-" ++ toString stop ++ "/" ++ toString size),
              ("Content-Length", toString (stop + 1 - start))]
            mediaType := some mediaType
            body } ∧
          body.flatten = (content.drop start).take (stop + 1 - start) ∧ body.flatten.length = stop + 1 - start) := by
  refine ⟨parseRange_eq_none_iff, fun l spec hf hw hl hsize => ?_⟩
  have hp := parseRange_eq hf hw hl hsize
  constructor
  · rw [hp]
    cases spec.satisfiable size <;> cases spec.reversed <;> simp
  · intro hs hr
    simp only [hs, hr, Bool.not_false, Bool.and_true, if_true] at hp
    obtain ⟨hle, hlt⟩ := selected_bounds hs hr hsize
    refine ⟨(spec.selected size).1, (spec.selected size).2, rfl, hle, hlt, hp, ?_⟩
    generalize (spec.selected size).1 = start at hp hle
    generalize (spec.selected size).2 = stop at hp hle hlt
    intro content mediaType hc
    have hn : (stop : ℤ) - start + 1 = ((stop + 1 - start : ℕ) : ℤ) := by omega
    refine ⟨read content start stop, ?_, flatten_read content hle, ?_⟩
    · simp only [fileResponse, hc, hp, hn]
      rfl
    · rw [flatten_read content hle, List.length_take, List.length_drop, hc]
      omega

theorem byte_ranges_exact_suffix : ∃ start stop : ℕ, RangeSpec.selected 10 (.suffix 4) = (start, stop) ∧
    parseRange (some "bytes=-4") 10 = .ok (some ((start : ℤ), (stop : ℤ))) := by
  have hw : RangeSpec.Writes (.suffix 4) ['-', '4'] := ⟨['4'], ⟨by decide, by decide, by decide⟩, rfl⟩
  have hl : Readable ['-', '4'] := fun ds hds _ => hds.length_le.trans (by decide)
  obtain ⟨start, stop, hsel, -, -, hp, -⟩ := ((byte_ranges_exact (some "bytes=-4") 10).2 _ _ (by decide) hw hl
    (fun _ _ _ => by decide)).2 rfl rfl
  exact ⟨start, stop, hsel, hp⟩

/-- A reversed range is refused, not ignored. -/
theorem not_whole_file_of_reversed : ¬∀ header size, parseRange header size = .ok none ↔
    ∀ l spec, firstRange header = some l → RangeSpec.Writes spec l → spec.reversed = true := by
  intro h
  have hp : parseRange (some "bytes=500-100") 1000 = .error .unsatisfiable := by decide
  have hf : firstRange (some "bytes=500-100") = some "500-100".toList := by decide
  have hm : fullmatch "500-100".toList = some ("500".toList, "100".toList) := by decide
  refine absurd ((h (some "bytes=500-100") 1000).mpr ?_) (by simp [hp])
  intro l spec hl hw
  obtain rfl := Option.some.inj (hf.symm.trans hl)
  obtain ⟨a, b, hm', hs⟩ := writes_iff.mp hw
  obtain ⟨rfl, rfl⟩ := Prod.mk.inj (Option.some.inj (hm.symm.trans hm'))
  have hs' : RangeSpec.ofGroups "500".toList "100".toList = some (.int 500 (some 100)) := by decide
  obtain rfl := Option.some.inj (hs'.symm.trans hs)
  rfl

end Kanat.ByteRanges
