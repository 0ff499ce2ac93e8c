import Kanat.Calendar
import Kanat.PlainTexts

/-! # Times as texts

How Python's `strftime` writes a time after a format and `strptime` reads one, of formats that have a year. Digits are
ASCII. The platform writes a year in so many digits at least. -/
namespace Kanat.TimeTexts
open Calendar PlainTexts

inductive Item where
  | char (c : Char)
  | year
  | month
  | day
  | hour
  | minute
  | second
  | microsecond
deriving DecidableEq

def directive : Char → Option Item
  | 'Y' => some .year
  | 'm' => some .month
  | 'd' => some .day
  | 'H' => some .hour
  | 'M' => some .minute
  | 'S' => some .second
  | 'f' => some .microsecond
  | '%' => some (.char '%')
  | _ => none

/-- The items of a format that has no other directives. -/
def items : List Char → Option (List Item)
  | [] => some []
  | ['%'] => none
  | '%' :: c :: fmt => (directive c).bind fun item => (items fmt).map fun fmt => item :: fmt
  | c :: fmt => (items fmt).map fun fmt => .char c :: fmt

def write (yearDigits : ℕ) (d : DateTime) : Item → List Char
  | .char c => [c]
  | .year => zeroPadded yearDigits d.year
  | .month => zeroPadded 2 d.month
  | .day => zeroPadded 2 d.day
  | .hour => zeroPadded 2 d.hour
  | .minute => zeroPadded 2 d.minute
  | .second => zeroPadded 2 d.second
  | .microsecond => zeroPadded 6 d.microsecond

def strftime (yearDigits : ℕ) (fmt : List Item) (d : DateTime) : List Char := fmt.flatMap (write yearDigits d)

def within (low high c : Char) : Bool := low ≤ c ∧ c ≤ high

/-- An item's regular expression: its alternatives in order, each what its characters are. Case is ignored. -/
def alternatives : Item → List (List (Char → Bool))
  | .char c => [[fun d => d.toLower = c.toLower]]
  | .year => [List.replicate 4 Char.isDigit]
  | .month => [[within '1' '1', within '0' '2'], [within '0' '0', within '1' '9'], [within '1' '9']]
  | .day => [[within '3' '3', within '0' '1'], [within '1' '2', Char.isDigit], [within '0' '0', within '1' '9'],
      [within '1' '9'], [within ' ' ' ', within '1' '9']]
  | .hour => [[within '2' '2', within '0' '3'], [within '0' '1', Char.isDigit], [Char.isDigit]]
  | .minute => [[within '0' '5', Char.isDigit], [Char.isDigit]]
  | .second => [[within '6' '6', within '0' '1'], [within '0' '5', Char.isDigit], [Char.isDigit]]
  | .microsecond => [6, 5, 4, 3, 2, 1].map fun digits => List.replicate digits Char.isDigit

/-- What an alternative takes of a text, and the rest of it. -/
def takes : List (Char → Bool) → List Char → Option (List Char × List Char)
  | [], t => some ([], t)
  | p :: alternative, c :: t => if p c then (takes alternative t).map fun taken => (c :: taken.1, taken.2) else none
  | _ :: _, [] => none

/-- The first way that all the items match, what each took and the rest of the text. -/
def matchItems : List Item → List Char → Option (List (Item × List Char) × List Char)
  | [], t => some ([], t)
  | item :: fmt, t => (alternatives item).findSome? fun alternative => (takes alternative t).bind fun taken =>
      (matchItems fmt taken.2).map fun found => ((item, taken.1) :: found.1, found.2)

def number (found : List (Item × List Char)) (item : Item) (default : ℕ) : ℕ :=
  match found.lookup item with
  | some t => valueOf (strip isspace t)
  | none => default

/-- The digits after a decimal point. -/
def fraction (found : List (Item × List Char)) : ℕ :=
  match found.lookup .microsecond with
  | some t => valueOf (t ++ List.replicate (6 - t.length) '0')
  | none => 0

/-- What `datetime` makes of its fields. -/
def datetime (year month day hour minute second microsecond : ℕ) : Option DateTime :=
  if h : 1 ≤ year ∧ year ≤ 9999 ∧ 1 ≤ month ∧ month ≤ 12 ∧ 1 ≤ day ∧ day ≤ daysInMonth year month ∧ hour < 24 ∧
      minute < 60 ∧ second < 60 ∧ microsecond < 1000000 then
    some {
      year := year
      month := month
      day := day
      year_pos := h.1
      month_pos := h.2.2.1
      month_le := h.2.2.2.1
      day_pos := h.2.2.2.2.1
      day_le := h.2.2.2.2.2.1
      hour := hour
      minute := minute
      second := second
      microsecond := microsecond
      year_le := h.2.1
      hour_lt := h.2.2.2.2.2.2.1
      minute_lt := h.2.2.2.2.2.2.2.1
      second_lt := h.2.2.2.2.2.2.2.2.1
      microsecond_lt := h.2.2.2.2.2.2.2.2.2 }
  else none

def strptime (fmt : List Item) (t : List Char) : Option DateTime :=
  (matchItems fmt t).bind fun found =>
    if found.2 = [] then
      datetime (number found.1 .year 1900) (number found.1 .month 1) (number found.1 .day 1) (number found.1 .hour 0)
        (number found.1 .minute 0) (number found.1 .second 0) (fraction found.1)
    else none

variable {yearDigits : ℕ} {d : DateTime} {fmt : List Item}

private theorem takes_append {alternative : List (Char → Bool)} {w : List Char} (h : alternative.length ≤ w.length)
    (rest : List Char) :
    takes alternative (w ++ rest) = (takes alternative w).map fun taken => (taken.1, taken.2 ++ rest) := by
  induction alternative generalizing w with
  | nil => rfl
  | cons p alternative ih =>
    cases w with
    | nil => simp at h
    | cons c w =>
      rw [List.cons_append, takes, takes]
      split_ifs
      · rw [ih (by simpa using h), Option.map_map, Option.map_map]
        rfl
      · rfl

theorem takes_replicate {p : Char → Bool} {w : List Char} (h : ∀ c ∈ w, p c) :
    takes (List.replicate w.length p) w = some (w, []) := by
  induction w with
  | nil => rfl
  | cons c w ih =>
    obtain ⟨hc, hw⟩ := List.forall_mem_cons.mp h
    rw [List.length_cons, List.replicate_succ, takes, if_pos hc, ih hw]
    rfl

/-- The first alternative that matches takes the whole text, and none is longer. -/
def Whole (item : Item) (w : List Char) : Prop :=
  (∀ alternative ∈ alternatives item, alternative.length ≤ w.length) ∧
    ((alternatives item).findSome? fun alternative => takes alternative w) = some (w, [])

instance (item : Item) (w : List Char) : Decidable (Whole item w) := inferInstanceAs (Decidable (_ ∧ _))

private theorem findSome?_of_whole {β : Type} {w rest : List Char} {k : List Char × List Char → Option β} {b : β}
    {ways : List (List (Char → Bool))} (hlength : ∀ alternative ∈ ways, alternative.length ≤ w.length)
    (hfirst : (ways.findSome? fun alternative => takes alternative w) = some (w, [])) (hk : k (w, rest) = some b) :
    (ways.findSome? fun alternative => (takes alternative (w ++ rest)).bind k) = some b := by
  induction ways with
  | nil => cases hfirst
  | cons alternative ways ih =>
    obtain ⟨hle, hways⟩ := List.forall_mem_cons.mp hlength
    rw [List.findSome?_cons] at hfirst ⊢
    rw [takes_append hle]
    cases htakes : takes alternative w with
    | none =>
      rw [htakes] at hfirst
      exact ih hways hfirst
    | some taken =>
      rw [htakes] at hfirst
      obtain rfl := Option.some.inj hfirst
      simp only [Option.map_some, List.nil_append, Option.bind_some, hk]

theorem length_year (hdigits : yearDigits ≤ 4) (hyear : 1000 ≤ d.year ∨ yearDigits = 4) :
    (write yearDigits d .year).length = 4 := by
  have hlt : d.year < 10 ^ 4 := d.year_le.trans_lt (by omega)
  have hle := (Nat.length_toDigits_le_iff (by omega : 1 < 10) (by omega : 0 < 4)).mpr hlt
  have hge : 1000 ≤ d.year → ¬ (Nat.toDigits 10 d.year).length ≤ 3 := fun hyear h =>
    absurd ((Nat.length_toDigits_le_iff (by omega) (by omega)).mp h) (by omega)
  rw [write, zeroPadded, List.length_append, List.length_replicate]
  omega

theorem whole_year (hyear : (write yearDigits d .year).length = 4) : Whole .year (write yearDigits d .year) := by
  have htakes := takes_replicate (digits_zeroPadded yearDigits d.year)
  rw [write] at hyear ⊢
  rw [hyear] at htakes
  refine ⟨fun alternative hmem => ?_, ?_⟩
  · rw [List.mem_singleton.mp hmem, List.length_replicate]
    exact hyear.ge
  · simp only [alternatives, List.findSome?_cons, htakes]

private theorem whole_microsecond : Whole .microsecond (write yearDigits d .microsecond) := by
  have hlength : (zeroPadded 6 d.microsecond).length = 6 := length_zeroPadded (by omega) d.microsecond_lt
  have htakes := takes_replicate (digits_zeroPadded 6 d.microsecond)
  rw [hlength] at htakes
  refine ⟨fun alternative hmem => ?_, ?_⟩
  · obtain ⟨digits, hdigits, rfl⟩ := List.mem_map.mp hmem
    have hle : ∀ digits ∈ [6, 5, 4, 3, 2, 1], digits ≤ 6 := by decide
    simpa only [List.length_replicate, write, hlength] using hle digits hdigits
  · simp only [alternatives, write, List.map_cons, List.findSome?_cons, htakes]

/-- Of every item the text written is the first that is read. -/
theorem whole_write (hyear : (write yearDigits d .year).length = 4) (item : Item) :
    Whole item (write yearDigits d item) := by
  have hday : d.day ≤ 31 := d.day_le.trans (daysInMonth_le _ _)
  cases item with
  | char c => simp [Whole, alternatives, write, takes]
  | year => exact whole_year hyear
  | month =>
    have hall : ∀ v < 13, 1 ≤ v → Whole .month (zeroPadded 2 v) := by decide
    exact hall d.month (Nat.lt_succ_of_le d.month_le) d.month_pos
  | day =>
    have hall : ∀ v < 32, 1 ≤ v → Whole .day (zeroPadded 2 v) := by decide
    exact hall d.day (Nat.lt_succ_of_le hday) d.day_pos
  | hour =>
    have hall : ∀ v < 24, Whole .hour (zeroPadded 2 v) := by decide
    exact hall d.hour d.hour_lt
  | minute =>
    have hall : ∀ v < 60, Whole .minute (zeroPadded 2 v) := by decide
    exact hall d.minute d.minute_lt
  | second =>
    have hall : ∀ v < 60, Whole .second (zeroPadded 2 v) := by decide
    exact hall d.second d.second_lt
  | microsecond => exact whole_microsecond

private theorem matchItems_strftime (hyear : (write yearDigits d .year).length = 4) (fmt : List Item) :
    matchItems fmt (strftime yearDigits fmt d) = some (fmt.map fun item => (item, write yearDigits d item), []) := by
  induction fmt with
  | nil => rfl
  | cons item fmt ih =>
    obtain ⟨hlength, hfirst⟩ := whole_write hyear item
    rw [strftime, List.flatMap_cons, matchItems]
    refine findSome?_of_whole hlength hfirst ?_
    rw [← strftime, ih]
    rfl

/-- Each item that a time has. -/
def Complete (fmt : List Item) : Prop :=
  ∀ item ∈ [Item.year, .month, .day, .hour, .minute, .second, .microsecond], item ∈ fmt

instance (fmt : List Item) : Decidable (Complete fmt) := List.decidableBAll _ _

theorem lookup_written {item : Item} (h : item ∈ fmt) :
    (fmt.map fun item => (item, write yearDigits d item)).lookup item = some (write yearDigits d item) := by
  induction fmt with
  | nil => cases h
  | cons other fmt ih =>
    rw [List.map_cons, List.lookup_cons]
    by_cases heq : item = other
    · simp [heq]
    · rw [beq_false_of_ne heq]
      exact ih ((List.mem_cons.mp h).resolve_left heq)

theorem number_written {item : Item} (hitem : item ∈ fmt) (hdigits : Digits (write yearDigits d item)) (default : ℕ) :
    number (fmt.map fun item => (item, write yearDigits d item)) item default = valueOf (write yearDigits d item) := by
  rw [number, lookup_written hitem]
  simp only [strip_of_digits hdigits]

private theorem fraction_written (h : Item.microsecond ∈ fmt) :
    fraction (fmt.map fun item => (item, write yearDigits d item)) = d.microsecond := by
  have hlength : (zeroPadded 6 d.microsecond).length = 6 := length_zeroPadded (by omega) d.microsecond_lt
  rw [fraction, lookup_written h]
  simp only [write, hlength, Nat.sub_self, List.replicate_zero, List.append_nil, valueOf_zeroPadded]

theorem datetime_fields (d : DateTime) :
    datetime d.year d.month d.day d.hour d.minute d.second d.microsecond = some d :=
  dif_pos ⟨d.year_pos, d.year_le, d.month_pos, d.month_le, d.day_pos, d.day_le, d.hour_lt, d.minute_lt, d.second_lt,
    d.microsecond_lt⟩

/-- A time written after a complete format, its year in four digits, is read back. -/
theorem strptime_strftime (hfmt : Complete fmt) (hyear : (write yearDigits d .year).length = 4) :
    strptime fmt (strftime yearDigits fmt d) = some d := by
  have hpadded := digits_zeroPadded 2
  rw [strptime, matchItems_strftime hyear, Option.bind_some, if_pos rfl,
    number_written (hfmt .year (by simp)) (digits_zeroPadded _ _), number_written (hfmt .month (by simp)) (hpadded _),
    number_written (hfmt .day (by simp)) (hpadded _), number_written (hfmt .hour (by simp)) (hpadded _),
    number_written (hfmt .minute (by simp)) (hpadded _), number_written (hfmt .second (by simp)) (hpadded _),
    fraction_written (hfmt .microsecond (by simp))]
  simp only [write, valueOf_zeroPadded]
  exact datetime_fields d

variable {d' : DateTime} {item : Item}

theorem notMem_strftime {c : Char} (hc : ¬c.isDigit) (hfmt : Item.char c ∉ fmt) : c ∉ strftime yearDigits fmt d := by
  intro hmem
  obtain ⟨item, hitem, hwritten⟩ := List.mem_flatMap.mp hmem
  cases item with
  | char other =>
    rw [List.mem_singleton.mp hwritten] at hfmt
    exact hfmt hitem
  | _ => exact hc (digits_zeroPadded _ _ c hwritten)

theorem length_write_eq (hitem : item ≠ .year) :
    (write yearDigits d item).length = (write yearDigits d' item).length := by
  have hlength {digits n n' : ℕ} (hdigits : 0 < digits) (hn : n < 10 ^ digits) (hn' : n' < 10 ^ digits) :
      (zeroPadded digits n).length = (zeroPadded digits n').length := by
    rw [length_zeroPadded hdigits hn, length_zeroPadded hdigits hn']
  cases item with
  | char c => rfl
  | year => exact absurd rfl hitem
  | month => exact hlength two_pos (d.month_le.trans_lt (by decide)) (d'.month_le.trans_lt (by decide))
  | day =>
    have hday {d : DateTime} : d.day < 10 ^ 2 := (d.day_le.trans (daysInMonth_le _ _)).trans_lt (by decide)
    exact hlength two_pos hday hday
  | hour => exact hlength two_pos (d.hour_lt.trans (by decide)) (d'.hour_lt.trans (by decide))
  | minute => exact hlength two_pos (d.minute_lt.trans (by decide)) (d'.minute_lt.trans (by decide))
  | second => exact hlength two_pos (d.second_lt.trans (by decide)) (d'.second_lt.trans (by decide))
  | microsecond => exact hlength (by decide) d.microsecond_lt d'.microsecond_lt

private theorem length_strftime_eq (hyear : Item.year ∉ fmt) :
    (strftime yearDigits fmt d).length = (strftime yearDigits fmt d').length := by
  induction fmt with
  | nil => rfl
  | cons item fmt ih =>
    obtain ⟨hitem, hfmt⟩ := List.ne_and_not_mem_of_not_mem_cons hyear
    have hwrite : (write yearDigits d item).length = (write yearDigits d' item).length :=
      length_write_eq (Ne.symm hitem)
    rw [strftime, strftime, List.flatMap_cons, List.flatMap_cons, List.length_append, List.length_append, hwrite]
    exact congrArg _ (ih hfmt)

theorem write_eq_of_strftime_eq (hyear : Item.year ∉ fmt) (h : strftime yearDigits fmt d = strftime yearDigits fmt d') :
    ∀ item ∈ fmt, write yearDigits d item = write yearDigits d' item := by
  induction fmt with
  | nil => exact fun _ hmem => absurd hmem List.not_mem_nil
  | cons item fmt ih =>
    obtain ⟨hitem, hfmt⟩ := List.ne_and_not_mem_of_not_mem_cons hyear
    obtain ⟨hwrite, hrest⟩ := List.append_inj h (length_write_eq (Ne.symm hitem))
    exact List.forall_mem_cons.mpr ⟨hwrite, ih hfmt hrest⟩

/-- Whatever digits the year is written in, if nothing is written before it. -/
theorem strftime_injective (hyear : Item.year ∉ fmt) (hfmt : Complete (.year :: fmt))
    (h : strftime yearDigits (.year :: fmt) d = strftime yearDigits (.year :: fmt) d') : d = d' := by
  obtain ⟨hwrite, hrest⟩ := List.append_inj' h (length_strftime_eq hyear)
  have hwritten : ∀ item ∈ Item.year :: fmt, write yearDigits d item = write yearDigits d' item :=
    List.forall_mem_cons.mpr ⟨hwrite, write_eq_of_strftime_eq hyear hrest⟩
  have hall : ∀ item ∈ Item.year :: fmt, valueOf (write yearDigits d item) = valueOf (write yearDigits d' item) :=
    fun item hitem => congrArg valueOf (hwritten item hitem)
  have hyears := hall .year (hfmt _ (by simp))
  have hmonth := hall .month (hfmt _ (by simp))
  have hday := hall .day (hfmt _ (by simp))
  have hhour := hall .hour (hfmt _ (by simp))
  have hminute := hall .minute (hfmt _ (by simp))
  have hsecond := hall .second (hfmt _ (by simp))
  have hmicrosecond := hall .microsecond (hfmt _ (by simp))
  simp only [write, valueOf_zeroPadded] at hyears hmonth hday hhour hminute hsecond hmicrosecond
  have hfields := datetime_fields d
  rw [hyears, hmonth, hday, hhour, hminute, hsecond, hmicrosecond] at hfields
  exact Option.some.inj (hfields.symm.trans (datetime_fields d'))

end Kanat.TimeTexts
