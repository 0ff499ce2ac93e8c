import Kanat.RegexpTexts

/-! # Trusted regular expressions

`_SAME_IN_GO` and `_go_regexp` of `services/mediamtx.py`: where the pieces of a text stand, and where its readers do. -/
namespace Kanat.TrustedRegexps
open PlainTexts Regexps RegexpTexts

def punctuation (c : Char) : Bool := within '!' '/' c || within ':' '@' c || within '[' '\x60' c || within '{' '~' c

/-- `_ESCAPE`, after the backslash -/
def isEscape (c : Char) : Bool := (perl c).isSome || punctuation c

/-- `(?:{_ESCAPE}|[^\\\[\]])*\]` -/
def bodyLength : List Sym → Option ℕ
  | [] => none
  | .escaped c :: rest => if isEscape c then (bodyLength rest).map (· + 1) else none
  | .plain c :: rest =>
    if c = ']' then some 1 else if c = '[' then none else (bodyLength rest).map (· + 1)

/-- `\d` of any script: `wide` are the decimal digits that are not ASCII. -/
def decimal (wide : Char → Bool) (c : Char) : Bool := c.isDigit || 128 ≤ c.toNat && wide c

/-- How many symbols the piece here is. A `^` that begins a class may also be all that is in it. -/
def sameInGo (wide : Char → Bool) : List Sym → Option ℕ
  | [] => none
  | .escaped c :: _ => if isEscape c then some 1 else none
  | .plain '[' :: rest => if rest.head? = some (.plain ']') then none else (bodyLength rest).map (· + 1)
  | .plain '(' :: .plain '?' :: .plain ':' :: _ => some 3
  | .plain '(' :: .plain '?' :: _ => none
  | .plain '{' :: rest => ((braces (decimal wide) rest).filter (·.1.min ≠ [])).map (·.2 + 1)
  | .plain c :: _ => if c = ']' ∨ c = '}' then none else some 1

/-- How much of a piece is left after its next symbol, or of the piece that this one begins. -/
def next (wide : Char → Bool) : ℕ → Sym → List Sym → Option ℕ
  | k + 1, _, _ => some k
  | 0, s, rest => (sameInGo wide (s :: rest)).map (· - 1)

/-- The pieces cover the text. -/
def covered (wide : Char → Bool) (k : ℕ) : List Sym → Bool
  | [] => k = 0
  | s :: rest =>
    match next wide k s rest with
    | none => false
    | some k => covered wide k rest

def trusted (wide : Char → Bool) (pattern : List Char) : Bool := (syms pattern).any (covered wide 0)

/-- `_go_regexp` -/
def goRegexp (wide : Char → Bool) (pattern : String) : Option (String → Bool) :=
  if trusted wide pattern.toList then
    match python.compile pattern.toList with
    | .error _ => none
    | .ok r => some fun name => search r name.toList
  else none

variable {digit : Char → Bool} {wide : Char → Bool} {rest rest' : List Sym} {s : Sym} {c : Char} {ds : List Char}
  {count : Count} {k k' n : ℕ}

theorem digits_append (hd : ∀ d ∈ ds, digit d = true) (hc : digit c = false) :
    digits digit (ds.map .plain ++ .plain c :: rest) = ds := by
  induction ds with
  | nil => simp [digits, hc]
  | cons d ds ih =>
    obtain ⟨hd, hds⟩ := List.forall_mem_cons.mp hd
    simp only [List.map_cons, List.cons_append, digits, hd, if_true, ih hds]

theorem digits_spec (digit : Char → Bool) (rest : List Sym) :
    rest = (digits digit rest).map .plain ++ rest.drop (digits digit rest).length ∧
      ∀ d ∈ digits digit rest, digit d = true := by
  induction rest with
  | nil => simp [digits]
  | cons s rest ih =>
    cases s with
    | escaped c => simp [digits]
    | plain c =>
      by_cases hc : digit c = true
      · simp only [digits, hc, if_true, List.map_cons, List.length_cons, List.drop_succ_cons, List.cons_append]
        exact ⟨congrArg _ ih.1, List.forall_mem_cons.mpr ⟨hc, ih.2⟩⟩
      · simp [digits, hc]

/-- The texts a count is read from. -/
def Counts (digit : Char → Bool) (count : Count) (n : ℕ) (rest : List Sym) : Prop :=
  (∀ d ∈ count.min, digit d = true) ∧ ∃ tail, match count.max with
    | none => rest = count.min.map .plain ++ .plain '}' :: tail ∧ n = count.min.length + 1
    | some max => (∀ d ∈ max, digit d = true) ∧
      rest = count.min.map .plain ++ .plain ',' :: (max.map .plain ++ .plain '}' :: tail) ∧
      n = count.min.length + max.length + 2

theorem braces_iff (hcomma : digit ',' = false) (hbrace : digit '}' = false) :
    braces digit rest = some (count, n) ↔ Counts digit count n rest := by
  constructor
  · intro h
    obtain ⟨hmin, hd⟩ := digits_spec digit rest
    dsimp only [braces] at h
    split at h
    next tail htail =>
      obtain ⟨rfl, rfl⟩ := Prod.mk.inj (Option.some.inj h)
      exact ⟨hd, tail, by rw [← htail]; exact hmin, rfl⟩
    next tail htail =>
      obtain ⟨hmax, hd'⟩ := digits_spec digit tail
      split at h
      next tail' htail' =>
        obtain ⟨rfl, rfl⟩ := Prod.mk.inj (Option.some.inj h)
        exact ⟨hd, tail', hd', by rw [← htail', ← hmax, ← htail]; exact hmin, rfl⟩
      next => cases h
    next => cases h
  · obtain ⟨min, max⟩ := count
    rintro ⟨hd, tail, h⟩
    cases max with
    | none =>
      obtain ⟨rfl, rfl⟩ := h
      simp [braces, digits_append hd hbrace]
    | some max =>
      obtain ⟨hd', rfl, rfl⟩ := h
      simp [braces, digits_append hd hcomma, digits_append hd' hbrace]

theorem decimal_of_isDigit (h : c.isDigit = true) : decimal wide c = true := by simp [decimal, h]

theorem braces_decimal (h : braces Char.isDigit rest = some (count, n)) :
    braces (decimal wide) rest = some (count, n) := by
  obtain ⟨hd, tail, h⟩ := (braces_iff (by decide) (by decide)).mp h
  refine (braces_iff (by simp [decimal]) (by simp [decimal])).mpr ⟨fun d hm => decimal_of_isDigit (hd d hm), tail, ?_⟩
  cases hm : count.max with
  | none =>
    rw [hm] at h
    exact h
  | some max =>
    rw [hm] at h
    exact ⟨fun d hm => decimal_of_isDigit (h.1 d hm), h.2⟩

/-- What is left of a count, or of `(?:`. -/
def flat (wide : Char → Bool) : Sym → Bool
  | .plain c => decimal wide c || c = ',' || c = '}' || c = '?' || c = ':'
  | .escaped _ => false

def Flat (wide : Char → Bool) (k : ℕ) (rest : List Sym) : Prop := ∀ s ∈ rest.take k, flat wide s = true

/-- Outside classes a reader stands where the pieces do, but in a class it may have begun with `[^]`. -/
def Aligned (wide : Char → Bool) (k : ℕ) (rest : List Sym) : Mode → Prop
  | .top n => k = n ∨ n = 0 ∧ Flat wide k rest
  | .opened => bodyLength rest = some k ∧ rest.head? ≠ some (.plain ']')
  | .within _ _ place 0 => bodyLength rest = some k ∨ Flat wide k rest ∧ place ≠ .first
  | .within _ _ place (n + 1) => k = n + 1 ∧ place ≠ .first

/-- A symbol with no escape but the trusted ones. -/
def legal : Sym → Bool
  | .plain _ => true
  | .escaped c => isEscape c

variable {r : Reader} {mode mode' : Mode} {out : List Token} {items items' : List ClassItem} {place place' : Place}

theorem flat_zero : Flat wide 0 rest := by simp [Flat]

theorem aligned_start : Aligned wide 0 rest (.top 0) := .inl rfl

theorem Flat.tail (h : Flat wide (k + 1) (s :: rest)) : Flat wide k rest := fun s' hs =>
  h s' (by rw [List.take_succ_cons]; exact List.mem_cons_of_mem _ hs)

theorem Flat.head (h : Flat wide (k + 1) (s :: rest)) : flat wide s = true := h s (by simp)

theorem flat_count (h : Counts (decimal wide) count n rest) : Flat wide n rest := by
  have hmap : ∀ ds : List Char, (∀ d ∈ ds, decimal wide d = true) → ∀ s ∈ ds.map Sym.plain, flat wide s = true := by
    intro ds hd s hs
    obtain ⟨d, hm, rfl⟩ := List.mem_map.mp hs
    simp [flat, hd d hm]
  obtain ⟨hd, tail, h⟩ := h
  cases hm : count.max with
  | none =>
    rw [hm] at h
    obtain ⟨rfl, rfl⟩ := h
    intro s hs
    have hs : s ∈ count.min.map Sym.plain ++ [.plain '}'] := by
      simpa [List.take_append, List.take_of_length_le] using hs
    rcases List.mem_append.mp hs with hs | hs
    · exact hmap _ hd s hs
    · rw [List.mem_singleton.mp hs]
      simp [flat]
  | some max =>
    rw [hm] at h
    obtain ⟨hd', rfl, rfl⟩ := h
    intro s hs
    have hlen : (count.min.map Sym.plain ++ Sym.plain ',' :: (max.map Sym.plain ++ [Sym.plain '}'])).length =
        count.min.length + max.length + 2 := by
      simp
      omega
    have heq : count.min.map Sym.plain ++ .plain ',' :: (max.map Sym.plain ++ .plain '}' :: tail) =
        (count.min.map Sym.plain ++ .plain ',' :: (max.map Sym.plain ++ [.plain '}'])) ++ tail := by simp
    rw [heq, ← hlen, List.take_left] at hs
    rcases List.mem_append.mp hs with hs | hs
    · exact hmap _ hd s hs
    · rcases List.mem_cons.mp hs with rfl | hs
      · simp [flat]
      · rcases List.mem_append.mp hs with hs | hs
        · exact hmap _ hd' s hs
        · rw [List.mem_singleton.mp hs]
          simp [flat]

theorem bodyLength_cons (h : bodyLength (s :: rest) = some k) : legal s = true ∧
    (s = .plain ']' ∧ k = 1 ∨ s ≠ .plain ']' ∧ s ≠ .plain '[' ∧ ∃ k', k = k' + 1 ∧ bodyLength rest = some k') := by
  cases s with
  | escaped c =>
    simp only [bodyLength] at h
    split at h
    next hc =>
      obtain ⟨k', hk, rfl⟩ := Option.map_eq_some_iff.mp h
      exact ⟨hc, .inr ⟨by simp, by simp, k', rfl, hk⟩⟩
    next => cases h
  | plain c =>
    refine ⟨rfl, ?_⟩
    simp only [bodyLength] at h
    split at h
    next hc =>
      subst hc
      exact .inl ⟨rfl, (Option.some.inj h).symm⟩
    next hc =>
      split at h
      next => cases h
      next hc' =>
        obtain ⟨k', hk, rfl⟩ := Option.map_eq_some_iff.mp h
        exact .inr ⟨by simpa using hc, by simpa using hc', k', rfl, hk⟩

/-- What the two readers have in common: a class's name alone is read further than a symbol, and to the end of its
piece. -/
structure Tame (r : Reader) : Prop where
  plain : ∀ c, r.member (.plain c) = .ok (.char c)
  escaped : ∀ c, isEscape c = true → ∃ m, r.member (.escaped c) = .ok m
  count : ∀ rest, r.count rest = none ∨ r.count rest = braces Char.isDigit rest
  head : ∀ items s rest, legal s = true → r.head items s rest = .error .malformed ∨
    ∃ items' place n, r.head items s rest = .ok (items', place, n) ∧ place ≠ .first ∧
      (n = 0 ∨ s = .plain '[' ∧ bodyLength rest = some n)

theorem Tame.member (hr : Tame r) (hs : legal s = true) : ∃ m, r.member s = .ok m := by
  cases s with
  | plain c => exact ⟨_, hr.plain c⟩
  | escaped c => exact hr.escaped c hs

/-- A class ends at a bracket that is not its first member, and only there. -/
theorem Tame.inside (hr : Tame r) (hs : legal s = true) (items : List ClassItem) (place : Place) (rest : List Sym) :
    r.inside items place s rest = .error .malformed ∨
    (∃ items', r.inside items place s rest = .ok (items', none) ∧ s = .plain ']' ∧ place ≠ .first) ∨
    ∃ items' place' n, r.inside items place s rest = .ok (items', some (place', n)) ∧ place' ≠ .first ∧
      (s = .plain ']' → place = .first) ∧ (n = 0 ∨ s = .plain '[' ∧ bodyLength rest = some n) := by
  have hhead : ∀ items : List ClassItem, (s = .plain ']' → place = .first) →
      ((r.head items s rest).map fun head => (head.1, some head.2)) = .error .malformed ∨
      ∃ items' place' n, ((r.head items s rest).map fun head => (head.1, some head.2)) =
        .ok (items', some (place', n)) ∧ place' ≠ .first ∧ (s = .plain ']' → place = .first) ∧
        (n = 0 ∨ s = .plain '[' ∧ bodyLength rest = some n) := by
    intro items hf
    rcases hr.head items s rest hs with h | ⟨items', place', n, h, hp, hn⟩
    · exact .inl (by rw [h]; rfl)
    · exact .inr ⟨items', place', n, by rw [h]; rfl, hp, hf, hn⟩
  cases place with
  | first =>
    rcases hhead items (fun _ => rfl) with h | h
    · exact .inl h
    · exact .inr (.inr h)
  | next =>
    by_cases hb : s = .plain ']'
    · exact .inr (.inl ⟨items, by simp [Reader.inside, hb], hb, by simp⟩)
    · simp only [Reader.inside, if_neg hb]
      rcases hhead items (fun h => absurd h hb) with h | h
      · exact .inl h
      · exact .inr (.inr h)
  | after m =>
    by_cases hd : s = .plain '-'
    · exact .inr (.inr ⟨items, .range m, 0, by simp [Reader.inside, hd], by simp, by simp [hd], .inl rfl⟩)
    · by_cases hb : s = .plain ']'
      · exact .inr (.inl ⟨items ++ [m.item], by simp [Reader.inside, hb], hb, by simp⟩)
      · simp only [Reader.inside, if_neg hd, if_neg hb]
        rcases hhead (items ++ [m.item]) (fun h => absurd h hb) with h | h
        · exact .inl h
        · exact .inr (.inr h)
  | range m =>
    by_cases hb : s = .plain ']'
    · exact .inr (.inl ⟨items ++ [m.item, .range '-' '-'], by simp [Reader.inside, hb], hb, by simp⟩)
    · obtain ⟨m', hm⟩ := hr.member hs
      simp only [Reader.inside, if_neg hb, hm]
      cases m with
      | perl p => exact .inl rfl
      | char lo =>
        cases m' with
        | perl p => exact .inl rfl
        | char hi =>
          by_cases hle : lo ≤ hi
          · exact .inr (.inr ⟨items ++ [.range lo hi], .next, 0, by simp [hle], by simp, fun h => absurd h hb, .inl rfl⟩)
          · exact .inl (by simp only [if_neg hle])

theorem sameInGo_cases (h : sameInGo wide (s :: rest) = some n) :
    (s = .plain '[' ∧ rest.head? ≠ some (.plain ']') ∧ ∃ k, n = k + 1 ∧ bodyLength rest = some k) ∨
    (s = .plain '(' ∧ n = 3 ∧ ∃ rest', rest = .plain '?' :: .plain ':' :: rest') ∨
    (s = .plain '{' ∧ ∃ count m, braces (decimal wide) rest = some (count, m) ∧ count.min ≠ [] ∧ n = m + 1) ∨
    (n = 1 ∧ legal s = true ∧ s ≠ .plain '[' ∧ s ≠ .plain ']' ∧ s ≠ .plain '{' ∧
      (s = .plain '(' → rest.head? ≠ some (.plain '?'))) := by
  unfold sameInGo at h
  split at h
  next => cases h
  next c rest' heq =>
    obtain ⟨rfl, rfl⟩ := List.cons.inj heq
    split at h
    next hc => exact .inr (.inr (.inr ⟨(Option.some.inj h).symm, hc, by simp⟩))
    next => cases h
  next rest' heq =>
    obtain ⟨rfl, rfl⟩ := List.cons.inj heq
    split at h
    next => cases h
    next hb =>
      obtain ⟨k, hk, rfl⟩ := Option.map_eq_some_iff.mp h
      exact .inl ⟨rfl, hb, k, rfl, hk⟩
  next rest' heq =>
    obtain ⟨rfl, rfl⟩ := List.cons.inj heq
    exact .inr (.inl ⟨rfl, (Option.some.inj h).symm, rest', rfl⟩)
  next => cases h
  next rest' heq =>
    obtain ⟨rfl, rfl⟩ := List.cons.inj heq
    obtain ⟨⟨count, m⟩, hf, rfl⟩ := Option.map_eq_some_iff.mp h
    obtain ⟨hb, hne⟩ := Option.filter_eq_some_iff.mp hf
    exact .inr (.inr (.inl ⟨rfl, count, m, hb, by simpa using hne, rfl⟩))
  next c rest' hclass hgroup hlook hcount heq =>
    obtain ⟨rfl, rfl⟩ := List.cons.inj heq
    split at h
    next => cases h
    next hc =>
      refine .inr (.inr (.inr ⟨(Option.some.inj h).symm, rfl, ?_, ?_, ?_, ?_⟩))
      · simpa using hclass
      · intro he
        exact hc (.inl (Sym.plain.inj he))
      · simpa using hcount
      · intro he hq
        obtain ⟨rest'', rfl⟩ := List.head?_eq_some_iff.mp hq
        exact hlook rest'' rfl (Sym.plain.inj he)

private theorem flat_piece (h : sameInGo wide (s :: rest) = some (k + 1)) (hs : s ≠ .plain '[') :
    s ≠ .plain ']' ∧ legal s = true ∧ Flat wide k rest := by
  rcases sameInGo_cases h with ⟨rfl, -⟩ | ⟨rfl, hn, rest', rfl⟩ | ⟨rfl, count, m, hb, -, hn⟩ | ⟨hn, hl, -, hb, -⟩
  · exact absurd rfl hs
  · obtain rfl : k = 2 := by omega
    exact ⟨by simp, rfl, by simp [Flat, flat]⟩
  · obtain rfl : k = m := by omega
    exact ⟨by simp, rfl, flat_count ((braces_iff (by simp [decimal]) (by simp [decimal])).mp hb)⟩
  · obtain rfl : k = 0 := by omega
    exact ⟨hb, hl, flat_zero⟩

theorem outside_plain {c : Char} (hclass : c ≠ '[') (hgroup : c ≠ '(') (hcount : c ≠ '{') :
    r.outside (.plain c) rest = .ok ([token c], .top 0) := by
  unfold Reader.outside
  split
  next he => cases he
  next he => exact absurd (Sym.plain.inj he) hclass
  next he => exact absurd (Sym.plain.inj he) hgroup
  next he => exact absurd (Sym.plain.inj he) hcount
  next he => rw [Sym.plain.inj he]

theorem flat_cases (h : flat wide s = true) : ∃ c, s = .plain c ∧ c ≠ '[' ∧ c ≠ ']' ∧ c ≠ '(' ∧ c ≠ '{' := by
  cases s with
  | escaped c => cases h
  | plain c =>
    refine ⟨c, rfl, ?_⟩
    refine ⟨?_, ?_, ?_, ?_⟩
    all_goals
      rintro rfl
      simp [flat, decimal] at h

/-- A piece outside a class is read to its end, or opens a class with what is left of it. -/
theorem Tame.outside (hr : Tame r) (h : sameInGo wide (s :: rest) = some (k + 1)) :
    ∃ out mode, r.outside s rest = .ok (out, mode) ∧ Aligned wide k rest mode := by
  rcases sameInGo_cases h with
    ⟨rfl, hb, m, hn, hm⟩ | ⟨rfl, hn, rest', rfl⟩ | ⟨rfl, count, m, hb, -, hn⟩ | ⟨hn, hl, hclass, -, hcount, hgroup⟩
  · obtain rfl : k = m := by omega
    exact ⟨[], .opened, rfl, hm, hb⟩
  · obtain rfl : k = 2 := by omega
    exact ⟨[.opening], .top 2, rfl, .inl rfl⟩
  · obtain rfl : k = m := by omega
    have hflat : Flat wide k rest := flat_count ((braces_iff (by simp [decimal]) (by simp [decimal])).mp hb)
    rcases hr.count rest with hc | hc
    · exact ⟨[.set (.literal '{')], .top 0, by simp [Reader.outside, hc], .inr ⟨rfl, hflat⟩⟩
    · cases ha : braces Char.isDigit rest with
      | none => exact ⟨[.set (.literal '{')], .top 0, by simp [Reader.outside, hc, ha], .inr ⟨rfl, hflat⟩⟩
      | some found =>
        obtain ⟨count', n⟩ := found
        obtain ⟨rfl, rfl⟩ := Prod.mk.inj (Option.some.inj ((braces_decimal ha).symm.trans hb))
        exact ⟨[.braces count'], .top n, by simp [Reader.outside, hc, ha], .inl rfl⟩
  · obtain rfl : k = 0 := by omega
    cases s with
    | escaped c =>
      obtain ⟨m, hm⟩ := hr.escaped c hl
      exact ⟨[.set ⟨false, [m.item]⟩], .top 0, by simp [Reader.outside, hm, Except.map], .inl rfl⟩
    | plain c =>
      by_cases hp : c = '('
      · subst hp
        have hq := hgroup rfl
        refine ⟨[.opening], .top 0, ?_, .inl rfl⟩
        simp only [Reader.outside]
        split
        next => exact absurd rfl hq
        next => exact absurd rfl hq
        next => rfl
      · exact ⟨[token c], .top 0, outside_plain (by simpa using hclass) hp (by simpa using hcount), .inl rfl⟩

/-- Where the reader stands in its class agrees with the piece, whether the piece is the class or the class began before
it. -/
theorem Tame.within (hr : Tame r) (hk : next wide k s rest = some k') {negated : Bool}
    (ha : Aligned wide k (s :: rest) (.within negated items place 0)) :
    r.within negated items place s rest = .error .malformed ∨
      ∃ out mode, r.within negated items place s rest = .ok (out, mode) ∧ Aligned wide k' rest mode := by
  have hcases : legal s = true ∧ (s = .plain ']' → place ≠ .first → k' = 0) ∧
      (bodyLength rest = some k' ∨ s ≠ .plain '[' ∧ Flat wide k' rest) := by
    rcases ha with hb | ⟨hf, hp⟩
    · obtain ⟨hl, ⟨rfl, rfl⟩ | ⟨hne, -, j, rfl, hj⟩⟩ := bodyLength_cons hb
      · obtain rfl := Option.some.inj hk
        exact ⟨hl, fun _ _ => rfl, .inr ⟨by simp, flat_zero⟩⟩
      · obtain rfl := Option.some.inj hk
        exact ⟨hl, fun h => absurd h hne, .inl hj⟩
    · cases k with
      | zero =>
        obtain ⟨n, hn, rfl⟩ := Option.map_eq_some_iff.mp hk
        by_cases hs : s = .plain '['
        · subst hs
          rcases sameInGo_cases hn with ⟨-, -, m, rfl, hm⟩ | ⟨he, -⟩ | ⟨he, -⟩ | ⟨-, -, he, -⟩
          · exact ⟨rfl, by simp, .inl hm⟩
          · simp at he
          · simp at he
          · exact absurd rfl he
        · have hpos : n = n - 1 + 1 := by
            rcases sameInGo_cases hn with ⟨-, -, m, rfl, -⟩ | ⟨-, rfl, -⟩ | ⟨-, _, m, -, -, rfl⟩ | ⟨rfl, -⟩ <;> rfl
          rw [hpos] at hn
          obtain ⟨hne, hl, hfl⟩ := flat_piece hn hs
          exact ⟨hl, fun h => absurd h hne, .inr ⟨hs, hfl⟩⟩
      | succ k =>
        obtain rfl := Option.some.inj hk
        obtain ⟨c, rfl, hc, hb, -⟩ := flat_cases hf.head
        exact ⟨rfl, fun h => absurd (Sym.plain.inj h) hb, .inr ⟨fun h => hc (Sym.plain.inj h), hf.tail⟩⟩
  obtain ⟨hl, hend, hrest⟩ := hcases
  rcases hr.inside hl items place rest with h | ⟨items', h, hs, hp⟩ | ⟨items', place', n, h, hp, -, hn⟩
  · exact .inl (by simp only [Reader.within, h, Except.map])
  · exact .inr ⟨[.set ⟨negated, items'⟩], .top 0, by simp only [Reader.within, h, Except.map], .inl (hend hs hp)⟩
  · refine .inr ⟨[], .within negated items' place' n, by simp only [Reader.within, h, Except.map], ?_⟩
    cases n with
    | zero =>
      rcases hrest with hb | ⟨-, hf⟩
      · exact .inl hb
      · exact .inr ⟨hf, hp⟩
    | succ n =>
      rcases hn with hn | ⟨hs, hn⟩
      · simp at hn
      · rcases hrest with hb | ⟨hne, -⟩
        · exact ⟨Option.some.inj (hb.symm.trans hn), hp⟩
        · exact absurd hs hne

theorem Tame.step (hr : Tame r) (hk : next wide k s rest = some k') (ha : Aligned wide k (s :: rest) mode) :
    r.step mode s rest = .error .malformed ∨
      ∃ out mode', r.step mode s rest = .ok (out, mode') ∧ Aligned wide k' rest mode' := by
  cases mode with
  | top n =>
    cases n with
    | succ n =>
      rcases ha with rfl | ⟨hn, -⟩
      · obtain rfl := Option.some.inj hk
        exact .inr ⟨[], .top n, rfl, .inl rfl⟩
      · cases hn
    | zero =>
      cases k with
      | zero =>
        obtain ⟨n, hn, rfl⟩ := Option.map_eq_some_iff.mp hk
        cases n with
        | zero => rcases sameInGo_cases hn with ⟨-, -, m, h, -⟩ | ⟨-, h, -⟩ | ⟨-, _, m, -, -, h⟩ | ⟨h, -⟩ <;> cases h
        | succ n => exact .inr (hr.outside hn)
      | succ k =>
        obtain rfl := Option.some.inj hk
        rcases ha with ha | ⟨-, hf⟩
        · cases ha
        · obtain ⟨c, rfl, hclass, -, hgroup, hcount⟩ := flat_cases hf.head
          exact .inr ⟨[token c], .top 0, outside_plain hclass hgroup hcount, .inr ⟨rfl, hf.tail⟩⟩
  | opened =>
    obtain ⟨hb, hne⟩ := ha
    by_cases hs : s = .plain '^'
    · subst hs
      obtain ⟨-, ⟨he, -⟩ | ⟨-, -, j, rfl, hj⟩⟩ := bodyLength_cons hb
      · simp at he
      · obtain rfl := Option.some.inj hk
        exact .inr ⟨[], .within true [] .first 0, rfl, .inl hj⟩
    · simp only [Reader.step, if_neg hs]
      exact hr.within hk (.inl hb)
  | within negated items place ahead =>
    cases ahead with
    | zero => exact hr.within hk ha
    | succ n =>
      obtain ⟨rfl, hp⟩ := ha
      obtain rfl := Option.some.inj hk
      refine .inr ⟨[], .within negated items place n, rfl, ?_⟩
      cases n with
      | zero => exact .inr ⟨flat_zero, hp⟩
      | succ n => exact ⟨rfl, hp⟩

/-- Pieces that cover a text hold nothing beyond what is read here. -/
theorem Tame.run (hr : Tame r) (hc : covered wide k rest = true) (ha : Aligned wide k rest mode) :
    r.run mode rest ≠ .error .beyond := by
  induction rest generalizing k mode with
  | nil =>
    simp only [Reader.run]
    split
    · simp
    · simp
  | cons s rest ih =>
    simp only [covered] at hc
    cases hk : next wide k s rest with
    | none => simp [hk] at hc
    | some k' =>
      rw [hk] at hc
      rcases hr.step hk ha with h | ⟨out, mode', h, ha'⟩
      · simp [Reader.run, h]
      · have hrun := ih hc ha'
        simp only [Reader.run, h]
        cases hres : r.run mode' rest with
        | error refusal =>
          rw [hres] at hrun
          exact hrun
        | ok ts => simp [Except.map]

variable {l tail : List Char} {name : List Char} {item : ClassItem}

private theorem closed_spec (h : Go.closed l = some name) : ∃ tail, l = name ++ ':' :: ']' :: tail := by
  induction l generalizing name with
  | nil => cases h
  | cons c l ih =>
    unfold Go.closed at h
    split at h
    next he => cases he
    next tail he =>
      obtain rfl := Option.some.inj h
      exact ⟨tail, he⟩
    next c' l' _ he =>
      obtain ⟨rfl, rfl⟩ := List.cons.inj he
      obtain ⟨name', hname, rfl⟩ := Option.map_eq_some_iff.mp h
      obtain ⟨tail, rfl⟩ := ih hname
      exact ⟨tail, rfl⟩

private theorem text_plain (h : text rest = name ++ tail) (hn : ∀ c ∈ name, c ≠ '\\') :
    ∃ rest', rest = name.map .plain ++ rest' ∧ text rest' = tail := by
  induction name generalizing rest with
  | nil => exact ⟨rest, rfl, h⟩
  | cons c name ih =>
    obtain ⟨hc, hn'⟩ := List.forall_mem_cons.mp hn
    cases rest with
    | nil => cases h
    | cons s rest =>
      cases s with
      | escaped d => exact absurd (List.cons.inj h).1.symm hc
      | plain d =>
        obtain ⟨rfl, h'⟩ := List.cons.inj h
        obtain ⟨rest', rfl, ht⟩ := ih h' hn'
        exact ⟨rest', rfl, ht⟩

/-- The names of classes are plain texts. -/
theorem posix_letters (h : Go.posix name = some item) : ∀ c ∈ name, c ≠ '\\' ∧ c ≠ '[' ∧ c ≠ ']' := by
  have hall : ∀ entry ∈ Go.posixNames, ∀ c ∈ entry.1.toList, c ≠ '\\' ∧ c ≠ '[' ∧ c ≠ ']' := by
    have hplain : Go.posixNames.all (fun entry => entry.1.toList.all fun c => c ≠ '\\' ∧ c ≠ '[' ∧ c ≠ ']') = true := by
      decide
    intro entry he c hc
    simpa using List.all_eq_true.mp (List.all_eq_true.mp hplain entry he) c hc
  have hfind : ∀ (l : List Char) (item : Posix → ClassItem) {found : ClassItem},
      (Go.posixNames.find? (·.1.toList = l)).map (fun entry => item entry.2) = some found →
      ∀ c ∈ l, c ≠ '\\' ∧ c ≠ '[' ∧ c ≠ ']' := by
    intro l item found h
    obtain ⟨entry, he, -⟩ := Option.map_eq_some_iff.mp h
    have hl : entry.1.toList = l := by simpa using List.find?_some he
    rw [← hl]
    exact hall entry (List.mem_of_find?_eq_some he)
  unfold Go.posix at h
  split at h
  next name' => exact List.forall_mem_cons.mpr ⟨by decide, hfind name' (.posix true) h⟩
  next => exact hfind name (.posix false) h

private theorem bodyLength_plain (hn : ∀ c ∈ name, c ≠ '[' ∧ c ≠ ']') :
    bodyLength (name.map .plain ++ rest) = (bodyLength rest).map (· + name.length) := by
  induction name with
  | nil => simp
  | cons c name ih =>
    obtain ⟨⟨hopen, hclose⟩, hn⟩ := List.forall_mem_cons.mp hn
    simp only [List.map_cons, List.cons_append, bodyLength, if_neg hopen, if_neg hclose, ih hn, Option.map_map,
      List.length_cons]
    rfl

/-- A class's name fills its piece. -/
theorem named_spec (h : Go.named s rest = some name) (hp : Go.posix name = some item) :
    s = .plain '[' ∧ bodyLength rest = some (name.length + 3) := by
  unfold Go.named at h
  split at h
  next rest' =>
    refine ⟨rfl, ?_⟩
    have hl := posix_letters hp
    obtain ⟨tail, ht⟩ := closed_spec h
    have hsplit : text rest' = (name ++ [':', ']']) ++ tail := by
      rw [ht]
      simp
    obtain ⟨rest'', rfl, -⟩ := text_plain hsplit fun c hc => by
      rcases List.mem_append.mp hc with hc | hc
      · exact (hl c hc).1
      · rcases List.mem_pair.mp hc with rfl | rfl <;> decide
    have hbody : bodyLength (.plain ':' :: ((name ++ [':', ']']).map .plain ++ rest'')) =
        some (name.length + 3) := by
      simp [bodyLength, bodyLength_plain fun c hc => (hl c hc).2]
      omega
    exact hbody
  next => cases h

theorem punctuation_spec (h : punctuation c = true) : c.isAlphanum = false ∧ c.toNat < 128 := by
  have hle : ∀ lo hi : Char, within lo hi c = true ↔ lo.toNat ≤ c.toNat ∧ c.toNat ≤ hi.toNat := by
    intro lo hi
    simp only [within, Bool.and_eq_true, decide_eq_true_eq]
    exact Iff.rfl
  simp only [punctuation, Bool.or_eq_true, hle] at h
  have h0 : '!'.toNat = 33 ∧ '/'.toNat = 47 ∧ ':'.toNat = 58 ∧ '@'.toNat = 64 ∧ '['.toNat = 91 ∧ '\x60'.toNat = 96 ∧
      '{'.toNat = 123 ∧ '~'.toNat = 126 := by decide
  refine ⟨Bool.eq_false_iff.mpr fun ha => ?_, by omega⟩
  have := isAlphanum_range ha
  omega

theorem python_escaped (hc : isEscape c = true) : ∃ m, Python.member (.escaped c) = .ok m := by
  simp only [Python.member]
  cases hp : perl c with
  | some p => exact ⟨.perl p, rfl⟩
  | none =>
    have hc : punctuation c = true := by simpa [isEscape, hp] using hc
    exact ⟨.char c, by simp [(punctuation_spec hc).1]⟩

theorem go_escaped (hc : isEscape c = true) : ∃ m, Go.member (.escaped c) = .ok m := by
  simp only [Go.member]
  cases hp : perl c with
  | some p => exact ⟨.perl p, rfl⟩
  | none =>
    have hc : punctuation c = true := by simpa [isEscape, hp] using hc
    exact ⟨.char c, by simp [punctuation_spec hc]⟩

theorem filter_braces (p : Count × ℕ → Bool) (rest : List Sym) :
    (braces Char.isDigit rest).filter p = none ∨ (braces Char.isDigit rest).filter p = braces Char.isDigit rest := by
  cases braces Char.isDigit rest with
  | none => exact .inl rfl
  | some found =>
    rw [Option.filter_some]
    split
    · exact .inr rfl
    · exact .inl rfl

theorem tame_python : Tame pythonReader where
  plain _ := rfl
  escaped _ := python_escaped
  count rest := filter_braces _ rest
  head items s rest hs := by
    simp only [pythonReader, Python.head]
    have hm : ∃ m, Python.member s = .ok m := by
      cases s with
      | plain c => exact ⟨.char c, rfl⟩
      | escaped c => exact python_escaped hs
    obtain ⟨m, hm⟩ := hm
    exact .inr ⟨items, .after m, 0, by simp [hm, Except.map], by simp, .inl rfl⟩

theorem tame_go : Tame goReader where
  plain _ := rfl
  escaped _ := go_escaped
  count rest := filter_braces _ rest
  head items s rest hs := by
    simp only [goReader, Go.head]
    cases hn : Go.named s rest with
    | some name =>
      cases hp : Go.posix name with
      | none => exact .inl (by simp [hp])
      | some item =>
        exact .inr ⟨items ++ [item], .next, name.length + 3, by simp [hp], by simp, .inr (named_spec hn hp)⟩
    | none =>
      have hm : ∃ m, Go.member s = .ok m := by
        cases s with
        | plain c => exact ⟨.char c, rfl⟩
        | escaped c => exact go_escaped hs
      obtain ⟨m, hm⟩ := hm
      cases m with
      | perl p => exact .inr ⟨items ++ [.perl p], .next, 0, by simp [hm, Except.map], by simp, .inl rfl⟩
      | char c => exact .inr ⟨items, .after (.char c), 0, by simp [hm, Except.map], by simp, .inl rfl⟩

end Kanat.TrustedRegexps
