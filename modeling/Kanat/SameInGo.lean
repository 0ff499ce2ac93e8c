import Kanat.CameraSyncConvergence
import Kanat.TrustedRegexps

/-! # The same in Go

Python and Go read a trusted text alike but for a class's name and a needless zero, so `ConfigPaths.defines` is what
MediaMTX has of its own. -/
namespace Kanat.SameInGo
open CameraSync MediaMTX Recordings RegexpTexts Regexps RemoteChanges TrustedRegexps

def namesClass (items : List ClassItem) : Bool := items.any fun item => match item with
  | .posix _ _ => true
  | _ => false

/-- A class with a name in it. -/
def Named : Token → Prop
  | .set s => namesClass s.items = true
  | _ => False

/-- A count with a zero before other digits. -/
def NeedlessZero : Token → Prop
  | .braces count => Go.plainNumber count.min = false ∨ ∃ max, count.max = some max ∧ Go.plainNumber max = false
  | _ => False

/-- Python's class items and place, and Go's where Go reads the same: Go is done with a set once it is read, and takes a
`-` after it for a character. -/
inductive Same : List ClassItem → Place → List ClassItem → Place → Prop
  | first (items : List ClassItem) : Same items .first items .first
  | next (items : List ClassItem) : Same items .next items .next
  | after (items : List ClassItem) (c : Char) : Same items (.after (.char c)) items (.after (.char c))
  | range (items : List ClassItem) (c : Char) : Same items (.range (.char c)) items (.range (.char c))
  | afterPerl (items : List ClassItem) (p : Perl) : Same items (.after (.perl p)) (items ++ [.perl p]) .next
  | rangePerl (items : List ClassItem) (p : Perl) :
    Same items (.range (.perl p)) (items ++ [.perl p]) (.after (.char '-'))

def Related : Mode → Mode → Prop
  | .top m, .top n => m = n
  | .opened, .opened => True
  | .within negated items place m, .within negated' items' place' n =>
    negated = negated' ∧ Same items place items' place' ∧ m = 0 ∧ n = 0
  | _, _ => False

variable {wide : Char → Bool} {rest : List Sym} {s : Sym} {c : Char} {k k' n : ℕ} {mode mode' : Mode} {out : List Token}
  {items items' : List ClassItem} {place place' : Place} {name : List Char} {item : ClassItem} {r : Reader}
  {found found' : List ClassItem} {x x' : Option (Place × ℕ)} {m m' : Member} {ts ts' : List Token}
  {out' : List Token} {negated : Bool}

theorem member_agree (hp : pythonReader.member s = .ok m) (hg : goReader.member s = .ok m') : m = m' := by
  cases s with
  | plain c => exact Except.ok.inj (hp.symm.trans hg)
  | escaped c =>
    simp only [pythonReader, goReader, Python.member, Go.member] at hp hg
    split at hp
    next p hperl =>
      rw [hperl] at hg
      exact Except.ok.inj (hp.symm.trans hg)
    next hperl =>
      simp only [hperl] at hg
      split at hp
      next => cases hp
      next hc =>
        simp only [hc, Bool.false_eq_true, if_false] at hg
        split at hg
        next => exact Except.ok.inj (hp.symm.trans hg)
        next => cases hg

private theorem posix_item (h : Go.posix name = some item) (items : List ClassItem) :
    namesClass (items ++ [item]) = true := by
  have hitem : ∃ negated p, item = .posix negated p := by
    unfold Go.posix at h
    split at h
    all_goals
      obtain ⟨entry, -, rfl⟩ := Option.map_eq_some_iff.mp h
      exact ⟨_, _, rfl⟩
  obtain ⟨negated, p, rfl⟩ := hitem
  simp [namesClass]

private theorem head_agree (hp : pythonReader.head items s rest = .ok (found, place, n))
    (hg : goReader.head items s rest = .ok (found', place', k)) :
    namesClass found' = true ∨ n = 0 ∧ k = 0 ∧ Same found place found' place' := by
  simp only [pythonReader, Python.head] at hp
  simp only [goReader, Go.head] at hg
  cases hm : Python.member s with
  | error refusal => simp [hm, Except.map] at hp
  | ok m =>
    obtain ⟨rfl, rfl, rfl⟩ : items = found ∧ .after m = place ∧ 0 = n := by simpa [hm, Except.map] using hp
    split at hg
    next name hn =>
      split at hg
      next item hi =>
        obtain ⟨rfl, -⟩ := Prod.mk.inj (Except.ok.inj hg)
        exact .inl (posix_item hi _)
      next => cases hg
    next hn =>
      cases hm' : Go.member s with
      | error refusal => simp [hm', Except.map] at hg
      | ok m' =>
        obtain rfl := member_agree hm hm'
        cases m with
        | char c =>
          obtain ⟨rfl, rfl, rfl⟩ : items = found' ∧ .after (.char c) = place' ∧ 0 = k := by
            simpa [hm', Except.map] using hg
          exact .inr ⟨rfl, rfl, .after _ c⟩
        | perl p =>
          obtain ⟨rfl, rfl, rfl⟩ : items ++ [.perl p] = found' ∧ .next = place' ∧ 0 = k := by
            simpa [hm', Except.map] using hg
          exact .inr ⟨rfl, rfl, .afterPerl _ p⟩

/-- What the readers make of a symbol in a class, unless Go reads a name. -/
def Alike (found : List ClassItem) (x : Option (Place × ℕ)) (found' : List ClassItem) (x' : Option (Place × ℕ)) :
    Prop :=
  namesClass found' = true ∨ x = none ∧ x' = none ∧ found = found' ∨
    ∃ place place', x = some (place, 0) ∧ x' = some (place', 0) ∧ Same found place found' place'

theorem begun_agree
    (hp : ((pythonReader.head items s rest).map fun (items, place) => (items, some place)) = .ok (found, x))
    (hg : ((goReader.head items s rest).map fun (items, place) => (items, some place)) = .ok (found', x')) :
    Alike found x found' x' := by
  cases hh : pythonReader.head items s rest with
  | error refusal => simp [hh, Except.map] at hp
  | ok a =>
    cases hh' : goReader.head items s rest with
    | error refusal => simp [hh', Except.map] at hg
    | ok a' =>
      obtain ⟨items₁, place₁, n₁⟩ := a
      obtain ⟨items₂, place₂, n₂⟩ := a'
      obtain ⟨rfl, rfl⟩ : items₁ = found ∧ some (place₁, n₁) = x := by simpa [hh, Except.map] using hp
      obtain ⟨rfl, rfl⟩ : items₂ = found' ∧ some (place₂, n₂) = x' := by simpa [hh', Except.map] using hg
      rcases head_agree hh hh' with h | ⟨rfl, rfl, h⟩
      · exact .inl h
      · exact .inr (.inr ⟨place₁, place₂, rfl, rfl, h⟩)

theorem inside_agree (h : Same items place items' place') (hp : pythonReader.inside items place s rest = .ok (found, x))
    (hg : goReader.inside items' place' s rest = .ok (found', x')) : Alike found x found' x' := by
  cases h with
  | first => exact begun_agree hp hg
  | next =>
    by_cases hb : s = .plain ']'
    · simp only [Reader.inside, if_pos hb] at hp hg
      cases hp
      cases hg
      exact .inr (.inl ⟨rfl, rfl, rfl⟩)
    · simp only [Reader.inside, if_neg hb] at hp hg
      exact begun_agree hp hg
  | after c =>
    by_cases hd : s = .plain '-'
    · simp only [Reader.inside, if_pos hd] at hp hg
      cases hp
      cases hg
      exact .inr (.inr ⟨_, _, rfl, rfl, .range _ c⟩)
    · by_cases hb : s = .plain ']'
      · simp only [Reader.inside, if_neg hd, if_pos hb] at hp hg
        cases hp
        cases hg
        exact .inr (.inl ⟨rfl, rfl, rfl⟩)
      · simp only [Reader.inside, if_neg hd, if_neg hb] at hp hg
        exact begun_agree hp hg
  | range c =>
    by_cases hb : s = .plain ']'
    · simp only [Reader.inside, if_pos hb] at hp hg
      cases hp
      cases hg
      exact .inr (.inl ⟨rfl, rfl, rfl⟩)
    · simp only [Reader.inside, if_neg hb] at hp hg
      split at hp
      next => cases hp
      next m hm =>
        split at hg
        next => cases hg
        next m' hm' =>
          obtain rfl := member_agree hm hm'
          cases m with
          | perl p => cases hp
          | char hi =>
            by_cases hle : c ≤ hi
            · simp only [if_pos hle] at hp hg
              cases hp
              cases hg
              exact .inr (.inr ⟨_, _, rfl, rfl, .next _⟩)
            · simp [hle] at hp
  | afterPerl p =>
    by_cases hd : s = .plain '-'
    · subst hd
      cases hp
      cases hg
      exact .inr (.inr ⟨_, _, rfl, rfl, .rangePerl _ p⟩)
    · by_cases hb : s = .plain ']'
      · subst hb
        cases hp
        cases hg
        exact .inr (.inl ⟨rfl, rfl, rfl⟩)
      · simp only [Reader.inside, if_neg hd, if_neg hb] at hp hg
        exact begun_agree hp hg
  | rangePerl p =>
    by_cases hb : s = .plain ']'
    · subst hb
      cases hp
      cases hg
      exact .inr (.inl ⟨rfl, rfl, by simp [Member.item]⟩)
    · simp only [Reader.inside, if_neg hb] at hp
      split at hp
      next => cases hp
      next => cases hp

/-- Go keeps what it has read of a class. -/
theorem prefix_inside (h : goReader.inside items place s rest = .ok (found, x)) : items <+: found := by
  have hhead : ∀ items : List ClassItem,
      ((goReader.head items s rest).map fun (items, place) => (items, some place)) = .ok (found, x) →
      items <+: found := by
    intro items h
    simp only [goReader, Go.head] at h
    split at h
    next name hn =>
      split at h
      next item hi =>
        obtain ⟨rfl, -⟩ : items ++ [item] = found ∧ _ := by simpa [Except.map] using h
        exact List.prefix_append _ _
      next => cases h
    next hn =>
      cases hm : Go.member s with
      | error refusal => simp [hm, Except.map] at h
      | ok m =>
        cases m with
        | char c =>
          obtain ⟨rfl, -⟩ : items = found ∧ _ := by simpa [hm, Except.map] using h
          exact List.prefix_rfl
        | perl p =>
          obtain ⟨rfl, -⟩ : items ++ [.perl p] = found ∧ _ := by simpa [hm, Except.map] using h
          exact List.prefix_append _ _
  unfold Reader.inside at h
  split at h
  next => exact hhead _ h
  next =>
    split at h
    next =>
      cases h
      exact List.prefix_rfl
    next => exact hhead _ h
  next m =>
    split at h
    next =>
      cases h
      exact List.prefix_rfl
    next =>
      split at h
      next =>
        cases h
        exact List.prefix_append _ _
      next => exact (List.prefix_append _ _).trans (hhead _ h)
  next m =>
    split at h
    next =>
      cases h
      exact List.prefix_append _ _
    next =>
      split at h
      next => cases h
      next =>
        split at h
        next =>
          split at h
          next =>
            cases h
            exact List.prefix_append _ _
          next => cases h
        next => cases h

theorem within_cases (h : r.within negated items place s rest = .ok (out, mode)) :
    ∃ found x, r.inside items place s rest = .ok (found, x) ∧
      (x = none ∧ out = [.set ⟨negated, found⟩] ∧ mode = .top 0 ∨
        ∃ place' n, x = some (place', n) ∧ out = [] ∧ mode = .within negated found place' n) := by
  simp only [Reader.within] at h
  cases hi : r.inside items place s rest with
  | error refusal => simp [hi, Except.map] at h
  | ok a =>
    obtain ⟨found, x⟩ := a
    refine ⟨found, x, rfl, ?_⟩
    simp only [hi, Except.map, Except.ok.injEq] at h
    cases x with
    | none =>
      obtain ⟨rfl, rfl⟩ := Prod.mk.inj h
      exact .inl ⟨rfl, rfl, rfl⟩
    | some x =>
      obtain ⟨rfl, rfl⟩ := Prod.mk.inj h
      exact .inr ⟨x.1, x.2, rfl, rfl, rfl⟩

theorem namesClass_of_prefix (h : items <+: items') (hn : namesClass items = true) : namesClass items' = true := by
  obtain ⟨tail, rfl⟩ := h
  rw [namesClass, List.any_append]
  exact Bool.or_eq_true_iff.mpr (.inl hn)

theorem run_cons (h : r.run mode (s :: rest) = .ok ts) : ∃ out mode' ts', r.step mode s rest = .ok (out, mode') ∧
    r.run mode' rest = .ok ts' ∧ ts = out ++ ts' := by
  simp only [Reader.run] at h
  split at h
  next => cases h
  next out mode' hs =>
    cases hr : r.run mode' rest with
    | error refusal => simp [hr, Except.map] at h
    | ok ts' =>
      refine ⟨out, mode', ts', hs, hr, ?_⟩
      simpa [hr, Except.map, eq_comm] using h

/-- A name once read in a class is there when it ends. -/
theorem named_run (hn : namesClass items = true) (h : goReader.run (.within negated items place n) rest = .ok ts) :
    ∃ t ∈ ts, Named t := by
  induction rest generalizing items place n ts with
  | nil => simp [Reader.run] at h
  | cons s rest ih =>
    obtain ⟨out, mode', ts', hs, hr, rfl⟩ := run_cons h
    cases n with
    | succ n =>
      cases hs
      exact ih hn hr
    | zero =>
      obtain ⟨found, x, hi, ⟨-, rfl, -⟩ | ⟨place', n', -, rfl, rfl⟩⟩ := within_cases hs
      all_goals have hfound := namesClass_of_prefix (prefix_inside hi) hn
      · exact ⟨.set ⟨negated, found⟩, by simp, hfound⟩
      · exact ih hfound hr

theorem outside_eq (hc : c ≠ '{') : pythonReader.outside (.plain c) rest = goReader.outside (.plain c) rest := by
  by_cases hclass : c = '['
  · subst hclass
    rfl
  · by_cases hgroup : c = '('
    · subst hgroup
      rfl
    · rw [outside_plain hclass hgroup hc, outside_plain hclass hgroup hc]

private theorem token_plain (c : Char) : ¬Named (token c) ∧ ¬NeedlessZero (token c) := by
  unfold token
  split
  all_goals simp [Named, NeedlessZero, namesClass, CharSet.any, CharSet.literal]

theorem namesClass_item (items : List ClassItem) (m : Member) : namesClass (items ++ [m.item]) = namesClass items := by
  cases m with
  | char c => simp [namesClass, Member.item]
  | perl p => simp [namesClass, Member.item]

theorem related_self (h : ∀ negated items place n, mode ≠ .within negated items place n) : Related mode mode := by
  cases mode with
  | top n => exact rfl
  | opened => trivial
  | within negated items place n => exact absurd rfl (h negated items place n)

/-- Outside classes a count is read as the language reads it, and nothing else has digits or a name. -/
theorem outside_cases (h : r.outside s rest = .ok (out, mode)) : (∀ negated items place n,
      mode ≠ .within negated items place n) ∧
    ∀ t ∈ out, (¬Named t ∧ ¬NeedlessZero t) ∨ ∃ count n, r.count rest = some (count, n) ∧ t = .braces count := by
  have hopening : ¬Named .opening ∧ ¬NeedlessZero .opening := ⟨id, id⟩
  unfold Reader.outside at h
  split at h
  next c =>
    cases hm : r.member (.escaped c) with
    | error refusal => simp [hm, Except.map] at h
    | ok m =>
      obtain ⟨rfl, rfl⟩ : [Token.set ⟨false, [m.item]⟩] = out ∧ Mode.top 0 = mode := by
        simpa [hm, Except.map] using h
      refine ⟨by simp, fun t ht => .inl ?_⟩
      rw [List.mem_singleton.mp ht]
      exact ⟨by cases m <;> simp [Named, namesClass, Member.item], id⟩
  next =>
    cases h
    exact ⟨by simp, by simp⟩
  next =>
    split at h
    next =>
      cases h
      exact ⟨by simp, by simpa using hopening⟩
    next => cases h
    next =>
      cases h
      exact ⟨by simp, by simpa using hopening⟩
  next =>
    split at h
    next count n hc =>
      cases h
      exact ⟨by simp, fun t ht => .inr ⟨count, n, hc, List.mem_singleton.mp ht⟩⟩
    next =>
      cases h
      exact ⟨by simp, by simp [Named, NeedlessZero, namesClass, CharSet.literal]⟩
  next c _ _ _ =>
    cases h
    exact ⟨by simp, fun t ht => .inl (List.mem_singleton.mp ht ▸ token_plain c)⟩

theorem outside_agree (hn : sameInGo wide (s :: rest) = some n) (hp : pythonReader.outside s rest = .ok (out, mode))
    (hg : goReader.outside s rest = .ok (out', mode')) (hz : ∀ t ∈ out, ¬NeedlessZero t) :
    out = out' ∧ mode = mode' := by
  cases s with
  | escaped c =>
    simp only [Reader.outside] at hp hg
    cases hm : pythonReader.member (.escaped c) with
    | error refusal => simp [hm, Except.map] at hp
    | ok m =>
      cases hm' : goReader.member (.escaped c) with
      | error refusal => simp [hm', Except.map] at hg
      | ok m' =>
        obtain rfl := member_agree hm hm'
        rw [hm] at hp
        rw [hm'] at hg
        exact Prod.mk.inj (Except.ok.inj (hp.symm.trans hg))
  | plain c =>
    by_cases hc : c = '{'
    · subst hc
      rcases sameInGo_cases hn with ⟨he, -⟩ | ⟨he, -⟩ | ⟨-, count, m, hb, hne, -⟩ | ⟨-, -, -, -, he, -⟩
      · simp at he
      · simp at he
      · cases ha : braces Char.isDigit rest with
        | none =>
          have hpy : pythonReader.count rest = none := by simp [pythonReader, Python.count, ha]
          have hgo : goReader.count rest = none := by simp [goReader, Go.count, ha]
          simp only [Reader.outside, hpy] at hp
          simp only [Reader.outside, hgo] at hg
          exact Prod.mk.inj (Except.ok.inj (hp.symm.trans hg))
        | some found =>
          obtain rfl : found = (count, m) := Option.some.inj ((braces_decimal ha).symm.trans hb)
          have hpy : pythonReader.count rest = some (count, m) := by
            simp only [pythonReader, Python.count, ha, Option.filter_some]
            rw [if_pos]
            rw [decide_eq_true_iff]
            rintro rfl
            exact hne rfl
          simp only [Reader.outside, hpy] at hp
          obtain ⟨rfl, rfl⟩ := Prod.mk.inj (Except.ok.inj hp)
          have hzero := hz _ List.mem_cons_self
          simp only [NeedlessZero, not_or, Bool.not_eq_false] at hzero
          have hmax : count.max.all Go.plainNumber = true := by
            cases hm : count.max with
            | none => rfl
            | some max =>
              by_contra h
              exact hzero.2 ⟨max, hm, by simpa using h⟩
          have hgo : goReader.count rest = some (count, m) := by
            simp [goReader, Go.count, ha, Option.filter_some, hne, hzero.1, hmax]
          simp only [Reader.outside, hgo] at hg
          exact Prod.mk.inj (Except.ok.inj hg)
      · exact absurd rfl he
    · rw [outside_eq hc] at hp
      exact Prod.mk.inj (Except.ok.inj (hp.symm.trans hg))

/-- Go has read a name, outside a class or in one. -/
def Names (out : List Token) : Mode → Prop
  | .within _ items _ _ => namesClass items = true ∨ ∃ t ∈ out, Named t
  | _ => ∃ t ∈ out, Named t

theorem within_agree (h : Same items place items' place')
    (hp : pythonReader.within negated items place s rest = .ok (out, mode))
    (hg : goReader.within negated items' place' s rest = .ok (out', mode')) :
    Names out' mode' ∨ out = out' ∧ Related mode mode' := by
  obtain ⟨found, x, hi, hcases⟩ := within_cases hp
  obtain ⟨found', x', hi', hcases'⟩ := within_cases hg
  rcases inside_agree h hi hi' with hn | ⟨rfl, rfl, rfl⟩ | ⟨q, q', rfl, rfl, hs⟩
  · rcases hcases' with ⟨-, rfl, rfl⟩ | ⟨q, n, -, rfl, rfl⟩
    · exact .inl ⟨_, List.mem_cons_self, hn⟩
    · exact .inl (.inl hn)
  · obtain ⟨-, rfl, rfl⟩ | ⟨_, _, hx, -⟩ := hcases
    · obtain ⟨-, rfl, rfl⟩ | ⟨_, _, hx, -⟩ := hcases'
      · exact .inr ⟨rfl, rfl⟩
      · cases hx
    · cases hx
  · obtain ⟨hx, -⟩ | ⟨_, _, hx, rfl, rfl⟩ := hcases
    · cases hx
    · obtain ⟨hx', -⟩ | ⟨_, _, hx', rfl, rfl⟩ := hcases'
      · cases hx'
      · cases hx
        cases hx'
        exact .inr ⟨rfl, rfl, hs, rfl, rfl⟩

theorem step_alike (hk : next wide k s rest = some k') (ha : Aligned wide k (s :: rest) mode) {mode₁ mode₂ : Mode}
    (hm : Related mode mode') (hp : pythonReader.step mode s rest = .ok (out, mode₁))
    (hg : goReader.step mode' s rest = .ok (out', mode₂)) (hz : ∀ t ∈ out, ¬NeedlessZero t) :
    Names out' mode₂ ∨ out = out' ∧ Related mode₁ mode₂ := by
  cases mode with
  | top n =>
    cases mode' with
    | top n' =>
      obtain rfl : n = n' := hm
      cases n with
      | succ n =>
        cases hp
        cases hg
        exact .inr ⟨rfl, rfl⟩
      | zero =>
        have hout : out = out' ∧ mode₁ = mode₂ := by
          cases k with
          | zero =>
            obtain ⟨n, hn, -⟩ := Option.map_eq_some_iff.mp hk
            exact outside_agree hn hp hg hz
          | succ k =>
            rcases ha with ha | ⟨-, hf⟩
            · cases ha
            · obtain ⟨c, rfl, -, -, -, hc⟩ := flat_cases hf.head
              simp only [Reader.step] at hp hg
              rw [outside_eq hc] at hp
              exact Prod.mk.inj (Except.ok.inj (hp.symm.trans hg))
        obtain ⟨rfl, rfl⟩ := hout
        exact .inr ⟨rfl, related_self (outside_cases hp).1⟩
    | _ => cases hm
  | opened =>
    cases mode' with
    | opened =>
      by_cases hs : s = .plain '^'
      · simp only [Reader.step, if_pos hs] at hp hg
        cases hp
        cases hg
        exact .inr ⟨rfl, rfl, .first [], rfl, rfl⟩
      · simp only [Reader.step, if_neg hs] at hp hg
        exact within_agree (.first []) hp hg
    | _ => cases hm
  | within negated items place n =>
    cases mode' with
    | within negated' items' place' n' =>
      obtain ⟨rfl, hs, rfl, rfl⟩ := hm
      exact within_agree hs hp hg
    | _ => cases hm

private theorem names_run {out : List Token} (h : Names out mode) (hr : goReader.run mode rest = .ok ts) :
    ∃ t ∈ out ++ ts, Named t := by
  have hout : (∃ t ∈ out, Named t) → ∃ t ∈ out ++ ts, Named t := by
    rintro ⟨t, ht, hn⟩
    exact ⟨t, List.mem_append_left _ ht, hn⟩
  cases mode with
  | top n => exact hout h
  | opened => exact hout h
  | within negated items place n =>
    rcases h with h | h
    · obtain ⟨t, ht, hn⟩ := named_run h hr
      exact ⟨t, List.mem_append_right _ ht, hn⟩
    · exact hout h

/-- Both read the same of a text that the pieces cover, unless Go reads a class's name or Python a needless zero. -/
theorem tokens_alike (hc : covered wide k rest = true) (ha : Aligned wide k rest mode) (hm : Related mode mode')
    (hp : pythonReader.run mode rest = .ok ts) (hg : goReader.run mode' rest = .ok ts')
    (hn : ∀ t ∈ ts', ¬Named t) (hz : ∀ t ∈ ts, ¬NeedlessZero t) : ts = ts' := by
  induction rest generalizing k mode mode' ts ts' with
  | nil =>
    simp only [Reader.run] at hp hg
    split at hp
    next =>
      split at hg
      next => exact Except.ok.inj (hp.symm.trans hg)
      next => cases hg
    next => cases hp
  | cons s rest ih =>
    obtain ⟨out, mode₁, tail, hs, hr, rfl⟩ := run_cons hp
    obtain ⟨out', mode₂, tail', hs', hr', rfl⟩ := run_cons hg
    simp only [covered] at hc
    cases hk : next wide k s rest with
    | none => simp [hk] at hc
    | some k' =>
      rw [hk] at hc
      rcases step_alike hk ha hm hs hs' fun t ht => hz t (List.mem_append_left _ ht) with h | ⟨rfl, hm'⟩
      · obtain ⟨t, ht, hnamed⟩ := names_run h hr'
        exact absurd hnamed (hn t ht)
      · rcases tame_python.step hk ha with h | ⟨out', mode', h, ha'⟩
        · simp [h] at hs
        · obtain ⟨rfl, rfl⟩ := Prod.mk.inj (Except.ok.inj (h.symm.trans hs))
          rw [ih hc ha' hm' hr hr' (fun t ht => hn t (List.mem_append_right _ ht)) fun t ht =>
            hz t (List.mem_append_right _ ht)]

/-- What every step puts out and keeps, a run puts out. -/
theorem forall_run {P : Token → Prop} {I : Mode → Prop}
    (hstep : ∀ mode s rest out mode', I mode → r.step mode s rest = .ok (out, mode') → (∀ t ∈ out, P t) ∧ I mode')
    (hI : I mode) (h : r.run mode rest = .ok ts) : ∀ t ∈ ts, P t := by
  induction rest generalizing mode ts with
  | nil =>
    simp only [Reader.run] at h
    split at h
    next =>
      cases h
      simp
    next => cases h
  | cons s rest ih =>
    obtain ⟨out, mode', ts', hs, hr, rfl⟩ := run_cons h
    obtain ⟨hout, hI'⟩ := hstep _ _ _ _ _ hI hs
    intro t ht
    rcases List.mem_append.mp ht with ht | ht
    · exact hout t ht
    · exact ih hI' hr t ht

/-- Python reads no names in its classes. -/
theorem unnamed_inside (h : pythonReader.inside items place s rest = .ok (found, x)) :
    namesClass found = namesClass items := by
  have hhead : ∀ items : List ClassItem,
      ((pythonReader.head items s rest).map fun (items, place) => (items, some place)) = .ok (found, x) →
      namesClass found = namesClass items := by
    intro items h
    simp only [pythonReader, Python.head] at h
    cases hm : Python.member s with
    | error refusal => simp [hm, Except.map] at h
    | ok m =>
      obtain ⟨rfl, -⟩ : items = found ∧ _ := by simpa [hm, Except.map] using h
      rfl
  unfold Reader.inside at h
  split at h
  next => exact hhead _ h
  next =>
    split at h
    next =>
      cases h
      rfl
    next => exact hhead _ h
  next m =>
    split at h
    next =>
      cases h
      rfl
    next =>
      split at h
      next =>
        cases h
        exact namesClass_item items m
      next => rw [hhead _ h, namesClass_item]
  next m =>
    split at h
    next =>
      cases h
      have hsplit : items ++ [m.item, .range '-' '-'] = (items ++ [m.item]) ++ [(Member.char '-').item] := by
        simp [Member.item]
      rw [hsplit, namesClass_item, namesClass_item]
    next =>
      split at h
      next => cases h
      next =>
        split at h
        next =>
          split at h
          next =>
            cases h
            simp [namesClass]
          next => cases h
        next => cases h

/-- Python takes no class's name in a text. -/
theorem unnamed_python (h : pythonReader.run (.top 0) rest = .ok ts) : ∀ t ∈ ts, ¬Named t := by
  refine forall_run (P := fun t => ¬Named t)
    (I := fun mode => ∀ negated items place n, mode = .within negated items place n → namesClass items = false)
    ?_ (by simp) h
  intro mode s rest out mode' hI hs
  have hwithin : ∀ negated items place, namesClass items = false →
      pythonReader.within negated items place s rest = .ok (out, mode') →
      (∀ t ∈ out, ¬Named t) ∧ ∀ negated items place n, mode' = .within negated items place n → namesClass items = false := by
    intro negated items place hitems h
    obtain ⟨found, x, hi, ⟨-, rfl, rfl⟩ | ⟨place', n, -, rfl, rfl⟩⟩ := within_cases h
    · refine ⟨?_, by simp⟩
      simpa [Named, unnamed_inside hi] using hitems
    · refine ⟨by simp, ?_⟩
      rintro _ _ _ _ heq
      cases heq
      rw [unnamed_inside hi, hitems]
  cases mode with
  | top n =>
    cases n with
    | succ n =>
      cases hs
      exact ⟨by simp, by simp⟩
    | zero =>
      obtain ⟨hmode, hout⟩ := outside_cases hs
      refine ⟨fun t ht => ?_, fun _ _ _ _ heq => absurd heq (hmode _ _ _ _)⟩
      rcases hout t ht with ⟨hn, -⟩ | ⟨_, _, -, rfl⟩
      · exact hn
      · exact id
  | opened =>
    simp only [Reader.step] at hs
    split at hs
    next =>
      cases hs
      refine ⟨by simp, ?_⟩
      rintro _ _ _ _ heq
      cases heq
      rfl
    next => exact hwithin _ _ _ rfl hs
  | within negated items place n =>
    have hitems := hI _ _ _ _ rfl
    cases n with
    | succ n =>
      cases hs
      refine ⟨by simp, ?_⟩
      rintro _ _ _ _ heq
      cases heq
      exact hitems
    | zero => exact hwithin _ _ _ hitems hs

/-- And Go no needless zero. -/
theorem no_zero_go (h : goReader.run mode rest = .ok ts) : ∀ t ∈ ts, ¬NeedlessZero t := by
  refine forall_run (P := fun t => ¬NeedlessZero t) (I := fun _ => True) ?_ trivial h
  intro mode s rest out mode' _ hs
  refine ⟨fun t ht => ?_, trivial⟩
  have hwithin : ∀ negated items place, goReader.within negated items place s rest = .ok (out, mode') →
      ¬NeedlessZero t := by
    intro negated items place h
    obtain ⟨found, x, -, ⟨-, rfl, -⟩ | ⟨_, _, -, rfl, -⟩⟩ := within_cases h
    · rw [List.mem_singleton.mp ht]
      exact id
    · simp at ht
  cases mode with
  | top n =>
    cases n with
    | succ n =>
      cases hs
      simp at ht
    | zero =>
      rcases (outside_cases hs).2 t ht with ⟨-, hz⟩ | ⟨count, n, hc, rfl⟩
      · exact hz
      · simp only [goReader, Go.count, Option.filter_eq_some_iff, Bool.and_eq_true, Option.all_eq_true] at hc
        obtain ⟨-, ⟨-, hmin⟩, hmax⟩ := hc
        rintro (hz | ⟨max, hm, hz⟩)
        · simp [hmin] at hz
        · simp [hmax max hm] at hz
  | opened =>
    simp only [Reader.step] at hs
    split at hs
    next =>
      cases hs
      simp at ht
    next => exact hwithin _ _ _ hs
  | within negated items place n =>
    cases n with
    | succ n =>
      cases hs
      simp at ht
    | zero => exact hwithin _ _ _ hs

/-- Go reads no class's name in the text, and Python no count with a needless zero. -/
def ReadAlike (pattern : List Char) : Prop :=
  (∀ ts, go.tokens pattern = .ok ts → ∀ t ∈ ts, ¬Named t) ∧
    ∀ ts, python.tokens pattern = .ok ts → ∀ t ∈ ts, ¬NeedlessZero t

variable {pattern : List Char} {re re' : Regexp}

theorem tokens_eq_iff (ht : trusted wide pattern = true) (hp : python.tokens pattern = .ok ts)
    (hg : go.tokens pattern = .ok ts') : ts = ts' ↔ ReadAlike pattern := by
  simp only [Language.tokens] at hp hg
  cases hs : syms pattern with
  | none => simp [hs] at hp
  | some ss =>
    have hc : covered wide 0 ss = true := by simpa [trusted, hs] using ht
    have hpy : python.tokens pattern = .ok ts := by simp only [Language.tokens, hs] at hp ⊢; exact hp
    have hgo : go.tokens pattern = .ok ts' := by simp only [Language.tokens, hs] at hg ⊢; exact hg
    simp only [hs] at hp hg
    constructor
    · rintro rfl
      constructor
      · intro us hus
        cases hgo.symm.trans hus
        exact unnamed_python hp
      · intro us hus
        cases hpy.symm.trans hus
        exact no_zero_go hg
    · rintro ⟨hn, hz⟩
      exact tokens_alike hc aligned_start (show Related (.top 0) (.top 0) from rfl) hp hg (hn _ hgo) (hz _ hpy)

theorem compile_alike (ht : trusted wide pattern = true) (ha : ReadAlike pattern) (hp : python.compile pattern = .ok re)
    (hg : go.compile pattern = .ok re') : re = re' := by
  obtain ⟨ts, hts, hp⟩ := compile_eq_ok hp
  obtain ⟨ts', hts', hg⟩ := compile_eq_ok hg
  obtain rfl := (tokens_eq_iff ht hts hts').mpr ha
  exact parse_agree hp hg

/-- A trusted text is not beyond what is read here. -/
theorem not_beyond (ht : trusted wide pattern = true) :
    python.compile pattern ≠ .error .beyond ∧ go.compile pattern ≠ .error .beyond := by
  have hrun : ∀ l : Language, Tame l.reader → l.compile pattern ≠ .error .beyond := by
    intro l hl
    cases hs : syms pattern with
    | none => simp [trusted, hs] at ht
    | some ss =>
      have hc : covered wide 0 ss = true := by simpa [trusted, hs] using ht
      have hr : l.tokens pattern ≠ .error .beyond := by
        rw [Language.tokens, hs]
        exact hl.run hc aligned_start
      unfold Language.compile
      split
      next refusal h =>
        rw [h] at hr
        simpa using hr
      next =>
        split
        · simp
        · simp
  exact ⟨hrun python tame_python, hrun go tame_go⟩

private theorem goRegexp_eq_some {pattern : String} {f : String → Bool} (h : goRegexp wide pattern = some f) :
    trusted wide pattern.toList = true ∧ ∃ re, python.compile pattern.toList = .ok re ∧
      f = fun name => search re name.toList := by
  unfold goRegexp at h
  split at h
  next ht =>
    split at h
    next => cases h
    next re hre => exact ⟨ht, re, hre, (Option.some.inj h).symm⟩
  next => cases h

/-- A text both read alike is found in a name iff Go's match is. -/
theorem search_alike {pattern name : String} {f : String → Bool} (h : goRegexp wide pattern = some f)
    (hg : go.compile pattern.toList = .ok re) (ha : ReadAlike pattern.toList) (hn : '\n' ∉ name.toList) :
    f name = true ↔ Matched re name.toList := by
  obtain ⟨ht, re', hp, rfl⟩ := goRegexp_eq_some h
  obtain rfl := compile_alike ht ha hp hg
  exact search_iff hn (proper_compile_go hg)

/-- What MediaMTX takes for a path of its own: one with a key of its name, or one that a key's expression matches. -/
def MediaMTXDefines (keys : List String) (name : String) : Prop :=
  name ∈ keys ∨ ∃ key ∈ keys, key.toList.head? = some '~' ∧
    ∃ re, go.compile key.toList.tail = .ok re ∧ Matched re name.toList

variable {keys : List String} {config c' : ConfigPaths} {goRegexp' : String → Option (String → Bool)}

private theorem patterns_readKeys (h : readKeys goRegexp' config keys = some c') (name : String) :
    c'.patterns.any (· name) = true ↔ config.patterns.any (· name) = true ∨
      ∃ key ∈ keys, key.toList.head? = some '~' ∧
        ∃ f, goRegexp' (String.ofList key.toList.tail) = some f ∧ f name = true := by
  induction keys generalizing config with
  | nil =>
    cases h
    simp
  | cons key keys ih =>
    simp only [readKeys] at h
    split at h
    next hk =>
      split at h
      next => cases h
      next f hf =>
        rw [ih h]
        simp [hk, hf, or_assoc]
    next hk =>
      split at h
      next =>
        rw [ih h]
        simp [hk]
      next =>
        rw [ih h]
        simp [hk]

/-- Where every key is read, every expression among them is trusted. -/
theorem trusted_of_readKeys (h : readKeys goRegexp' config keys = some c') :
    ∀ key ∈ keys, key.toList.head? = some '~' → ∃ f, goRegexp' (String.ofList key.toList.tail) = some f := by
  induction keys generalizing config with
  | nil => simp
  | cons key keys ih =>
    simp only [readKeys] at h
    split at h
    next hk =>
      split at h
      next => cases h
      next f hf => exact List.forall_mem_cons.mpr ⟨fun _ => ⟨f, hf⟩, ih h⟩
    next hk =>
      split at h
      next => exact List.forall_mem_cons.mpr ⟨fun hk' => absurd hk' hk, ih h⟩
      next => exact List.forall_mem_cons.mpr ⟨fun hk' => absurd hk' hk, ih h⟩

/-- The sync calls for no path that `mediamtx.yml` defines. -/
theorem defines_of_sent {defaults : Config} {db : Database} {m : Paths} {answers : List Answer} {call : Call}
    (h : call ∈ (sync defaults (some config) db m answers).sent) : config.defines call.name = false := by
  have hc : call ∈ changes (listPathConfigs m) config db.wanted := by
    simp only [sync] at h
    split at h
    · exact (sent_initial _ _ _ _).subset h
    · simp at h
  rcases List.mem_append.mp hc with hc | hc
  · obtain ⟨⟨name, wanted⟩, -, ha⟩ := List.mem_filterMap.mp hc
    obtain ⟨rfl, hd, -⟩ := apply_eq_some ha
    exact hd
  · obtain ⟨⟨name, existing⟩, -, hr⟩ := List.mem_filterMap.mp hc
    obtain ⟨rfl, -, hp⟩ := remove_eq_some hr
    exact defines_of_isCameraPath hp

private theorem defines_iff (hc : configPaths (goRegexp wide) (some keys) = some config)
    (hgo : ∀ key ∈ keys, key.toList.head? = some '~' →
      ∃ re, go.compile key.toList.tail = .ok re ∧ ReadAlike key.toList.tail)
    {name : String} (hn : '\n' ∉ name.toList) : config.defines name = true ↔ MediaMTXDefines keys name := by
  have hread : readKeys (goRegexp wide) ⟨[], [], false⟩ keys = some config := hc
  rw [ConfigPaths.defines, Bool.or_eq_true, patterns_readKeys hread, names_readKeys hread, List.contains_iff_mem]
  refine or_congr_right ?_
  simp only [List.any_nil, Bool.false_eq_true, false_or]
  refine exists_congr fun key => and_congr_right fun hk => and_congr_right fun ht => ?_
  obtain ⟨re, hre, ha⟩ := hgo key hk ht
  obtain ⟨f, hf⟩ := trusted_of_readKeys hread key hk ht
  have hsearch : f name = true ↔ Matched re name.toList :=
    search_alike hf (by simpa using hre) (by simpa using ha) hn
  constructor
  · rintro ⟨f', hf', hfn⟩
    obtain rfl := Option.some.inj (hf.symm.trans hf')
    exact ⟨re, hre, hsearch.mp hfn⟩
  · rintro ⟨re', hre', hm⟩
    obtain rfl := Except.ok.inj (hre.symm.trans hre')
    exact ⟨f, hf, hsearch.mpr hm⟩

/-- A trusted text is read the same in Go iff Go finds no class's name in it and Python no needless zero. It then means
the same of every name of one line, and no path or folder of MediaMTX's own is a camera's. -/
theorem same_in_go (wide : Char → Bool) :
    (∀ pattern ts ts', trusted wide pattern = true → python.tokens pattern = .ok ts → go.tokens pattern = .ok ts' →
      (ts = ts' ↔ ReadAlike pattern)) ∧
    (∀ pattern f re, goRegexp wide pattern = some f → go.compile pattern.toList = .ok re →
      ReadAlike pattern.toList → ∀ name : String, '\n' ∉ name.toList → (f name = true ↔ Matched re name.toList)) ∧
    ∀ keys c, configPaths (goRegexp wide) (some keys) = some c →
      (∀ key ∈ keys, key.toList.head? = some '~' →
        ∃ re, go.compile key.toList.tail = .ok re ∧ ReadAlike key.toList.tail) →
      ∀ name : String, '\n' ∉ name.toList →
        (c.defines name = true ↔ MediaMTXDefines keys name) ∧
        (MediaMTXDefines keys name → cameraFolder (some c) name = false ∧
          (∀ config, isCameraPath name config (some c) = false) ∧
          ∀ defaults db m answers, ∀ call ∈ (sync defaults (some c) db m answers).sent, call.name ≠ name) := by
  refine ⟨fun _ _ _ => tokens_eq_iff, fun _ _ _ h hg ha _ hn => search_alike h hg ha hn, ?_⟩
  intro keys c hc hgo name hn
  have hiff := defines_iff hc hgo hn
  refine ⟨hiff, fun hd => ?_⟩
  have hd := hiff.mpr hd
  refine ⟨?_, fun config => ?_, ?_⟩
  · simp [cameraFolder, hd]
  · cases hp : isCameraPath name config (some c) with
    | false => rfl
    | true =>
      rw [defines_of_isCameraPath hp] at hd
      cases hd
  · rintro defaults db m answers call hcall rfl
    rw [defines_of_sent hcall] at hd
    cases hd

theorem same_in_go_external : ∃ c, configPaths (goRegexp fun _ => false) (some ["loopdemo", "~^external[0-9]+$"]) = some c ∧
    (c.defines "external42" = true ↔ MediaMTXDefines ["loopdemo", "~^external[0-9]+$"] "external42") := by
  have hc : ∃ c, configPaths (goRegexp fun _ => false) (some ["loopdemo", "~^external[0-9]+$"]) = some c := ⟨_, rfl⟩
  obtain ⟨c, hc⟩ := hc
  have ha : ReadAlike "^external[0-9]+$".toList :=
    ((same_in_go fun _ => false).1 _ _ _ (by decide) rfl rfl).mp rfl
  have hkeys : ∀ key ∈ ["loopdemo", "~^external[0-9]+$"], key.toList.head? = some '~' →
      ∃ re, go.compile key.toList.tail = .ok re ∧ ReadAlike key.toList.tail :=
    List.forall_mem_cons.mpr ⟨fun h => absurd h (by decide), List.forall_mem_singleton.mpr fun _ => ⟨_, rfl, ha⟩⟩
  exact ⟨c, hc, ((same_in_go fun _ => false).2.2 _ c hc hkeys "external42" (by decide)).1⟩

/-- Go takes all of this text for the class that its first piece opens. -/
theorem not_same_in_go : ¬∀ wide pattern f re, goRegexp wide pattern = some f → go.compile pattern.toList = .ok re →
    ∀ name : String, '\n' ∉ name.toList → (f name = true ↔ Matched re name.toList) := by
  intro h
  have hpy : ∃ f, goRegexp (fun _ => false) "[^][:alpha:][b]" = some f ∧ f "11" = false := ⟨_, rfl, by decide⟩
  obtain ⟨f, hf, hno⟩ := hpy
  have hgo : go.compile "[^][:alpha:][b]".toList =
      .ok (.seq (.set ⟨true, [.range ']' ']', .posix false .alpha, .range '[' '[', .range 'b' 'b']⟩) .empty) := rfl
  have hm : Matched (.seq (.set ⟨true, [.range ']' ']', .posix false .alpha, .range '[' '[', .range 'b' 'b']⟩) .empty)
      "11".toList :=
    ⟨['1', '1'], ['1'], List.suffix_rfl, ['1'], ⟨'1', by decide, rfl⟩, rfl⟩
  have := (h _ _ f _ hf hgo "11" (by decide)).mpr hm
  simp [hno] at this

end Kanat.SameInGo
