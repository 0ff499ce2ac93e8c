import Kanat.OnVifPacketParser

/-! # What the reassembler finds among messages that each hold one envelope

`Message` is one HTTP message cut at its envelope. Nothing is found of it before its closing tag is whole, and what is
found then depends on nothing after it, except where a segment turns the text round. -/
namespace Kanat.OnVif
open DelimitedMatch

inductive TagPair where
  | soapEnv | s
deriving DecidableEq

namespace TagPair

def opening : TagPair → Bytes
  | soapEnv => soapOpening
  | s => sOpening

def closing : TagPair → Bytes
  | soapEnv => soapClosing
  | s => sClosing

theorem opening_ne_nil (pair : TagPair) : pair.opening ≠ [] := by
  cases pair <;> decide

theorem closing_ne_nil (pair : TagPair) : pair.closing ≠ [] := by
  cases pair <;> decide

end TagPair

def SPACE : UInt8 := 32
def GREATER : UInt8 := 62

/-- `p` stands between the two, and nowhere else. -/
def Once (p before after : Bytes) : Prop :=
  ¬p <:+: before ++ p.dropLast ∧ ¬p <:+: p.tail ++ after

instance (p before after : Bytes) : Decidable (Once p before after) :=
  inferInstanceAs (Decidable (_ ∧ _))

/-- An HTTP message with one envelope. Its first word is a method or the version of the protocol. -/
structure Message where
  pair : TagPair
  head : Bytes
  content : Bytes
  tail : Bytes
  startLine : ∃ word rest, head = word ++ SPACE :: rest ∧
    ∀ b ∈ word, b ≠ GREATER ∧ ¬(97 ≤ b ∧ b ≤ 122)
  opensOnce : Once pair.opening head (content ++ (pair.closing ++ tail))
  closesOnce : Once pair.closing (head ++ (pair.opening ++ content)) tail
  noOther : ∀ pair', pair' ≠ pair →
    ¬pair'.opening <:+: head ++ (pair.opening ++ (content ++ (pair.closing ++ tail))) ∧
    ¬pair'.closing <:+: head ++ (pair.opening ++ (content ++ (pair.closing ++ tail)))

namespace Message

def envelope (m : Message) : Bytes :=
  m.pair.opening ++ (m.content ++ m.pair.closing)

def text (m : Message) : Bytes :=
  m.head ++ (m.pair.opening ++ (m.content ++ (m.pair.closing ++ m.tail)))

/-- How much of the message has come when its envelope has. -/
def ends (m : Message) : ℕ :=
  m.head.length + m.envelope.length

end Message

variable {m : Message} {pair : TagPair} {pre text rest : Bytes}

theorem length_text : m.text.length = m.ends + m.tail.length := by
  simp only [Message.text, Message.ends, Message.envelope, List.length_append]
  omega

theorem text_eq : m.text = (m.head ++ m.envelope) ++ m.tail := by
  simp only [Message.text, Message.envelope, List.append_assoc]

/-- The message as its closing tag cuts it. -/
theorem text_eq_closing :
    m.text = (m.head ++ (m.pair.opening ++ m.content)) ++ (m.pair.closing ++ m.tail) := by
  simp only [Message.text, List.append_assoc]

/-- Envelopes between different tags are different. -/
theorem envelope_ne {m' : Message} (h : m.pair ≠ m'.pair) : m.envelope ≠ m'.envelope := by
  intro heq
  have htake : m.envelope.take 2 = m'.envelope.take 2 := congrArg _ heq
  rw [Message.envelope, Message.envelope] at htake
  revert h htake
  cases m.pair <;> cases m'.pair
  · exact fun h => absurd rfl h
  · exact fun _ h => nomatch h
  · exact fun _ h => nomatch h
  · exact fun h => absurd rfl h

/-- Every end of a tag has a letter or a `>` in it, and no space. -/
theorem fresh_head (p : Bytes) (hspace : SPACE ∉ p)
    (hlast : ∀ b ∈ p.getLast?, b = GREATER ∨ 97 ≤ b ∧ b ≤ 122) : Fresh p (m.head ++ rest) := by
  intro t ht hsuffix hbegins
  obtain ⟨word, more, hhead, hword⟩ := m.startLine
  rw [hhead, List.append_assoc, List.cons_append] at hbegins
  have hinside : t <+: word := by
    rcases List.prefix_or_prefix_of_prefix hbegins (List.prefix_append word _) with h | ⟨more', rfl⟩
    · exact h
    · rw [List.prefix_append_right_inj] at hbegins
      cases more' with
      | nil => rw [List.append_nil]
      | cons b more' =>
        obtain rfl := (List.cons_prefix_cons.mp hbegins).1
        exact absurd (hsuffix.mem (List.mem_append_right _ List.mem_cons_self)) hspace
  obtain ⟨b, hb⟩ := List.getLast?_isSome.mpr ht |> Option.isSome_iff_exists.mp
  have hword := hword b (hinside.mem (List.mem_of_getLast? hb))
  obtain ⟨s, rfl⟩ := hsuffix
  rcases hlast b (by rw [List.getLast?_append, hb]; rfl) with h | h
  · exact hword.1 h
  · exact hword.2 h

theorem fresh_opening : Fresh pair.opening (m.head ++ rest) := by
  have hlast {b : UInt8} (hb : some 101 = some b) : b = GREATER ∨ 97 ≤ b ∧ b ≤ 122 := by
    obtain rfl := Option.some.inj hb
    decide
  cases pair
  · exact fresh_head soapOpening (by decide) fun b hb => hlast hb
  · exact fresh_head sOpening (by decide) fun b hb => hlast hb

private theorem fresh_closing : Fresh pair.closing (m.head ++ rest) := by
  cases pair
  · exact fresh_head soapClosing (by decide) fun b hb => .inl (Option.some.inj (show some GREATER = some b from hb)).symm
  · exact fresh_head sClosing (by decide) fun b hb => .inl (Option.some.inj (show some GREATER = some b from hb)).symm

def matchOf (pair : TagPair) (text : Bytes) : Option Bytes :=
  firstMatch pair.opening pair.closing text

theorem extractEnvelope_eq :
    extractEnvelope text = (matchOf .soapEnv text).or (matchOf .s text) := by
  rw [extractEnvelope]
  change (match matchOf .soapEnv text with | some found => some found | none => matchOf .s text) = _
  cases matchOf .soapEnv text <;> rfl

/-- What is found in a stretch of text, whatever comes after it. -/
def Reads (text : Bytes) (found : TagPair → Option Bytes) : Prop :=
  ∀ rest, (∀ pair : TagPair, Fresh pair.opening rest) → ∀ pair,
    matchOf pair (text ++ rest) = (found pair).or (matchOf pair rest)

def Message.found (m : Message) (pair : TagPair) : Option Bytes :=
  if pair = m.pair then some m.envelope else none

/-- A message, or what of it is left after a beginning of its head. -/
theorem reads_rest (hpre : pre <:+ m.head) :
    Reads (pre ++ (m.pair.opening ++ (m.content ++ (m.pair.closing ++ m.tail)))) m.found := by
  intro rest hfresh pair
  rw [Message.found]
  split_ifs with hpair
  · subst hpair
    simp only [List.append_assoc]
    refine firstMatch_delimited m.pair.opening_ne_nil m.pair.closing_ne_nil (fun h => ?_) fun h => ?_
    · exact m.opensOnce.1 (h.trans (List.suffix_append_self_iff.mpr hpre).isInfix)
    · refine m.closesOnce.1 (h.trans ⟨m.head ++ m.pair.opening, [], ?_⟩)
      simp only [List.append_assoc, List.append_nil]
  · refine firstMatch_append_of_not_infix (fun h => ?_) (hfresh pair)
    exact (m.noOther pair hpair).1 (h.trans (List.suffix_append_self_iff.mpr hpre).isInfix)

private theorem reads_text : Reads m.text m.found :=
  reads_rest (List.suffix_refl _)

private theorem reads_nil : Reads [] fun _ => none :=
  fun _ _ _ => rfl

/-- A beginning of a head. -/
theorem reads_head (hpre : pre <+: m.head) : Reads pre fun _ => none := by
  intro rest hfresh pair
  refine firstMatch_append_of_not_infix (fun h => ?_) (hfresh pair)
  have hinside : pair.opening <:+: m.head := h.trans hpre.isInfix
  by_cases hpair : pair = m.pair
  · subst hpair
    exact m.opensOnce.1 (hinside.trans (List.prefix_append _ _).isInfix)
  · exact (m.noOther pair hpair).1 (hinside.trans (List.prefix_append _ _).isInfix)

theorem Reads.append {text' : Bytes} {found found' : TagPair → Option Bytes} (h : Reads text found)
    (h' : Reads text' found') (hfresh : ∀ pair : TagPair, Fresh pair.opening text') :
    Reads (text ++ text') fun pair => (found pair).or (found' pair) := by
  intro rest hrest pair
  rw [List.append_assoc, h _ (fun pair => (hfresh pair).append (hrest pair)), h' rest hrest,
    Option.or_assoc]

theorem extractEnvelope_of_reads {found : TagPair → Option Bytes} (h : Reads text found) :
    extractEnvelope text = (found .soapEnv).or (found .s) := by
  have hmatch : ∀ pair, matchOf pair text = found pair := by
    intro pair
    have := h [] (fun _ => fresh_nil) pair
    rwa [List.append_nil, matchOf, matchOf, firstMatch, Option.or_none] at this
  rw [extractEnvelope_eq, hmatch, hmatch]

/-- The first envelope between these tags. -/
@[grind =] def foundIn (pair : TagPair) : List Message → Option Bytes
  | [] => none
  | m :: ms => (m.found pair).or (foundIn pair ms)

theorem fresh_texts {ms : List Message} : Fresh pair.opening (ms.flatMap Message.text) := by
  induction ms with
  | nil => exact fresh_nil
  | cons m ms ih => exact fresh_opening.append ih

theorem reads_texts (ms : List Message) : Reads (ms.flatMap Message.text) (foundIn · ms) := by
  induction ms with
  | nil => exact reads_nil
  | cons m ms ih =>
    rw [List.flatMap_cons]
    exact reads_text.append ih fun _ => fresh_texts

/-- The envelope that is found among whole messages. -/
def preferred (ms : List Message) : Option Bytes :=
  (foundIn .soapEnv ms).or (foundIn .s ms)

/-- What comes before the end of the envelope lacks the end of the closing tag. -/
theorem prefix_cut (hbegins : pre <+: m.text) (hshort : pre.length < m.ends) :
    pre <+: (m.head ++ (m.pair.opening ++ m.content)) ++ m.pair.closing.dropLast := by
  rw [text_eq_closing] at hbegins
  refine List.prefix_of_prefix_length_le hbegins ?_ ?_
  · exact (List.prefix_append_right_inj _).mpr
      ((List.dropLast_prefix _).trans (List.prefix_append _ _))
  · have := List.length_pos_of_ne_nil m.pair.closing_ne_nil
    simp only [Message.ends, Message.envelope, List.length_append, List.length_dropLast] at hshort ⊢
    omega

/-- Nothing is found before the end of the envelope has come, wherever the text is turned round. -/
theorem extractEnvelope_turned {early late : Bytes} (hbegins : early ++ late <+: m.text)
    (hshort : (early ++ late).length < m.ends) : extractEnvelope (late ++ early) = none := by
  have hcut := prefix_cut hbegins hshort
  have hearly : early <+: m.text := (List.prefix_append _ _).trans hbegins
  have hown : matchOf m.pair (late ++ early) = none := by
    refine firstMatch_eq_none_of_closing m.pair.closing_ne_nil
      (not_infix_append (fun h => ?_) (fun h => ?_) (fresh_closing.of_prefix hearly))
    · exact m.closesOnce.1 (h.trans ((List.suffix_append _ _).isInfix.trans hcut.isInfix))
    · exact m.closesOnce.1 (h.trans ((List.prefix_append _ _).isInfix.trans hcut.isInfix))
  have hother : ∀ pair, pair ≠ m.pair → matchOf pair (late ++ early) = none := by
    intro pair hpair
    refine firstMatch_eq_none_of_opening
      (not_infix_append (fun h => ?_) (fun h => ?_) (fresh_opening.of_prefix hearly))
    · exact (m.noOther pair hpair).1 (h.trans ((List.suffix_append _ _).isInfix.trans hbegins.isInfix))
    · exact (m.noOther pair hpair).1 (h.trans hearly.isInfix)
  have hnone : ∀ pair, matchOf pair (late ++ early) = none := by
    intro pair
    by_cases hpair : pair = m.pair
    · rw [hpair, hown]
    · exact hother pair hpair
  rw [extractEnvelope_eq, hnone, hnone]
  rfl

/-- A message whose envelope is turned round is not found either. -/
theorem uncut_of_extractEnvelope {early late : Bytes} (hbegins : early ++ late <+: m.text)
    (h : extractEnvelope (late ++ early) = some m.envelope) (hends : early.length < m.ends) :
    early.length ≤ m.head.length := by
  by_contra hcut
  rw [Nat.not_le] at hcut
  have hinside : m.envelope <:+: late ++ early := by
    rw [extractEnvelope_eq] at h
    rcases Option.or_eq_some_iff.mp h with h | ⟨_, h⟩
    · exact (firstMatch_stretch h).1
    · exact (firstMatch_stretch h).1
  have hearly : ¬m.pair.closing <:+: early := fun h' => m.closesOnce.1
    (h'.trans (prefix_cut ((List.prefix_append _ _).trans hbegins) hends).isInfix)
  have hlate : ¬m.pair.opening <:+: late := by
    refine fun h' => m.opensOnce.2 (h'.trans ?_)
    obtain ⟨rest, hrest⟩ := hbegins
    have hdrop : m.text.drop early.length = late ++ rest := by
      rw [← hrest, List.append_assoc, List.drop_left]
    have htail : m.text.drop (m.head.length + 1) =
        m.pair.opening.tail ++ (m.content ++ (m.pair.closing ++ m.tail)) := by
      rw [Message.text, ← List.drop_drop, List.drop_left, List.drop_one,
        List.tail_append_of_ne_nil m.pair.opening_ne_nil]
    have hsuffix : m.text.drop early.length <:+ m.text.drop (m.head.length + 1) := by
      obtain ⟨n, hn⟩ := Nat.exists_eq_add_of_le hcut
      rw [hn, ← List.drop_drop]
      exact List.drop_suffix _ _
    rw [hdrop, htail] at hsuffix
    exact (List.prefix_append _ _).isInfix.trans hsuffix.isInfix
  rcases List.infix_append_iff.mp hinside with hl | hr | ⟨s, t, heq, hs, ht⟩
  · exact hlate ((List.prefix_append _ _).isInfix.trans hl)
  · exact hearly (List.IsInfix.trans ⟨m.pair.opening ++ m.content, [], by
      simp only [Message.envelope, List.append_assoc, List.append_nil]⟩ hr)
  · rw [Message.envelope] at heq
    rcases List.append_eq_append_iff.mp heq with ⟨s', rfl, hrest⟩ | ⟨t', hopening, rfl⟩
    · exact hlate ((List.prefix_append _ _).isInfix.trans hs.isInfix)
    · exact hearly (List.IsInfix.trans ⟨t' ++ m.content, [], by
        simp only [List.append_assoc, List.append_nil]⟩ ht.isInfix)

end Kanat.OnVif
