import Mathlib.Data.Bool.AllAny
import Kanat.OnVifStreams

/-! # When every message of a stream is parsed once, at its last segment

`InStep` is a condition on the messages and the segments they are sent in. It is met exactly where every call of the
reassembler finds what it should: first for the first message, then for those after it. -/
namespace Kanat.OnVif
open DelimitedMatch

/-- A message and the segments it is sent in. -/
structure Sent where
  message : Message
  segments : List Bytes
  filled : ∀ data ∈ segments, data ≠ []
  cut : segments.flatten = message.text

/-- What each segment's call should find: the envelope, at the segment that brings its end. -/
@[grind =] def expected (m : Message) (sent : ℕ) : List Bytes → List (Option Bytes)
  | [] => []
  | data :: datas =>
      (if sent < m.ends ∧ m.ends ≤ sent + data.length then some m.envelope else none) ::
        expected m (sent + data.length) datas

def streamSegments (stream : List Sent) : List Bytes :=
  stream.flatMap Sent.segments

def streamExpected (stream : List Sent) : List (Option Bytes) :=
  stream.flatMap fun sent => expected sent.message 0 sent.segments

/-- The messages whose segments all begin before the room is used up. -/
@[grind =] def beforeCrossing (n before : ℕ) : List Sent → List Message
  | [] => []
  | sent :: stream =>
      if late n before sent.segments = [] then
        sent.message :: beforeCrossing n (before + sent.message.text.length) stream
      else []

@[grind =] def afterCrossing (n before : ℕ) : List Sent → List Message
  | [] => []
  | sent :: stream =>
      if late n before sent.segments = [] then
        afterCrossing n (before + sent.message.text.length) stream
      else (sent :: stream).map Sent.message

def Alike (a b : Message) : Prop :=
  a.pair = b.pair → a.envelope = b.envelope

/-- Once one tag pair is found first, it always is. -/
def Follows (a b : Message) : Prop :=
  a.pair = .soapEnv → b.pair = .soapEnv

/-- The condition under which the parser keeps step with the stream: only the first message is cut
into segments, the last of which brings its envelope's end, and number 2 ^ 31 does not come between
the segments its envelope is in; no `s` envelope follows a `SOAP-ENV` one; and on either side of
number 2 ^ 31 the envelopes between the same tags are the same. -/
structure InStep (isn : BitVec 32) (stream : List Sent) : Prop where
  endsLast : ∀ sent ∈ stream.head?, sent.segments.dropLast.flatten.length < sent.message.ends
  uncut : ∀ sent ∈ stream.head?, late (room isn) 0 sent.segments = [] ∨
    (early (room isn) 0 sent.segments).flatten.length ≤ sent.message.head.length
  single : ∀ sent ∈ stream.tail, sent.segments.length = 1
  follows : (stream.map Sent.message).Pairwise Follows
  alikeBefore : (beforeCrossing (room isn) 0 stream).Pairwise Alike
  alikeAfter : (afterCrossing (room isn) 0 stream).Pairwise Alike

section
variable {pair : TagPair} {ms ms' : List Message} {m x : Message}

theorem foundIn_append : foundIn pair (ms ++ ms') = (foundIn pair ms).or (foundIn pair ms') := by
  induction ms with
  | nil => rfl
  | cons m ms ih => rw [List.cons_append, foundIn, foundIn, ih, Option.or_assoc]

theorem foundIn_eq_none_iff : foundIn pair ms = none ↔ ∀ m ∈ ms, m.pair ≠ pair := by
  induction ms with
  | nil => exact iff_of_true rfl (by simp)
  | cons m ms ih =>
    rw [foundIn, Message.found, List.forall_mem_cons, ← ih]
    split_ifs with hpair
    · exact iff_of_false (Option.some_ne_none _) fun h => h.1 hpair.symm
    · exact ⟨fun h => ⟨fun heq => hpair heq.symm, h⟩, And.right⟩

theorem mem_of_foundIn {e : Bytes} (h : foundIn pair ms = some e) :
    ∃ m ∈ ms, m.pair = pair ∧ m.envelope = e := by
  induction ms with
  | nil => cases h
  | cons m ms ih =>
    rw [foundIn, Message.found] at h
    split_ifs at h with hpair
    · exact ⟨m, List.mem_cons_self, hpair.symm, Option.some.inj h⟩
    · obtain ⟨m', hm', hm⟩ := ih h
      exact ⟨m', List.mem_cons_of_mem _ hm', hm⟩

private theorem preferred_singleton : preferred [m] = some m.envelope := by
  rw [preferred, foundIn, foundIn, foundIn, foundIn, Message.found, Message.found]
  cases m.pair <;> rfl

private theorem foundIn_of_alike (h : ms.Pairwise Alike) (hm : m ∈ ms) :
    foundIn m.pair ms = some m.envelope := by
  induction ms with
  | nil => cases hm
  | cons m' ms ih =>
    rw [List.pairwise_cons] at h
    rw [foundIn, Message.found]
    split_ifs with hpair
    · rcases List.mem_cons.mp hm with rfl | hm
      · rfl
      · rw [h.1 m hm hpair.symm]
        rfl
    · rcases List.mem_cons.mp hm with rfl | hm
      · exact absurd rfl hpair
      · exact ih h.2 hm

/-- The next envelope is the one found exactly when it is like those in front of it. -/
theorem preferred_concat_iff (halike : ms.Pairwise Alike) :
    preferred ((ms ++ [x]) ++ ms') = some x.envelope ↔
      (∀ m ∈ ms, Follows m x ∧ Alike m x) ∧ ∀ m ∈ ms', Follows m x := by
  have hsingle : foundIn x.pair [x] = some x.envelope := by
    rw [foundIn, Message.found, if_pos rfl]
    rfl
  have hfirst : (∀ m ∈ ms, Alike m x) → foundIn x.pair (ms ++ [x]) = some x.envelope := by
    intro h
    rw [foundIn_append]
    cases hfound : foundIn x.pair ms with
    | none => exact hsingle
    | some e =>
      obtain ⟨m, hm, hpair, rfl⟩ := mem_of_foundIn hfound
      exact congrArg some (h m hm hpair)
  have halikes : foundIn x.pair ((ms ++ [x]) ++ ms') = some x.envelope → ∀ m ∈ ms, Alike m x := by
    intro h m hm hpair
    rw [foundIn_append, foundIn_append, ← hpair, foundIn_of_alike halike hm] at h
    exact Option.some.inj h
  cases hx : x.pair with
  | soapEnv =>
    rw [hx] at hfirst halikes hsingle
    refine ⟨fun h => ?_, fun h => ?_⟩
    · have hsoap : foundIn .soapEnv ((ms ++ [x]) ++ ms') = some x.envelope := by
        rw [preferred, foundIn_append, foundIn_append, hsingle] at h
        rw [foundIn_append, foundIn_append, hsingle]
        cases hfound : foundIn .soapEnv ms with
        | none => rfl
        | some e =>
          rw [hfound] at h
          exact h
      exact ⟨fun m hm => ⟨fun _ => hx, halikes hsoap m hm⟩, fun m hm _ => hx⟩
    · rw [preferred, foundIn_append, hfirst fun m hm => (h.1 m hm).2]
      rfl
  | s =>
    rw [hx] at hfirst halikes
    have hnone : (∀ m ∈ (ms ++ [x]) ++ ms', m.pair ≠ .soapEnv) ↔
        (∀ m ∈ ms, Follows m x) ∧ ∀ m ∈ ms', Follows m x := by
      have hfollows : ∀ m, Follows m x ↔ m.pair ≠ .soapEnv := fun m =>
        ⟨fun h hm => absurd (hx.symm.trans (h hm)) (by decide), fun h hm => absurd hm h⟩
      simp only [hfollows, List.mem_append, List.mem_singleton]
      refine ⟨fun h => ⟨fun m hm => h m (.inl (.inl hm)), fun m hm => h m (.inr hm)⟩, ?_⟩
      rintro ⟨hms, hms'⟩ m ((hm | rfl) | hm)
      · exact hms m hm
      · rw [hx]
        decide
      · exact hms' m hm
    refine ⟨fun h => ?_, fun h => ?_⟩
    · have hsoap : foundIn .soapEnv ((ms ++ [x]) ++ ms') = none := by
        cases hfound : foundIn .soapEnv ((ms ++ [x]) ++ ms') with
        | none => rfl
        | some e =>
          obtain ⟨m, _, hpair, rfl⟩ := mem_of_foundIn hfound
          rw [preferred, hfound] at h
          exact absurd (Option.some.inj h) (envelope_ne (by rw [hpair, hx]; decide))
      rw [preferred, hsoap, Option.none_or] at h
      obtain ⟨hms, hms'⟩ := hnone.mp (foundIn_eq_none_iff.mp hsoap)
      exact ⟨fun m hm => ⟨hms m hm, halikes h m hm⟩, hms'⟩
    · have hsoap := foundIn_eq_none_iff.mpr (hnone.mpr ⟨fun m hm => (h.1 m hm).1, h.2⟩)
      rw [preferred, hsoap, Option.none_or, foundIn_append, hfirst fun m hm => (h.1 m hm).2]
      rfl

end

section
variable {n before : ℕ} {first sent : Sent} {stream rest : List Sent}

theorem streamSegments_cons :
    streamSegments (sent :: stream) = sent.segments ++ streamSegments stream :=
  List.flatMap_cons

theorem flatten_streamSegments :
    (streamSegments stream).flatten = (stream.map Sent.message).flatMap Message.text := by
  induction stream with
  | nil => rfl
  | cons sent stream ih =>
    rw [streamSegments_cons, List.flatten_append, sent.cut, ih, List.map_cons, List.flatMap_cons]

private theorem beforeCrossing_append_afterCrossing :
    beforeCrossing n before stream ++ afterCrossing n before stream = stream.map Sent.message := by
  induction stream generalizing before with
  | nil => rfl
  | cons sent stream ih =>
    rw [beforeCrossing, afterCrossing]
    split_ifs
    · rw [List.cons_append, ih, List.map_cons]
    · rfl

/-- Whole segments fall on either side of number 2 ^ 31 with their messages. -/
theorem flatten_single (n before : ℕ) (h : ∀ sent ∈ stream, sent.segments.length = 1) :
    (early n before (streamSegments stream)).flatten =
        (beforeCrossing n before stream).flatMap Message.text ∧
      (late n before (streamSegments stream)).flatten =
        (afterCrossing n before stream).flatMap Message.text := by
  induction stream generalizing before with
  | nil => exact ⟨rfl, rfl⟩
  | cons sent stream ih =>
    obtain ⟨hearly, hlate⟩ := ih (before + sent.message.text.length)
      fun sent' h' => h sent' (List.mem_cons_of_mem _ h')
    rw [streamSegments_cons, early_append, late_append, beforeCrossing, afterCrossing, sent.cut]
    split_ifs with hcross
    · have hsegments := early_append_late n before sent.segments
      rw [hcross, List.append_nil] at hsegments
      rw [List.flatten_append, hsegments, sent.cut, hearly, List.flatMap_cons]
      exact ⟨rfl, hlate⟩
    · obtain ⟨data, hdata⟩ := List.length_eq_one_iff.mp (h sent List.mem_cons_self)
      have hroom : ¬before < n := fun hroom => hcross (by rw [hdata, late, if_pos hroom]; rfl)
      rw [hdata, early, late, if_neg hroom, if_neg hroom, ← hdata]
      refine ⟨rfl, ?_⟩
      rw [List.flatten_append, sent.cut, flatten_streamSegments, List.map_cons, List.flatMap_cons]

/-- The envelope that is found once whole messages have come. -/
theorem extractEnvelope_whole
    (huncut : late n 0 first.segments = [] ∨
      (early n 0 first.segments).flatten.length ≤ first.message.head.length)
    (hsingle : ∀ sent ∈ rest, sent.segments.length = 1) :
    extractEnvelope (turned n (streamSegments (first :: rest))) =
      preferred (afterCrossing n 0 (first :: rest) ++ beforeCrossing n 0 (first :: rest)) := by
  have hsplit := early_append_late n 0 first.segments
  obtain ⟨hearly, hlate⟩ := flatten_single n (0 + first.message.text.length) hsingle
  rw [turned, streamSegments_cons, early_append, late_append, beforeCrossing, afterCrossing, first.cut]
  by_cases hcross : late n 0 first.segments = []
  · rw [hcross, List.append_nil] at hsplit
    rw [if_pos hcross, if_pos hcross, if_pos hcross, if_pos hcross, List.flatten_append, hsplit,
      first.cut, hearly, hlate, ← List.flatMap_cons, ← List.flatMap_append]
    exact extractEnvelope_of_reads (reads_texts _)
  · rw [if_neg hcross, if_neg hcross, if_neg hcross, if_neg hcross, List.append_nil,
      List.flatten_append, flatten_streamSegments]
    have hshort := huncut.resolve_left hcross
    have htext : (early n 0 first.segments).flatten ++ (late n 0 first.segments).flatten =
        first.message.text := by
      rw [← List.flatten_append, hsplit, first.cut]
    have hbegins : (early n 0 first.segments).flatten <+: first.message.text :=
      htext ▸ List.prefix_append _ _
    obtain ⟨pre, hpre⟩ : (early n 0 first.segments).flatten <+: first.message.head :=
      List.prefix_of_prefix_length_le hbegins (List.prefix_append _ _) hshort
    have hrest : (late n 0 first.segments).flatten = pre ++ (first.message.pair.opening ++
        (first.message.content ++ (first.message.pair.closing ++ first.message.tail))) := by
      rw [Message.text, ← hpre, List.append_assoc] at htext
      exact List.append_cancel_left htext
    have hfresh : ∀ pair : TagPair, Fresh pair.opening (early n 0 first.segments).flatten :=
      fun _ => fresh_opening.of_prefix hbegins
    have hreads := (reads_rest (hpre ▸ List.suffix_append _ _)).append
      ((reads_texts (rest.map Sent.message)).append (reads_head (hpre ▸ List.prefix_append _ _)) hfresh)
      fun pair => fresh_texts.append (hfresh pair)
    rw [← hrest] at hreads
    rw [List.append_assoc, extractEnvelope_of_reads hreads]
    simp only [Option.or_none]
    rfl

theorem answers_append {past datas datas' : List Bytes} : answers n past (datas ++ datas') =
    answers n past datas ++ answers n (past ++ datas) datas' := by
  induction datas generalizing past with
  | nil => rw [List.nil_append, List.append_nil, answers, List.nil_append]
  | cons data datas ih =>
    rw [List.cons_append, answers, answers, ih, List.append_assoc]
    rfl

private theorem length_answers {past datas : List Bytes} : (answers n past datas).length = datas.length := by
  induction datas generalizing past with
  | nil => rfl
  | cons data datas ih => exact congrArg (· + 1) ih

theorem expected_append {m : Message} {k : ℕ} {datas datas' : List Bytes} :
    expected m k (datas ++ datas') =
      expected m k datas ++ expected m (k + datas.flatten.length) datas' := by
  induction datas generalizing k with
  | nil => rfl
  | cons data datas ih =>
    rw [List.cons_append, expected, expected, ih, List.flatten_cons, List.length_append, Nat.add_assoc]
    rfl

private theorem length_expected {m : Message} {k : ℕ} {datas : List Bytes} :
    (expected m k datas).length = datas.length := by
  induction datas generalizing k with
  | nil => rfl
  | cons data datas ih => exact congrArg (· + 1) ih

theorem flatten_early_late (n : ℕ) (datas : List Bytes) :
    (early n 0 datas).flatten ++ (late n 0 datas).flatten = datas.flatten := by
  rw [← List.flatten_append, early_append_late]

/-- Before its envelope has come, nothing of a message is found. -/
theorem answers_short {m : Message} {past datas : List Bytes}
    (hbegins : (past ++ datas).flatten <+: m.text) (hshort : (past ++ datas).flatten.length < m.ends) :
    answers n past datas = expected m past.flatten.length datas := by
  induction datas generalizing past with
  | nil => rfl
  | cons data datas ih =>
    rw [List.append_cons] at hbegins hshort
    have hlength : (past ++ [data]).flatten.length = past.flatten.length + data.length := by simp
    have hhead : (past ++ [data]).flatten.length < m.ends := by
      rw [List.flatten_append, List.length_append] at hshort
      omega
    have hnone : extractEnvelope (turned n (past ++ [data])) = none := by
      have hsplit := flatten_early_late n (past ++ [data])
      refine extractEnvelope_turned (m := m) ?_ ?_
      · rw [hsplit]
        rw [List.flatten_append] at hbegins
        exact (List.prefix_append _ _).trans hbegins
      · rwa [hsplit]
    rw [answers, expected, hnone, ih hbegins hshort, hlength, if_neg (by omega)]

theorem ends_pos (m : Message) : 0 < m.ends := by
  have := List.length_pos_of_ne_nil m.pair.opening_ne_nil
  simp only [Message.ends, Message.envelope, List.length_append]
  omega

theorem ends_le (m : Message) : m.ends ≤ m.text.length := by
  rw [length_text]
  exact Nat.le_add_right _ _

theorem segments_ne_nil : sent.segments ≠ [] := by
  intro h
  have hcut := congrArg List.length sent.cut
  rw [h, List.flatten_nil, List.length_nil] at hcut
  have := ends_pos sent.message
  have := ends_le sent.message
  omega

theorem answers_first
    (hends : first.segments.dropLast.flatten.length < first.message.ends)
    (huncut : late n 0 first.segments = [] ∨
      (early n 0 first.segments).flatten.length ≤ first.message.head.length) :
    answers n [] first.segments = expected first.message 0 first.segments := by
  obtain ⟨init, data, hsegments⟩ : ∃ init data, first.segments = init ++ [data] :=
    ⟨_, _, (List.dropLast_append_getLast segments_ne_nil).symm⟩
  have hcut := first.cut
  rw [hsegments, List.flatten_append, List.flatten_singleton] at hcut
  have hlength := congrArg List.length hcut
  have hshort : init.flatten.length < first.message.ends := by
    rwa [hsegments, List.dropLast_concat] at hends
  have hfound : extractEnvelope (turned n ([] ++ init ++ [data])) = some first.message.envelope := by
    rw [List.nil_append, ← hsegments, ← List.append_nil first.segments]
    have hnone : ∀ sent ∈ ([] : List Sent), sent.segments.length = 1 := nofun
    refine (extractEnvelope_whole huncut hnone).trans ?_
    rw [beforeCrossing, afterCrossing, afterCrossing, beforeCrossing]
    split_ifs <;> exact preferred_singleton
  have := ends_le first.message
  rw [List.length_append] at hlength
  rw [hsegments, answers_append, expected_append, answers_short (m := first.message), answers, answers,
    hfound, expected, expected, if_pos ⟨by omega, by omega⟩]
  · rfl
  · exact hcut ▸ List.prefix_append _ _
  · exact hshort

/-- From the end of the first envelope on, something is found at every call. -/
theorem isSome_after {m : Message} {datas datas' : List Bytes} (hbegins : datas.flatten <+: m.text)
    (hends : m.ends ≤ datas.flatten.length)
    (huncut : late n 0 datas = [] ∨ (early n 0 datas).flatten.length ≤ m.head.length) :
    (extractEnvelope (turned n (datas ++ datas'))).isSome := by
  have hwhole : m.head ++ m.envelope <+: datas.flatten := by
    refine List.prefix_of_prefix_length_le ?_ hbegins ?_
    · rw [text_eq]
      exact List.prefix_append _ _
    · rwa [List.length_append]
  have hinside : m.envelope <:+: turned n (datas ++ datas') := by
    rw [turned, early_append, late_append]
    by_cases hcross : late n 0 datas = []
    · have hearly := early_append_late n 0 datas
      rw [hcross, List.append_nil] at hearly
      rw [if_pos hcross, if_pos hcross, hearly, List.flatten_append]
      have hsuffix : m.envelope <:+: datas.flatten :=
        (List.suffix_append _ _).isInfix.trans hwhole.isInfix
      exact hsuffix.trans ((List.prefix_append _ _).isInfix.trans (List.suffix_append _ _).isInfix)
    · have hshort := huncut.resolve_left hcross
      rw [if_neg hcross, if_neg hcross, List.flatten_append]
      have hsplit := flatten_early_late n datas
      rw [← hsplit] at hwhole
      have hhead : m.head <+: (early n 0 datas).flatten ++ (late n 0 datas).flatten :=
        (List.prefix_append _ _).trans hwhole
      obtain ⟨pre, hpre⟩ := List.prefix_of_prefix_length_le (List.prefix_append _ _) hhead hshort
      rw [← hpre, List.append_assoc, List.prefix_append_right_inj] at hwhole
      have hsuffix : m.envelope <:+: (late n 0 datas).flatten :=
        (List.suffix_append _ _).isInfix.trans hwhole.isInfix
      exact hsuffix.trans ((List.prefix_append _ _).isInfix.trans (List.prefix_append _ _).isInfix)
  have hmatch : (matchOf m.pair (turned n (datas ++ datas'))).isSome :=
    isSome_firstMatch m.pair.opening_ne_nil m.pair.closing_ne_nil hinside
  rw [extractEnvelope_eq, Option.isSome_or]
  revert hmatch
  cases m.pair with
  | soapEnv => exact fun h => by rw [h, Bool.true_or]
  | s => exact fun h => by rw [h, Bool.or_true]

private theorem isSome_answers {m : Message} {past datas' datas : List Bytes} (hbegins : past.flatten <+: m.text)
    (hends : m.ends ≤ past.flatten.length)
    (huncut : late n 0 past = [] ∨ (early n 0 past).flatten.length ≤ m.head.length) :
    ∀ e ∈ answers n (past ++ datas') datas, e.isSome := by
  induction datas generalizing datas' with
  | nil => nofun
  | cons data datas ih =>
    intro e he
    rw [answers, List.append_assoc] at he
    rcases List.mem_cons.mp he with rfl | he
    · exact isSome_after hbegins hends huncut
    · exact ih e he

/-- The segment that brings the end of an envelope. -/
theorem exists_ending {m : Message} {k : ℕ} {datas : List Bytes} (hk : k < m.ends)
    (hends : m.ends ≤ k + datas.flatten.length) : ∃ init data rest, datas = init ++ data :: rest ∧
      k + init.flatten.length < m.ends ∧ m.ends ≤ k + (init ++ [data]).flatten.length := by
  induction datas generalizing k with
  | nil => exact absurd hends (Nat.not_le.mpr hk)
  | cons data datas ih =>
    by_cases hdata : k + data.length < m.ends
    · rw [List.flatten_cons, List.length_append, ← Nat.add_assoc] at hends
      obtain ⟨init, data', rest, rfl, hinit, hdata'⟩ := ih hdata hends
      refine ⟨data :: init, data', rest, rfl, ?_, ?_⟩
      · rwa [List.flatten_cons, List.length_append, ← Nat.add_assoc]
      · rwa [List.cons_append, List.flatten_cons, List.length_append, ← Nat.add_assoc]
    · refine ⟨[], data, datas, rfl, hk, ?_⟩
      rw [List.nil_append, List.flatten_singleton]
      exact Nat.not_lt.mp hdata

private theorem length_early_concat {datas : List Bytes} {data : Bytes}
    (h : late n before (datas ++ [data]) ≠ []) :
    (early n before (datas ++ [data])).flatten.length ≤ datas.flatten.length := by
  have hsum := sum_early_late n before datas
  rw [late_append] at h
  rw [early_append]
  split_ifs at h ⊢ with hcross
  · have hroom : ¬before + datas.flatten.length < n := fun hroom => h (by rw [late, if_pos hroom]; rfl)
    rw [early, if_neg hroom, List.append_nil]
    omega
  · omega

/-- What a run that keeps step says of its first message. -/
theorem first_of_answers {datas : List Bytes} {es : List (Option Bytes)}
    (h : answers n [] (first.segments ++ datas) = expected first.message 0 first.segments ++ es) :
    first.segments.dropLast.flatten.length < first.message.ends ∧
      (late n 0 first.segments = [] ∨
        (early n 0 first.segments).flatten.length ≤ first.message.head.length) ∧
      ∀ e ∈ es, e.isSome := by
  obtain ⟨init, data, rest, hsegments, hinit, hdata⟩ :
      ∃ init data rest, first.segments = init ++ data :: rest ∧
        0 + init.flatten.length < first.message.ends ∧
        first.message.ends ≤ 0 + (init ++ [data]).flatten.length :=
    exists_ending (ends_pos _) (by rw [first.cut, Nat.zero_add]; exact ends_le _)
  rw [Nat.zero_add] at hinit hdata
  have hlength : (init ++ [data]).flatten.length = init.flatten.length + data.length := by simp
  have hbegins : (init ++ [data]).flatten <+: first.message.text := by
    have hsplit : first.message.text = (init ++ [data]).flatten ++ rest.flatten := by
      rw [← first.cut, hsegments, List.append_cons init data rest, List.flatten_append]
    exact hsplit ▸ List.prefix_append _ _
  rw [hsegments, List.append_assoc, List.cons_append, answers_append, expected_append,
    List.append_assoc] at h
  have hlengths : (answers n [] init).length = (expected first.message 0 init).length := by
    rw [length_answers, length_expected]
  have hsecond := (List.append_inj h hlengths).2
  rw [List.nil_append, Nat.zero_add, answers, expected, if_pos ⟨hinit, hlength ▸ hdata⟩,
    List.cons_append] at hsecond
  obtain ⟨hfound, hlater⟩ := List.cons.inj hsecond
  have huncut : late n 0 (init ++ [data]) = [] ∨
      (early n 0 (init ++ [data])).flatten.length ≤ first.message.head.length := by
    by_cases hcross : late n 0 (init ++ [data]) = []
    · exact .inl hcross
    · refine .inr (uncut_of_extractEnvelope ?_ hfound ?_)
      · rwa [flatten_early_late]
      · exact Nat.lt_of_le_of_lt (length_early_concat hcross) hinit
  have hsome : ∀ e ∈ expected first.message (init.flatten.length + data.length) rest ++ es, e.isSome := by
    rw [← hlater, ← List.append_nil (init ++ [data])]
    exact isSome_answers hbegins hdata huncut
  have hrest : rest = [] := by
    cases rest with
    | nil => rfl
    | cons data' rest =>
      have hnone := hsome _ (List.mem_append_left _ List.mem_cons_self)
      rw [if_neg (by omega)] at hnone
      cases hnone
  subst hrest
  refine ⟨?_, hsegments ▸ huncut, fun e he => hsome e (List.mem_append_right _ he)⟩
  rwa [hsegments, List.dropLast_concat]

private theorem single_of_isSome (h : ∀ e ∈ streamExpected stream, e.isSome) :
    ∀ sent ∈ stream, sent.segments.length = 1 := by
  intro sent hsent
  have hsome : ∀ e ∈ expected sent.message 0 sent.segments, e.isSome := fun e he =>
    h e (List.mem_flatMap.mpr ⟨sent, hsent, he⟩)
  cases hsegments : sent.segments with
  | nil => exact absurd hsegments segments_ne_nil
  | cons data datas =>
    cases datas with
    | nil => rfl
    | cons data' datas =>
      rw [hsegments, expected, expected] at hsome
      have hfirst := hsome _ List.mem_cons_self
      have hsecond := hsome _ (List.mem_cons_of_mem _ List.mem_cons_self)
      split_ifs at hfirst hsecond
      · omega
      · cases hsecond
      · cases hfirst
      · cases hfirst

private theorem crossing_concat (n before : ℕ) (stream : List Sent) (sent : Sent) :
    (afterCrossing n before stream = [] ∧
      beforeCrossing n before (stream ++ [sent]) = beforeCrossing n before stream ++ [sent.message] ∧
      afterCrossing n before (stream ++ [sent]) = []) ∨
    (beforeCrossing n before (stream ++ [sent]) = beforeCrossing n before stream ∧
      afterCrossing n before (stream ++ [sent]) = afterCrossing n before stream ++ [sent.message]) := by
  induction stream generalizing before with
  | nil =>
    rw [List.nil_append]
    by_cases hcross : late n before sent.segments = []
    · exact .inl ⟨rfl, if_pos hcross, if_pos hcross⟩
    · exact .inr ⟨if_neg hcross, if_neg hcross⟩
  | cons sent' stream ih =>
    rw [List.cons_append, beforeCrossing, afterCrossing, beforeCrossing, afterCrossing]
    split_ifs
    · rcases ih (before + sent'.message.text.length) with ⟨h, hbefore, hafter⟩ | ⟨hbefore, hafter⟩
      · exact .inl ⟨h, congrArg _ hbefore, hafter⟩
      · exact .inr ⟨congrArg _ hbefore, hafter⟩
    · exact .inr ⟨rfl, by simp⟩

private theorem expected_single (h : sent.segments.length = 1) :
    expected sent.message 0 sent.segments = [some sent.message.envelope] := by
  obtain ⟨data, hdata⟩ := List.length_eq_one_iff.mp h
  have hcut := sent.cut
  rw [hdata, List.flatten_singleton] at hcut
  have := ends_le sent.message
  rw [hdata, expected, hcut, if_pos ⟨ends_pos _, by omega⟩]
  rfl

theorem pairwise_concat {α : Type} {R : α → α → Prop} {l : List α} {a : α} :
    (l ++ [a]).Pairwise R ↔ l.Pairwise R ∧ ∀ b ∈ l, R b a := by
  simp [List.pairwise_append]

/-- With the first message whole and the others in a segment each, the run keeps step exactly when
each envelope is the one found first. -/
theorem answers_rest_iff
    (huncut : late n 0 first.segments = [] ∨
      (early n 0 first.segments).flatten.length ≤ first.message.head.length)
    (hsingle : ∀ sent ∈ rest, sent.segments.length = 1) :
    answers n first.segments (streamSegments rest) = streamExpected rest ↔
      ((first :: rest).map Sent.message).Pairwise Follows ∧
      (beforeCrossing n 0 (first :: rest)).Pairwise Alike ∧
      (afterCrossing n 0 (first :: rest)).Pairwise Alike := by
  induction rest using List.reverseRecOn with
  | nil =>
    refine iff_of_true rfl ⟨List.pairwise_singleton _ _, ?_, ?_⟩
    · rw [beforeCrossing, beforeCrossing]
      split_ifs
      · exact List.pairwise_singleton _ _
      · exact List.Pairwise.nil
    · rw [afterCrossing, afterCrossing]
      split_ifs
      · exact List.Pairwise.nil
      · exact List.pairwise_singleton _ _
  | append_singleton rest sent ih =>
    have hinit : ∀ sent' ∈ rest, sent'.segments.length = 1 := fun sent' h =>
      hsingle sent' (List.mem_append_left _ h)
    have hlast : sent.segments.length = 1 := hsingle sent (by simp)
    obtain ⟨data, hdata⟩ := List.length_eq_one_iff.mp hlast
    have hwhole := extractEnvelope_whole huncut hsingle
    have hsegments : streamSegments (rest ++ [sent]) = streamSegments rest ++ [data] := by
      rw [streamSegments, List.flatMap_append, List.flatMap_singleton, hdata]
      rfl
    have hexpected : streamExpected (rest ++ [sent]) =
        streamExpected rest ++ [some sent.message.envelope] := by
      rw [streamExpected, List.flatMap_append, List.flatMap_singleton, expected_single hlast]
      rfl
    rw [streamSegments_cons, hsegments, ← List.append_assoc] at hwhole
    have hstep : answers n first.segments (streamSegments (rest ++ [sent])) =
          streamExpected (rest ++ [sent]) ↔
        answers n first.segments (streamSegments rest) = streamExpected rest ∧
          preferred (afterCrossing n 0 (first :: (rest ++ [sent])) ++
            beforeCrossing n 0 (first :: (rest ++ [sent]))) = some sent.message.envelope := by
      rw [hsegments, hexpected, answers_append, answers, answers, hwhole]
      refine ⟨fun h => ?_, fun h => by rw [h.1, h.2]⟩
      obtain ⟨hinit, hlast⟩ := List.append_inj' h rfl
      exact ⟨hinit, (List.cons.inj hlast).1⟩
    have hmessages : (first :: rest).map Sent.message =
        beforeCrossing n 0 (first :: rest) ++ afterCrossing n 0 (first :: rest) :=
      beforeCrossing_append_afterCrossing.symm
    rw [hstep, ih hinit, ← List.cons_append, List.map_append, List.map_singleton, pairwise_concat,
      hmessages]
    rcases crossing_concat n 0 (first :: rest) sent with
      ⟨hnil, hbefore, hafter⟩ | ⟨hbefore, hafter⟩
    · rw [hbefore, hafter, hnil, pairwise_concat, List.nil_append, List.append_nil,
        ← List.append_nil (beforeCrossing n 0 (first :: rest) ++ [sent.message])]
      constructor
      · rintro ⟨⟨hfollows, halike, halike'⟩, hpreferred⟩
        obtain ⟨h, _⟩ := (preferred_concat_iff halike).mp hpreferred
        exact ⟨⟨hfollows, fun m hm => (h m hm).1⟩, ⟨halike, fun m hm => (h m hm).2⟩, halike'⟩
      · rintro ⟨⟨hfollows, hfollow⟩, ⟨halike, hlike⟩, halike'⟩
        exact ⟨⟨hfollows, halike, halike'⟩, (preferred_concat_iff halike).mpr
          ⟨fun m hm => ⟨hfollow m hm, hlike m hm⟩, by simp⟩⟩
    · rw [hbefore, hafter, pairwise_concat]
      constructor
      · rintro ⟨⟨hfollows, halike, halike'⟩, hpreferred⟩
        obtain ⟨h, h'⟩ := (preferred_concat_iff halike').mp hpreferred
        refine ⟨⟨hfollows, fun m hm => ?_⟩, halike, halike', fun m hm => (h m hm).2⟩
        exact (List.mem_append.mp hm).elim (h' m) fun hm => (h m hm).1
      · rintro ⟨⟨hfollows, hfollow⟩, halike, halike', hlike⟩
        exact ⟨⟨hfollows, halike, halike'⟩, (preferred_concat_iff halike').mpr
          ⟨fun m hm => ⟨hfollow m (List.mem_append_right _ hm), hlike m hm⟩,
            fun m hm => hfollow m (List.mem_append_left _ hm)⟩⟩

/-- The calls of a whole stream find what they should exactly when the stream is in step. -/
theorem answers_iff {isn : BitVec 32} : answers (room isn) [] (streamSegments stream) =
    streamExpected stream ↔ InStep isn stream := by
  cases stream with
  | nil =>
    exact iff_of_true rfl ⟨nofun, nofun, nofun, List.Pairwise.nil, List.Pairwise.nil, List.Pairwise.nil⟩
  | cons first rest =>
    have hexpected : streamExpected (first :: rest) =
        expected first.message 0 first.segments ++ streamExpected rest := List.flatMap_cons
    rw [streamSegments_cons, hexpected]
    constructor
    · intro h
      obtain ⟨hends, huncut, hsome⟩ := first_of_answers h
      have hsingle := single_of_isSome hsome
      rw [answers_append, answers_first hends huncut, List.append_cancel_left_eq, List.nil_append] at h
      obtain ⟨hfollows, hbefore, hafter⟩ := (answers_rest_iff huncut hsingle).mp h
      refine ⟨fun sent hsent => ?_, fun sent hsent => ?_, hsingle, hfollows, hbefore, hafter⟩
      · cases hsent
        exact hends
      · cases hsent
        exact huncut
    · intro h
      have hends := h.endsLast first rfl
      have huncut := h.uncut first rfl
      have hsingle : ∀ sent ∈ rest, sent.segments.length = 1 := h.single
      rw [answers_append, answers_first hends huncut, List.nil_append,
        (answers_rest_iff huncut hsingle).mpr ⟨h.follows, h.alikeBefore, h.alikeAfter⟩]

theorem filled_streamSegments : ∀ data ∈ streamSegments stream, data ≠ [] := by
  intro data h
  obtain ⟨sent, _, hdata⟩ := List.mem_flatMap.mp h
  exact sent.filled data hdata

end

/-- Each envelope of the stream is parsed at the call that brings its last segment, and at every
other call the stream is reported not completed. -/
def ParsedOnce (reading : Reading) (key : TcpKey) (events : List Event) (stream : List Sent) : Prop :=
  (ownOutcomes key (run reading [] events)).map Outcome.tells = (streamExpected stream).map some

/-- A stream among any others, sent in order from any first sequence number. -/
theorem parsedOnce_iff {reading : Reading} {key : TcpKey} {isn : BitVec 32} {events : List Event}
    {stream : List Sent} (hown : ownPackets key events = packets key isn 0 (streamSegments stream))
    (htimeout : Event.timeout key ∉ events)
    (hlength : (streamSegments stream).flatten.length ≤ 2 ^ 32) :
    ParsedOnce reading key events stream ↔ InStep isn stream := by
  have hrun : (ownOutcomes key (run reading [] events)).map Outcome.tells =
      (answers (room isn) [] (streamSegments stream)).map some :=
    ownOutcomes_run hown htimeout rfl hlength filled_streamSegments
  rw [ParsedOnce, hrun, List.map_inj_right fun _ _ => Option.some.inj, answers_iff]

def poll : Message where
  pair := .s
  head := bytes "POST /onvif "
  content := bytes ">zoom"
  tail := []
  startLine := ⟨bytes "POST", bytes "/onvif ", by decide, List.all_iff_forall_prop.mp (by decide)⟩
  opensOnce := by decide
  closesOnce := by decide
  noOther
    | .soapEnv, _ => by decide
    | .s, h => absurd rfl h

def ranged : Message where
  pair := .s
  head := bytes "HTTP/1.1 200 "
  content := bytes ">range"
  tail := []
  startLine := ⟨bytes "HTTP/1.1", bytes "200 ", by decide, List.all_iff_forall_prop.mp (by decide)⟩
  opensOnce := by decide
  closesOnce := by decide
  noOther
    | .soapEnv, _ => by decide
    | .s, h => absurd rfl h

def sentWhole (m : Message) (h : m.text ≠ []) : Sent where
  message := m
  segments := [m.text]
  filled := by
    intro data hdata
    rwa [List.mem_singleton.mp hdata]
  cut := List.flatten_singleton

def camera : TcpKey := ⟨"10.0.0.2", 8080, "10.0.0.9", 41000⟩

def silent : Reading := ⟨fun _ => none, fun _ => none⟩

/-- The stream alone, from sequence number 7. -/
def sentAlone (stream : List Sent) : List Event :=
  (packets camera 7 0 (streamSegments stream)).map fun p => .packet (some p)

def polledTwice : List Sent := [sentWhole poll (by decide), sentWhole poll (by decide)]

/-- The same request twice is parsed twice. -/
theorem parsedOnce_iff_polledTwice :
    ParsedOnce silent camera (sentAlone polledTwice) polledTwice ↔ InStep 7 polledTwice :=
  parsedOnce_iff ownPackets_alone (by simp [sentAlone]) (by decide)

def polledThenRanged : List Sent := [sentWhole poll (by decide), sentWhole ranged (by decide)]

/-- At the second message the first one is parsed again. -/
theorem not_parsedOnce_polledThenRanged :
    ownPackets camera (sentAlone polledThenRanged) =
        packets camera 7 0 (streamSegments polledThenRanged) ∧
      .timeout camera ∉ sentAlone polledThenRanged ∧
      (ownOutcomes camera (run silent [] (sentAlone polledThenRanged))).map Outcome.tells =
        [some (some poll.envelope), some (some poll.envelope)] ∧
      ¬ParsedOnce silent camera (sentAlone polledThenRanged) polledThenRanged := by
  have htimeout : .timeout camera ∉ sentAlone polledThenRanged := by simp [sentAlone]
  have hrun : (ownOutcomes camera (run silent [] (sentAlone polledThenRanged))).map Outcome.tells =
      (answers (room 7) [] (streamSegments polledThenRanged)).map some :=
    ownOutcomes_run ownPackets_alone htimeout rfl (by decide) filled_streamSegments
  have hanswers : answers (room 7) [] (streamSegments polledThenRanged) =
      [some poll.envelope, some poll.envelope] := by decide
  rw [hanswers] at hrun
  have hexpected : streamExpected polledThenRanged = [some poll.envelope, some ranged.envelope] := by
    decide
  refine ⟨ownPackets_alone, htimeout, hrun, fun h => ?_⟩
  rw [ParsedOnce, hrun, hexpected] at h
  revert h
  decide

end Kanat.OnVif
