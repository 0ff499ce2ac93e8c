import Kanat.StreamGaps
import Kanat.InsertionOrderDict
import Mathlib.Data.List.MinMax
import Mathlib.Algebra.GroupWithZero.Nat

/-! # What a Stream counts for its report

`Stream._count` and `Stream.report`, over the reading thread. The report's lines on the Looks taken and dropped
late are left out. -/
namespace Kanat.StreamReport
open Rounding (pyRound)
open Persistence (lookedAt)
open LiveStream (Reader Grab Outcome Placement liveFps opened)
open InsertionOrderDict (Dict)

/-- The reading thread's state, with what only the report reads: `drops` in seconds and frames missed,
`upstream` in frames lost and due, `unspanned` the frames received since a timestamp last spanned some time. -/
structure Stream where
  reader : Reader
  first : ℚ
  received : ℕ
  untimed : ℕ
  resumed : ℕ
  steps : Dict ℚ ℕ
  spanned : ℚ
  spannedFrames : ℕ
  unspanned : ℕ
  drops : List (ℚ × ℕ)
  upstream : List (ℕ × ℕ)

def Stream.opened (pos arrived : ℚ) : Stream where
  reader := LiveStream.opened pos arrived
  first := arrived
  received := 1
  untimed := 0
  resumed := 0
  steps := []
  spanned := 0
  spannedFrames := 0
  unspanned := 0
  drops := []
  upstream := []

/-- Python's round(x, 2). -/
def round2 (x : ℚ) : ℚ := pyRound (x * 100) / 100

/-- A Counter's total. -/
def total (counts : Dict ℚ ℕ) : ℕ := (counts.map Prod.snd).sum

/-- A Counter's commonest key, the first counted of several. -/
def mostCommon (counts : Dict ℚ ℕ) : Option ℚ := (counts.argmax Prod.snd).map Prod.fst

/-- A division that raises on zero. -/
def divided (x y : ℚ) : Option ℚ := if y = 0 then none else some (x / y)

/-- The low coverage warning: what the frames not timed by a step were. -/
structure Coverage where
  timed : ℕ
  received : ℕ
  untimed : ℕ
  resumed : ℕ
  reconnected : ℕ

inductive Rate where
  | timestamps (steps received spanned : ℚ)
  | wallClock (warning : Option Coverage) (arrived : Option ℚ) (elapsed : ℚ)

structure Report where
  rate : Rate
  drops : ℕ
  down : ℚ
  missed : ℕ
  gaps : ℕ
  lost : ℕ
  due : ℕ
  untimed : ℕ

namespace Stream

def timed (s : Stream) : ℕ := total s.steps

/-- A frame received: resumed, untimed or timed by its step, if it does not end a drop. -/
def classified (s : Stream) : Option ℚ → Stream
  | none => if s.reader.down then s else { s with resumed := s.resumed + 1 }
  | some step =>
    if step ≤ 0 then { s with untimed := s.untimed + 1 }
    else
      let rate := round2 (1000 / step)
      { s with steps := s.steps.put rate ((s.steps.get rate).getD 0 + 1) }

def spans (s : Stream) : Option ℚ → Stream
  | none => s
  | some span => { s with
      spannedFrames := s.spannedFrames + s.unspanned
      spanned := s.spanned + span / 1000 }

def count (s : Stream) (step span : Option ℚ) (received : Bool) : Stream :=
  let s :=
    if received then
      let s := s.classified step
      { s with unspanned := s.unspanned + 1 }
    else s
  let s := s.spans span
  if span.isSome || step.isNone then { s with unspanned := 0 } else s

def reconnect (s : Stream) : Stream := { s with reader := s.reader.reconnect }

section
variable (stride baselineFrames : ℕ)

def lostUpstream (s : Stream) (placed : ℕ) (now : ℚ) : Stream :=
  let due := Reader.dueBetween stride baselineFrames s.reader.index placed
  { s with
    reader := s.reader.lostUpstream stride baselineFrames placed now
    upstream := s.upstream ++ [(placed - (s.reader.index + 1), due.length)] }

def backFromDrop (s : Stream) (placed : ℕ) (now : ℚ) : Stream :=
  { s with
    reader := s.reader.backFromDrop stride baselineFrames placed
    drops := s.drops ++ [(now - s.reader.latest, placed - (s.reader.index + 1))] }

def receive (s : Stream) (placed : ℕ) (now : ℚ) : Stream :=
  let s := if s.reader.down then s.backFromDrop stride baselineFrames placed now else s
  { s with
    reader := { s.reader with index := placed, latest := now }
    received := s.received + 1 }

def grab (s : Stream) : Grab → Stream
  | .failed => s.reconnect
  | .grabbed pos now decodes =>
    let (p, reader) := s.reader.place pos now
    let s := { s with reader }
    let s := if !s.reader.down && s.reader.index + 1 < p.placed then s.lostUpstream stride baselineFrames p.placed now
      else s
    if lookedAt (if s.reader.offered < baselineFrames then s.reader.offered else p.placed) stride baselineFrames then
      if decodes then
        -- counted while the drop it may end is still open
        let s := (s.count p.step p.span true).receive stride baselineFrames p.placed now
        { s with reader := { s.reader with offered := s.reader.offered + 1 } }
      else (s.count p.step p.span false).reconnect
    else (s.count p.step p.span true).receive stride baselineFrames p.placed now

def run (s : Stream) (grabs : List Grab) : Stream := grabs.foldl (grab stride baselineFrames) s

end

def coverage (s : Stream) : Coverage := ⟨s.timed, s.received, s.untimed, s.resumed, s.drops.length⟩

/-- Time the stream was down is no time for frames to arrive in. -/
def elapsed (s : Stream) : ℚ := s.reader.latest - s.first - (s.drops.map Prod.fst).sum

def rate (s : Stream) : Option Rate :=
  if s.received - 1 < 2 * s.timed then do
    let steps ← mostCommon s.steps
    let received ← divided s.spannedFrames s.spanned
    return .timestamps steps received s.spanned
  else
    let warning := if 1 < s.received then some s.coverage else none
    let arrived := if 0 < s.elapsed then some ((s.received - 1) / s.elapsed) else none
    some (.wallClock warning arrived s.elapsed)

/-- The report at `now`, none where a figure of it cannot be worked out: the drop still open counts too. -/
def report (s : Stream) (now : ℚ) : Option Report := do
  let rate ← s.rate
  let down := (s.drops.map Prod.fst).sum
  return {
    rate
    drops := if s.reader.down then s.drops.length + 1 else s.drops.length
    down := if s.reader.down then down + (now - s.reader.latest) else down
    missed := (s.drops.map Prod.snd).sum
    gaps := s.upstream.length
    lost := (s.upstream.map Prod.fst).sum
    due := (s.upstream.map Prod.snd).sum
    untimed := s.untimed }

end Stream

private theorem total_put (counts : Dict ℚ ℕ) (rate : ℚ) :
    total (counts.put rate ((counts.get rate).getD 0 + 1)) = total counts + 1 := by
  induction counts with
  | nil => rfl
  | cons entry counts ih =>
    rw [Dict.put_cons, Dict.get_cons]
    split
    · show (entry.2 + 1) + total counts = entry.2 + total counts + 1
      omega
    · show entry.2 + total (Dict.put counts rate _) = entry.2 + total counts + 1
      rw [ih]
      rfl

private theorem mostCommon_of_total {counts : Dict ℚ ℕ} (h : 0 < total counts) :
    ∃ rate, mostCommon counts = some rate := by
  cases hm : counts.argmax Prod.snd with
  | none =>
    rw [List.argmax_eq_none.mp hm] at h
    exact absurd h (lt_irrefl 0)
  | some entry => exact ⟨entry.1, by rw [mostCommon, hm]; rfl⟩

private theorem divided_of_pos {x y : ℚ} (h : 0 < y) : divided x y = some (x / y) := if_neg h.ne'

namespace Stream
section
variable {stride baselineFrames : ℕ} {s : Stream}

/-- What counting leaves as it was. -/
structure Counts (s s' : Stream) : Prop where
  reader : s'.reader = s.reader
  received : s'.received = s.received
  drops : s'.drops = s.drops

private theorem classified_counts (step : Option ℚ) : s.Counts (s.classified step) := by
  cases step with
  | none =>
    rw [classified]
    split <;> exact ⟨rfl, rfl, rfl⟩
  | some step =>
    rw [classified]
    split <;> exact ⟨rfl, rfl, rfl⟩

private theorem spans_counts (span : Option ℚ) : s.Counts (s.spans span) := by
  cases span <;> exact ⟨rfl, rfl, rfl⟩

theorem count_counts (step span : Option ℚ) (received : Bool) : s.Counts (s.count step span received) := by
  have hs : s.Counts (if received then { s.classified step with unspanned := (s.classified step).unspanned + 1 }
      else s) := by
    obtain ⟨hr, hc, hd⟩ := s.classified_counts step
    cases received with
    | true => exact ⟨hr, hc, hd⟩
    | false => exact ⟨rfl, rfl, rfl⟩
  obtain ⟨hr, hc, hd⟩ := spans_counts (s := if received then _ else s) span
  rw [count]
  split
  · exact ⟨hr.trans hs.reader, hc.trans hs.received, hd.trans hs.drops⟩
  · exact ⟨hr.trans hs.reader, hc.trans hs.received, hd.trans hs.drops⟩

theorem receive_reader (placed : ℕ) (now : ℚ) :
    (s.receive stride baselineFrames placed now).reader = s.reader.receive stride baselineFrames placed now := by
  rw [receive, Reader.receive]
  split <;> rfl

variable (stride baselineFrames s) in
private theorem gap_reader (placed : ℕ) (now : ℚ) :
    (if !s.reader.down && s.reader.index + 1 < placed then s.lostUpstream stride baselineFrames placed now
      else s).reader =
      if !s.reader.down && s.reader.index + 1 < placed then s.reader.lostUpstream stride baselineFrames placed now
      else s.reader := by
  split <;> rfl

variable (stride baselineFrames s) in
private theorem gap_received (placed : ℕ) (now : ℚ) :
    (if !s.reader.down && s.reader.index + 1 < placed then s.lostUpstream stride baselineFrames placed now
      else s).received = s.received := by
  split <;> rfl

theorem receive_received (placed : ℕ) (now : ℚ) :
    (s.receive stride baselineFrames placed now).received = s.received + 1 := by
  rw [receive]
  split <;> rfl

/-- Counting for the report changes nothing the Stream reads by, and counts each frame received. -/
structure Reads (s s' : Stream) (r : Reader × Outcome) : Prop where
  reader : s'.reader = r.1
  received : s'.received = s.received + r.2.received.length

variable (stride baselineFrames) in
private theorem grab_reads (g : Grab) :
    Reads s (s.grab stride baselineFrames g) (s.reader.grab stride baselineFrames g) := by
  cases g with
  | failed => exact ⟨rfl, rfl⟩
  | grabbed pos now decodes =>
    rw [grab, Reader.grab]
    generalize s.reader.place pos now = placement
    obtain ⟨p, placed⟩ := placement
    simp only
    have hl := gap_reader stride baselineFrames { s with reader := placed } p.placed now
    have hr := gap_received stride baselineFrames { s with reader := placed } p.placed now
    generalize (if !placed.down && placed.index + 1 < p.placed then
      lostUpstream stride baselineFrames { s with reader := placed } p.placed now
      else { s with reader := placed }) = s₁ at hl hr ⊢
    rw [← hl]
    have hk := s₁.count_counts p.step p.span true
    by_cases hd : lookedAt (if s₁.reader.offered < baselineFrames then s₁.reader.offered else p.placed) stride
        baselineFrames
    · simp only [hd, if_true]
      cases decodes with
      | true =>
        refine ⟨?_, ?_⟩
        · simp only [if_true, receive_reader, hk.reader]
        · simp only [if_true, receive_received, hk.received, hr, Outcome.received, List.length_singleton]
      | false =>
        have hk := s₁.count_counts p.step p.span false
        exact ⟨congrArg Reader.reconnect hk.reader, hk.received.trans hr⟩
    · simp only [hd, Bool.false_eq_true, if_false]
      exact ⟨by rw [receive_reader, hk.reader], by rw [receive_received, hk.received, hr]; rfl⟩

/-- The class of a frame placed, by its step and what it spans. -/
structure Classed (down : Bool) (p : Placement) : Prop where
  back : down → p.step = none
  spanned : ∀ span, p.span = some span → 0 < span
  timed : ∀ step, p.step = some step → 0 < step → p.span = some step

/-- What the counters add up to. -/
structure Balanced (s : Stream) : Prop where
  received : s.received = 1 + s.timed + s.untimed + s.resumed + s.drops.length
  spanned : 0 ≤ s.spanned
  timed : 0 < s.timed → 0 < s.spanned
  frames : s.spannedFrames + s.unspanned + 1 ≤ s.received

private theorem opened_balanced (pos arrived : ℚ) : (Stream.opened pos arrived).Balanced where
  received := rfl
  spanned := le_refl _
  timed h := absurd h (lt_irrefl 0)
  frames := le_refl _

theorem untimed_classed {pos now : ℚ} (hd : ¬ s.reader.down = true) (hp : pos - s.reader.pos ≤ 0) :
    Classed s.reader.down (s.reader.untimed pos now).1 := by
  refine ⟨fun h => absurd h hd, fun span h => (by cases h), fun step h hs => ?_⟩
  cases h
  exact absurd hs (not_lt.mpr hp)

private theorem resume_classed (pos now : ℚ) : Classed s.reader.down (s.reader.resume pos now).1 := by
  have afresh : Classed s.reader.down ⟨s.reader.index + 1 + s.reader.missed now, now, none, none⟩ :=
    ⟨fun _ => rfl, fun span h => (by cases h), fun step h => (by cases h)⟩
  simp only [Reader.resume]
  split
  · exact afresh
  · split
    next hs => exact ⟨fun _ => rfl, fun span h => (by cases h; exact hs), fun step h => (by cases h)⟩
    next => exact afresh

private theorem place_classed (hs : s.reader.down → s.reader.origin = none) (pos now : ℚ) :
    Classed s.reader.down (s.reader.place pos now).1 := by
  rw [Reader.place]
  split
  next ho =>
    split
    next hr => exact resume_classed pos now
    next hr =>
      simp only [Bool.or_eq_true, decide_eq_true_eq, not_or, not_lt] at hr
      exact untimed_classed hr.1 (sub_nonpos.mpr hr.2)
  next origin ho =>
    have hd : ¬ s.reader.down = true := fun hd => by cases ho.symm.trans (hs hd)
    split
    next hp => exact untimed_classed hd hp
    next hp =>
      refine ⟨fun h => absurd h hd, fun span h => ?_, fun step h _ => h⟩
      cases h
      exact not_le.mp hp

/-- What the spans counted add, whatever else is counted. -/
structure Sums (s s' : Stream) (span : Option ℚ) : Prop where
  timed : s'.timed = s.timed
  untimed : s'.untimed = s.untimed
  resumed : s'.resumed = s.resumed
  spanned : s'.spanned = s.spanned + span.getD 0 / 1000
  frames : s'.spannedFrames + s'.unspanned ≤ s.spannedFrames + s.unspanned

theorem spans_sums (span : Option ℚ) (afresh : Bool) :
    s.Sums (if span.isSome || afresh then { s.spans span with unspanned := 0 } else s.spans span) span := by
  cases span with
  | none =>
    have hz : s.spanned = s.spanned + (none : Option ℚ).getD 0 / 1000 := by simp
    split
    · exact ⟨rfl, rfl, rfl, hz, Nat.add_le_add_left (Nat.zero_le _) _⟩
    · exact ⟨rfl, rfl, rfl, hz, le_refl _⟩
  | some span => exact ⟨rfl, rfl, rfl, rfl, le_refl _⟩

private theorem classified_sum {step : Option ℚ} (hb : s.reader.down → step = none) :
    (s.classified step).timed + (s.classified step).untimed + (s.classified step).resumed +
      (if s.reader.down then 1 else 0) = s.timed + s.untimed + s.resumed + 1 := by
  cases step with
  | none =>
    rw [classified]
    split
    · rfl
    · show s.timed + s.untimed + (s.resumed + 1) + 0 = _
      omega
  | some step =>
    have hd : ¬ s.reader.down = true := fun hd => by cases hb hd
    rw [if_neg hd, classified]
    split
    · show s.timed + (s.untimed + 1) + s.resumed + 0 = _
      omega
    · show total (s.steps.put _ _) + s.untimed + s.resumed + 0 = total s.steps + s.untimed + s.resumed + 1
      rw [total_put]
      omega

private theorem classified_timed {step : Option ℚ} (ht : 0 < (s.classified step).timed) :
    0 < s.timed ∨ ∃ x, step = some x ∧ 0 < x := by
  cases step with
  | none =>
    rw [classified] at ht
    split at ht <;> exact .inl ht
  | some step =>
    rw [classified] at ht
    split at ht
    next => exact .inl ht
    next hp => exact .inr ⟨step, rfl, not_le.mp hp⟩

private theorem classified_spans (step : Option ℚ) :
    (s.classified step).spanned = s.spanned ∧ (s.classified step).spannedFrames = s.spannedFrames ∧
      (s.classified step).unspanned = s.unspanned := by
  cases step with
  | none =>
    rw [classified]
    split <;> exact ⟨rfl, rfl, rfl⟩
  | some step =>
    rw [classified]
    split <;> exact ⟨rfl, rfl, rfl⟩

variable (stride baselineFrames) in
private theorem receive_sums (placed : ℕ) (now : ℚ) : s.Sums (s.receive stride baselineFrames placed now) none := by
  have hz : s.spanned = s.spanned + (none : Option ℚ).getD 0 / 1000 := by simp
  rw [receive]
  split <;> exact ⟨rfl, rfl, rfl, hz, le_refl _⟩

private theorem receive_drops (placed : ℕ) (now : ℚ) :
    (s.receive stride baselineFrames placed now).drops.length = s.drops.length + if s.reader.down then 1 else 0 := by
  rw [receive]
  split
  · exact List.length_append
  · rfl

theorem Classed.span_nonneg {down : Bool} {p : Placement} (hc : Classed down p) : 0 ≤ p.span.getD 0 / 1000 := by
  cases hp : p.span with
  | none => simp
  | some span => exact div_nonneg (hc.spanned span hp).le (by norm_num)

theorem Balanced.take {p : Placement} (h : s.Balanced) (hc : Classed s.reader.down p) (placed : ℕ) (now : ℚ) :
    ((s.count p.step p.span true).receive stride baselineFrames placed now).Balanced := by
  have hk : s.Counts (s.count p.step p.span true) := s.count_counts p.step p.span true
  have hm : Sums { s.classified p.step with unspanned := (s.classified p.step).unspanned + 1 }
    (s.count p.step p.span true) p.span := spans_sums p.span p.step.isNone
  have hr : (s.count p.step p.span true).Sums _ none := receive_sums stride baselineFrames placed now
  have hsum := s.classified_sum hc.back
  obtain ⟨hs, hf, hu⟩ := s.classified_spans p.step
  have hspanned : ((s.count p.step p.span true).receive stride baselineFrames placed now).spanned =
      s.spanned + p.span.getD 0 / 1000 := by
    rw [hr.spanned, hm.spanned, Option.getD_none, zero_div, add_zero]
    show (s.classified p.step).spanned + _ = _
    rw [hs]
  refine ⟨?_, ?_, fun ht => ?_, ?_⟩
  · rw [receive_received, receive_drops, hk.received, hk.drops, hk.reader, hr.timed, hr.untimed, hr.resumed, hm.timed,
      hm.untimed, hm.resumed, h.received]
    show _ = 1 + (s.classified p.step).timed + (s.classified p.step).untimed + (s.classified p.step).resumed + _
    omega
  · rw [hspanned]
    exact add_nonneg h.spanned hc.span_nonneg
  · rw [hspanned]
    rw [hr.timed, hm.timed] at ht
    rcases classified_timed ht with ht | ⟨x, hx, hpos⟩
    · exact add_pos_of_pos_of_nonneg (h.timed ht) hc.span_nonneg
    · rw [hc.timed x hx hpos]
      exact add_pos_of_nonneg_of_pos h.spanned (div_pos hpos (by norm_num))
  · have hle := hr.frames.trans hm.frames
    have hfr := h.frames
    rw [receive_received, hk.received]
    have hle : _ ≤ (s.classified p.step).spannedFrames + ((s.classified p.step).unspanned + 1) := hle
    omega

theorem Balanced.undecoded {p : Placement} (h : s.Balanced) (hc : Classed s.reader.down p) :
    (s.count p.step p.span false).reconnect.Balanced := by
  have hk : s.Counts (s.count p.step p.span false) := s.count_counts p.step p.span false
  have hm : s.Sums (s.count p.step p.span false) p.span := spans_sums p.span p.step.isNone
  refine ⟨?_, ?_, fun ht => ?_, ?_⟩
  · show (s.count p.step p.span false).received = 1 + (s.count p.step p.span false).timed +
      (s.count p.step p.span false).untimed + (s.count p.step p.span false).resumed +
      (s.count p.step p.span false).drops.length
    rw [hk.received, hk.drops, hm.timed, hm.untimed, hm.resumed, h.received]
  · show 0 ≤ (s.count p.step p.span false).spanned
    rw [hm.spanned]
    exact add_nonneg h.spanned hc.span_nonneg
  · show 0 < (s.count p.step p.span false).spanned
    rw [hm.spanned]
    exact add_pos_of_pos_of_nonneg (h.timed (hm.timed ▸ ht)) hc.span_nonneg
  · show (s.count p.step p.span false).spannedFrames + (s.count p.step p.span false).unspanned + 1 ≤
      (s.count p.step p.span false).received
    rw [hk.received]
    exact (Nat.succ_le_succ hm.frames).trans h.frames

/-- What every grab keeps: a Stream that is down has no frame to count from. -/
structure Sound (s : Stream) : Prop where
  balanced : s.Balanced
  restarted : s.reader.down → s.reader.origin = none

theorem receive_down (placed : ℕ) (now : ℚ) : (s.receive stride baselineFrames placed now).reader.down = false := by
  rw [receive]
  split
  · rfl
  next hd => exact Bool.eq_false_iff.mpr hd

theorem Balanced.of_reader (h : s.Balanced) (reader : Reader) : Balanced { s with reader } := ⟨h.1, h.2, h.3, h.4⟩

variable (stride baselineFrames) in
theorem Balanced.gap (h : s.Balanced) (placed : ℕ) (now : ℚ) :
    (if !s.reader.down && s.reader.index + 1 < placed then s.lostUpstream stride baselineFrames placed now
      else s).Balanced := by
  split
  · exact ⟨h.1, h.2, h.3, h.4⟩
  · exact h

variable (stride baselineFrames s) in
private theorem gap_down (placed : ℕ) (now : ℚ) :
    (if !s.reader.down && s.reader.index + 1 < placed then s.lostUpstream stride baselineFrames placed now
      else s).reader.down = s.reader.down := by
  split <;> rfl

theorem Sound.grab (h : s.Sound) (g : Grab) : (s.grab stride baselineFrames g).Sound := by
  cases g with
  | failed => exact ⟨⟨h.1.1, h.1.2, h.1.3, h.1.4⟩, fun _ => rfl⟩
  | grabbed pos now decodes =>
    have hc : Classed s.reader.down (s.reader.place pos now).1 := place_classed h.restarted pos now
    have hd : (s.reader.place pos now).2.down = s.reader.down := (s.reader.place_placed pos now).down
    rw [Stream.grab]
    generalize s.reader.place pos now = placement at hc hd
    obtain ⟨p, placed⟩ := placement
    simp only
    have hb := (h.balanced.of_reader placed).gap stride baselineFrames p.placed now
    have hg := gap_down stride baselineFrames { s with reader := placed } p.placed now
    generalize (if !placed.down && placed.index + 1 < p.placed then
      lostUpstream stride baselineFrames { s with reader := placed } p.placed now
      else { s with reader := placed }) = s₁ at hb hg ⊢
    have hc : Classed s₁.reader.down p := by
      rw [hg]
      exact hd ▸ hc
    have taken : ((s₁.count p.step p.span true).receive stride baselineFrames p.placed now).Sound :=
      ⟨hb.take hc p.placed now, fun hd => by cases (receive_down p.placed now).symm.trans hd⟩
    by_cases hl : lookedAt (if s₁.reader.offered < baselineFrames then s₁.reader.offered else p.placed) stride
        baselineFrames
    · simp only [hl, if_true]
      cases decodes with
      | true => exact ⟨taken.balanced.of_reader _, taken.restarted⟩
      | false => exact ⟨hb.undecoded hc, fun _ => rfl⟩
    · simp only [hl, Bool.false_eq_true, if_false]
      exact taken

theorem Sound.run (grabs : List Grab) (h : s.Sound) : (s.run stride baselineFrames grabs).Sound := by
  induction grabs generalizing s with
  | nil => exact h
  | cons g grabs ih => exact ih (h.grab g)

theorem Sound.rate (h : s.Sound) : ∃ rate, s.rate = some rate := by
  rw [Stream.rate]
  split
  next ht =>
    have ht : 0 < s.timed := by omega
    obtain ⟨steps, hs⟩ := mostCommon_of_total ht
    rw [hs, divided_of_pos (h.balanced.timed ht)]
    exact ⟨_, rfl⟩
  next => exact ⟨_, rfl⟩
end

variable (stride baselineFrames : ℕ)

/-- The Stream counted beside the frames it received. -/
theorem run_reads (grabs : List Grab) {s : Stream} {h : LiveStream.History} (hr : s.reader = h.reader)
    (hc : s.received = h.received.length) :
    (s.run stride baselineFrames grabs).received = (h.run stride baselineFrames grabs).received.length := by
  induction grabs generalizing s h with
  | nil => exact hc
  | cons g grabs ih =>
    have hg := s.grab_reads stride baselineFrames g
    refine ih (hg.reader.trans ?_) (hg.received.trans ?_)
    · rw [hr]
      rfl
    · rw [hr, hc]
      exact List.length_append.symm

/-- Every frame received is counted once, and the report can work out each of its figures. -/
theorem report_accounts (pos arrived : ℚ) (grabs : List Grab) :
    let s := (Stream.opened pos arrived).run stride baselineFrames grabs
    s.received = ((LiveStream.History.opened pos arrived).run stride baselineFrames grabs).received.length ∧
      s.received = 1 + s.timed + s.untimed + s.resumed + s.drops.length ∧
      (s.received - 1 < 2 * s.timed → 0 < s.spanned) ∧ (∀ now, ∃ report, s.report now = some report) ∧
      s.spannedFrames ≤ s.received - 1 := by
  intro s
  have h : s.Sound := Sound.run grabs ⟨opened_balanced pos arrived, fun hd => by cases hd⟩
  have hf := h.balanced.frames
  refine ⟨run_reads stride baselineFrames grabs rfl rfl, h.balanced.received, fun ht => h.balanced.timed (by omega),
    fun now => ?_, by omega⟩
  obtain ⟨rate, hr⟩ := h.rate
  rw [report, hr]
  exact ⟨_, rfl⟩

end Stream
end Kanat.StreamReport
