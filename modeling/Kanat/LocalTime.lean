import Kanat.Calendar

/-! # Local time

A zone's local time and Python's ways to and from it. A zone gives the seconds its clocks are ahead of UTC at each
second since 1970 began; instants and naive times are in microseconds since then. -/
namespace Kanat.LocalTime
open Calendar

abbrev Zone := ℤ → ℤ

inductive Raised where
  | valueError
  | overflowError
deriving DecidableEq

def day : ℤ := 86400

/-- What the clocks read at an instant. -/
def clock (zone : Zone) (instant : ℤ) : ℤ := instant + zone (instant / 1000000) * 1000000

section
variable (zone : Zone)

/-- `time.localtime` of a second, where a `datetime` can be made of it. -/
def localtime (u : ℤ) : Except Raised ℤ :=
  if InRange ((u + zone u) * 1000000) then .ok (u + zone u) else .error .valueError

/-- The end of `_mktime`: the other solution, if it is one. -/
def solve (t u₁ t₁ b : ℤ) (fold : Bool) : Except Raised ℤ :=
  (localtime zone (t - b)).map fun t₂ =>
    if t₂ = t then t - b else if t₁ = t then u₁ else if fold then min u₁ (t - b) else max u₁ (t - b)

/-- `datetime._mktime`: a second that reads `t` on the clocks, the later of two with a fold. -/
def mktime (t : ℤ) (fold : Bool) : Except Raised ℤ :=
  (localtime zone t).bind fun there =>
    let a := there - t
    let u₁ := t - a
    (localtime zone u₁).bind fun t₁ =>
      if t₁ = t then
        let u₂ := if fold then u₁ + day else u₁ - day
        (localtime zone u₂).bind fun t₂ =>
          if a = t₂ - u₂ then .ok u₁ else solve zone t u₁ t₁ (t₂ - u₂) fold
      else solve zone t u₁ t₁ (t₁ - u₁) fold

/-- `timezone` of the seconds ahead at a second. -/
def utcoffset (u : ℤ) : Except Raised ℤ :=
  if -day < zone u ∧ zone u < day then .ok (zone u * 1000000) else .error .valueError

/-- `astimezone` of a naive time: to UTC, and from there to the zone. -/
def astimezone (naive : ℤ) (fold : Bool) : Except Raised ℤ :=
  (mktime zone (naive / 1000000) fold).bind fun u =>
    (utcoffset zone u).bind fun offset =>
      let utc := naive - offset
      if InRange utc then
        (utcoffset zone (utc / 1000000)).bind fun offset =>
          if InRange (utc + offset) then .ok utc else .error .overflowError
      else .error .overflowError

/-- `datetime.fromtimestamp`: the naive time of an instant, and its fold. -/
def fromtimestamp (instant : ℤ) : Except Raised (ℤ × Bool) :=
  (localtime zone (instant / 1000000)).bind fun result =>
    let naive := result * 1000000 + instant % 1000000
    (localtime zone (instant / 1000000 - day)).bind fun probe =>
      let change := result - probe - day
      if change < 0 then
        (localtime zone (instant / 1000000 + change)).map fun probe => (naive, decide (probe = result))
      else .ok (naive, false)

end

variable {zone : Zone} {u v c t u₂ : ℤ} {fold : Bool}

def Changes (zone : Zone) (c : ℤ) : Prop := zone c ≠ zone (c - 1)

instance (zone : Zone) (c : ℤ) : Decidable (Changes zone c) := inferInstanceAs (Decidable (_ ≠ _))

/-- By how much the clocks change. -/
def change (zone : Zone) (c : ℤ) : ℤ := |zone c - zone (c - 1)|

/-- How far the clocks go back. -/
def goneBack (zone : Zone) (c : ℤ) : ℤ := max 0 (zone (c - 1) - zone c)

/-- The clocks are less than a day off UTC, go back by a day at most, and between two changes stay as they are for a day
and as long as they go back at either. -/
structure Regular (zone : Zone) : Prop where
  within : ∀ u, -day < zone u ∧ zone u < day
  back : ∀ c, goneBack zone c ≤ day
  apart : ∀ c c', Changes zone c → Changes zone c' → c < c' →
    day + goneBack zone c ≤ c' - c ∧ day + goneBack zone c' ≤ c' - c

theorem goneBack_nonneg (zone : Zone) (c : ℤ) : 0 ≤ goneBack zone c := le_max_left _ _

theorem sub_le_goneBack (zone : Zone) (c : ℤ) : zone (c - 1) - zone c ≤ goneBack zone c := le_max_right _ _

theorem change_of_goneBack (h : 0 < goneBack zone c) : change zone c = goneBack zone c := by
  have hlt : 0 < zone (c - 1) - zone c := by
    rw [goneBack] at h
    omega
  rw [goneBack, max_eq_right hlt.le, change, abs_of_neg (by omega), neg_sub]

private theorem same_or_changes (zone : Zone) (u : ℤ) (n : ℕ) : (∀ w, u ≤ w → w ≤ u + n → zone w = zone u) ∨
    ∃ c, u < c ∧ c ≤ u + n ∧ Changes zone c ∧ ∀ w, u ≤ w → w < c → zone w = zone u := by
  induction n with
  | zero =>
    refine .inl fun w hle hle' => ?_
    obtain rfl : w = u := by omega
    rfl
  | succ n ih =>
    rcases ih with hsame | ⟨c, hlt, hle, hc, hbefore⟩
    · by_cases hlast : zone (u + n + 1) = zone u
      · refine .inl fun w hle hle' => ?_
        rcases lt_or_eq_of_le hle' with hlt | rfl
        · exact hsame w hle (by omega)
        · rw [Nat.cast_succ, ← Int.add_assoc]
          exact hlast
      · refine .inr ⟨u + n + 1, by omega, by omega, ?_, fun w hle hlt => hsame w hle (by omega)⟩
        rw [Changes, Int.add_sub_cancel, hsame (u + n) (by omega) le_rfl]
        exact hlast
    · exact .inr ⟨c, hlt, by omega, hc, hbefore⟩

/-- Between two seconds that a zone differs at it first changes. -/
theorem exists_change (hne : zone v ≠ zone u) (hle : u ≤ v) :
    ∃ c, u < c ∧ c ≤ v ∧ Changes zone c ∧ ∀ w, u ≤ w → w < c → zone w = zone u := by
  obtain ⟨n, rfl⟩ := Int.le.dest hle
  exact (same_or_changes zone u n).resolve_left fun hsame => hne (hsame _ hle le_rfl)

/-- Around a change the clocks are as before it and as after it. -/
theorem Regular.around (hzone : Regular zone) (hc : Changes zone c) :
    (∀ w, c - day - goneBack zone c ≤ w → w < c → zone w = zone (c - 1)) ∧
      ∀ w, c ≤ w → w < c + day + goneBack zone c → zone w = zone c := by
  constructor
  · intro w hle hlt
    by_contra hne
    obtain ⟨c', hlt', hle', hc', -⟩ := exists_change (Ne.symm hne) (by omega)
    have hapart := (hzone.apart c' c hc' hc (by omega)).2
    omega
  · intro w hle hlt
    by_contra hne
    obtain ⟨c', hlt', hle', hc', -⟩ := exists_change hne hle
    have hapart := (hzone.apart c c' hc hc' hlt').1
    omega

/-- Two instants that the clocks read alike are on either side of a change back, by as much as they are apart. -/
theorem Regular.twice (hzone : Regular zone) (hlt : u < v) (halike : u + zone u = v + zone v) :
    ∃ c, u < c ∧ c ≤ v ∧ Changes zone c ∧ goneBack zone c = v - u ∧ v - u ≤ day ∧ zone (c - 1) = zone u ∧
      zone c = zone v := by
  have hu := hzone.within u
  have hv := hzone.within v
  obtain ⟨c, huc, hcv, hc, hbefore⟩ := exists_change (by omega : zone v ≠ zone u) hlt.le
  have hc1 : zone (c - 1) = zone u := hbefore (c - 1) (by omega) (by omega)
  have hback := hzone.back c
  have hdrop := sub_le_goneBack zone c
  have hsame : zone v = zone c := by
    by_contra hne
    obtain ⟨c', hcc', hc'v, hc', hbefore'⟩ := exists_change hne hcv
    have hc1' : zone (c' - 1) = zone c := hbefore' (c' - 1) (by omega) (by omega)
    have hback' := hzone.back c'
    have hapart := hzone.apart c c' hc hc' hcc'
    have hdrop' := sub_le_goneBack zone c'
    -- a third change would be two days after the first, and the clocks are less than that apart
    have hlast : zone v = zone c' := by
      by_contra hne'
      obtain ⟨c'', hcc'', hc''v, hc'', -⟩ := exists_change hne' hc'v
      have hapart' := hzone.apart c' c'' hc' hc'' hcc''
      have hnonneg := goneBack_nonneg zone c'
      omega
    omega
  refine ⟨c, huc, hcv, hc, ?_, by omega, hc1, hsame.symm⟩
  rw [goneBack, hc1, ← hsame, max_eq_right (by omega)]
  omega

/-- Seconds up to three days off have a local time. -/
def Roomy (zone : Zone) (t : ℤ) : Prop :=
  ∀ v, t - 3 * day ≤ v → v ≤ t + 3 * day → localtime zone v = .ok (v + zone v)

theorem Roomy.step (hroom : Roomy zone t) (hzone : Regular zone) (u : ℤ) :
    localtime zone t = .ok (t + zone t) ∧
      localtime zone (t - zone u) = .ok (t - zone u + zone (t - zone u)) ∧
      localtime zone (t - zone u + day) = .ok (t - zone u + day + zone (t - zone u + day)) ∧
      localtime zone (t - zone u - day) = .ok (t - zone u - day + zone (t - zone u - day)) := by
  have hu := hzone.within u
  have hday : 0 < day := by decide
  refine ⟨hroom t ?_ ?_, hroom _ ?_ ?_, hroom _ ?_ ?_, hroom _ ?_ ?_⟩ <;> omega

/-- Of a second that its first guess solves, the probe may tell of another. -/
theorem mktime_of_solved (hzone : Regular zone) (hroom : Roomy zone t) (hsolved : zone (t - zone t) = zone t)
    (hu₂ : u₂ = if fold then t - zone t + day else t - zone t - day) :
    mktime zone t fold = .ok (if zone u₂ ≠ zone t ∧ zone (t - zone u₂) = zone u₂ then t - zone u₂ else t - zone t) := by
  obtain ⟨ht, ht₁, hafter, hbefore⟩ := hroom.step hzone t
  obtain ⟨-, ht₂, -, -⟩ := hroom.step hzone u₂
  rw [hsolved, sub_add_cancel] at ht₁
  have hprobe : localtime zone u₂ = .ok (u₂ + zone u₂) := by
    rw [hu₂]
    split_ifs
    · exact hafter
    · exact hbefore
  simp only [mktime, ht, Except.bind, add_sub_cancel_left, ht₁, if_true, ← hu₂, hprobe]
  by_cases hagree : zone u₂ = zone t
  · rw [if_pos hagree.symm, if_neg fun h => h.1 hagree]
  · simp only [if_neg (Ne.symm hagree), solve, ht₂, Except.map, ne_eq, hagree, not_false_iff, true_and, if_true]
    have hother : t - zone u₂ + zone (t - zone u₂) = t ↔ zone (t - zone u₂) = zone u₂ := by omega
    simp only [hother]

/-- Where the first guess is none, what it tells of may be. -/
theorem mktime_of_guessed (hzone : Regular zone) (hroom : Roomy zone t) (hguess : zone (t - zone t) ≠ zone t)
    (hsolved : zone (t - zone (t - zone t)) = zone (t - zone t)) :
    mktime zone t fold = .ok (t - zone (t - zone t)) := by
  obtain ⟨ht, ht₁, -, -⟩ := hroom.step hzone t
  obtain ⟨-, ht₂, -, -⟩ := hroom.step hzone (t - zone t)
  have hne : t - zone t + zone (t - zone t) ≠ t := by omega
  rw [hsolved, sub_add_cancel] at ht₂
  simp only [mktime, ht, Except.bind, add_sub_cancel_left, ht₁, if_neg hne, solve, ht₂, Except.map, if_true]

/-- A second that alone reads `t`, with or without a fold. -/
theorem mktime_of_unique (hzone : Regular zone) (hroom : Roomy zone (u + zone u))
    (hunique : ∀ v, v + zone v = u + zone u → v = u) (fold : Bool) : mktime zone (u + zone u) fold = .ok u := by
  obtain ⟨t, ht⟩ : ∃ t, t = u + zone u := ⟨_, rfl⟩
  rw [← ht] at hroom hunique ⊢
  have hu := hzone.within u
  by_cases hsolved : zone (t - zone t) = zone t
  · have hfirst : t - zone t = u := hunique _ (by omega)
    obtain ⟨u₂, hu₂⟩ : ∃ u₂, u₂ = if fold then t - zone t + day else t - zone t - day := ⟨_, rfl⟩
    rw [mktime_of_solved hzone hroom hsolved hu₂]
    split_ifs with hother
    · exact congrArg Except.ok (hunique _ (by omega))
    · rw [hfirst]
  · have hchanged : zone (t - zone t) = zone u := by
      have hne : zone t ≠ zone u := by
        intro heq
        rw [heq] at hsolved
        exact hsolved (by rw [show t - zone u = u by omega])
      -- of the two that the clocks are ahead near the change, the guess took the other
      rcases le_total u t with hle | hle
      · obtain ⟨c, huc, hct, hc, hbefore⟩ := exists_change hne hle
        obtain ⟨hold, hnew⟩ := hzone.around hc
        have hback := sub_le_goneBack zone c
        have hnonneg := goneBack_nonneg zone c
        have hwithin := hzone.within c
        have hbefore' : zone (c - 1) = zone u := hbefore (c - 1) (by omega) (by omega)
        have hafter : zone t = zone c := hnew t hct (by omega)
        by_cases hlate : c ≤ t - zone t
        · exact absurd (hnew _ hlate (by omega)) (hafter ▸ hsolved)
        · rw [hold _ (by omega) (by omega), hbefore']
      · obtain ⟨c, htc, hcu, hc, hbefore⟩ := exists_change (Ne.symm hne) hle
        obtain ⟨hold, hnew⟩ := hzone.around hc
        have hback := sub_le_goneBack zone c
        have hnonneg := goneBack_nonneg zone c
        have hwithin := hzone.within (c - 1)
        have hbefore' : zone (c - 1) = zone t := hbefore (c - 1) (by omega) (by omega)
        have hafter : zone u = zone c := hnew u hcu (by omega)
        by_cases hearly : t - zone t < c
        · exact absurd ((hold _ (by omega) hearly).trans hbefore') hsolved
        · rw [hnew _ (by omega) (by omega), hafter]
    rw [mktime_of_guessed hzone hroom hsolved]
    · rw [hchanged, show t - zone u = u by omega]
    · rw [hchanged, show t - zone u = u by omega]

/-- Of two seconds that read alike the earlier, or with a fold the later. -/
theorem mktime_of_twice (hzone : Regular zone) (hroom : Roomy zone (u + zone u)) (hlt : u < v)
    (halike : u + zone u = v + zone v) (fold : Bool) :
    mktime zone (u + zone u) fold = .ok (if fold then v else u) := by
  obtain ⟨c, huc, hcv, hc, hgone, hday, hu, hv⟩ := hzone.twice hlt halike
  obtain ⟨hold, hnew⟩ := hzone.around hc
  obtain ⟨t, ht⟩ : ∃ t, t = u + zone u := ⟨_, rfl⟩
  rw [← ht] at hroom halike ⊢
  have hwithin := hzone.within u
  have hwithin' := hzone.within v
  have hu' : t - zone u = u := by omega
  have hv' : t - zone v = v := by omega
  obtain ⟨u₂, hu₂⟩ : ∃ u₂, u₂ = if fold then t - zone t + day else t - zone t - day := ⟨_, rfl⟩
  by_cases hearly : t < c
  · have hzt : zone t = zone u := (hold t (by omega) hearly).trans hu
    have hsolved : zone (t - zone t) = zone t := by rw [hzt, hu']
    rw [mktime_of_solved hzone hroom hsolved hu₂]
    rw [hzt, hu'] at hu₂ ⊢
    cases fold with
    | false =>
      rw [if_neg Bool.false_ne_true] at hu₂ ⊢
      have hprobe : zone u₂ = zone u := (hold u₂ (by omega) (by omega)).trans hu
      rw [if_neg fun hother => hother.1 hprobe]
    | true =>
      rw [if_pos rfl] at hu₂ ⊢
      have hprobe : zone u₂ = zone v := (hnew u₂ (by omega) (by omega)).trans hv
      rw [hprobe, hv', if_pos ⟨by omega, rfl⟩]
  · have hzt : zone t = zone v := (hnew t (by omega) (by omega)).trans hv
    have hsolved : zone (t - zone t) = zone t := by rw [hzt, hv']
    rw [mktime_of_solved hzone hroom hsolved hu₂]
    rw [hzt, hv'] at hu₂ ⊢
    cases fold with
    | false =>
      rw [if_neg Bool.false_ne_true] at hu₂ ⊢
      have hprobe : zone u₂ = zone u := (hold u₂ (by omega) (by omega)).trans hu
      rw [hprobe, hu', if_pos ⟨by omega, rfl⟩]
    | true =>
      rw [if_pos rfl] at hu₂ ⊢
      have hprobe : zone u₂ = zone v := (hnew u₂ (by omega) (by omega)).trans hv
      rw [if_neg fun hother => hother.1 hprobe]

/-- Four days or more within what a `datetime` says. -/
def Inside (t : ℤ) : Prop := -62135596800 + 4 * day ≤ t ∧ t + 4 * day < 253402300800

instance (t : ℤ) : Decidable (Inside t) := inferInstanceAs (Decidable (_ ∧ _))

theorem Regular.roomy (hzone : Regular zone) (ht : Inside t) : Roomy zone t := by
  intro v hlow hup
  have hv := hzone.within v
  obtain ⟨hfirst, hlast⟩ := ht
  refine if_pos ⟨?_, ?_⟩ <;> omega

variable {instant : ℤ}

theorem clock_div (zone : Zone) (instant : ℤ) :
    clock zone instant / 1000000 = instant / 1000000 + zone (instant / 1000000) := by
  rw [clock, Int.add_mul_ediv_right _ _ (by omega)]

theorem clock_mod (zone : Zone) (instant : ℤ) : clock zone instant % 1000000 = instant % 1000000 := by
  rw [clock, Int.add_mul_emod_self_right]

/-- A naive time becomes the instant of the second it is read as. -/
theorem astimezone_of_mktime (hzone : Regular zone) (hinside : Inside (t / 1000000))
    (hmktime : mktime zone (t / 1000000) fold = .ok u) (hreads : u + zone u = t / 1000000) :
    astimezone zone t fold = .ok (u * 1000000 + t % 1000000) := by
  have hu := hzone.within u
  have hutc : t - zone u * 1000000 = u * 1000000 + t % 1000000 := by omega
  have hsecond : (u * 1000000 + t % 1000000) / 1000000 = u := by omega
  obtain ⟨hfirst, hlast⟩ := hinside
  have hrange : InRange (u * 1000000 + t % 1000000) := ⟨by omega, by omega⟩
  have hrange' : InRange (u * 1000000 + t % 1000000 + zone u * 1000000) := ⟨by omega, by omega⟩
  simp only [astimezone, hmktime, Except.bind, utcoffset, if_pos hu, hutc, if_pos hrange, hsecond, if_pos hrange']

/-- Whether `fromtimestamp` sets the fold of a second. -/
def folded (zone : Zone) (s : ℤ) : Bool :=
  zone s < zone (s - day) ∧ s - (zone (s - day) - zone s) + zone (s - (zone (s - day) - zone s)) = s + zone s

private theorem fromtimestamp_eq (hzone : Regular zone) (hroom : Roomy zone (clock zone instant / 1000000)) :
    fromtimestamp zone instant = .ok (clock zone instant, folded zone (instant / 1000000)) := by
  have hnaive : (instant / 1000000 + zone (instant / 1000000)) * 1000000 + instant % 1000000 = clock zone instant := by
    rw [clock]
    omega
  rw [clock_div] at hroom
  unfold fromtimestamp folded
  rw [← hnaive]
  generalize instant / 1000000 = s at *
  have hs := hzone.within s
  have hs' := hzone.within (s - day)
  have hresult : localtime zone s = .ok (s + zone s) := hroom s (by omega) (by omega)
  have hprobe : localtime zone (s - day) = .ok (s - day + zone (s - day)) := hroom _ (by omega) (by omega)
  have hback : localtime zone (s - (zone (s - day) - zone s)) = .ok (s - (zone (s - day) - zone s) +
      zone (s - (zone (s - day) - zone s))) := hroom _ (by omega) (by omega)
  have hchange : s + zone s - (s - day + zone (s - day)) - day = -(zone (s - day) - zone s) := by omega
  simp only [hresult, hprobe, hchange, Except.bind, ← sub_eq_add_neg, hback, Except.map]
  by_cases hlt : zone s < zone (s - day)
  · simp only [if_pos (by omega : -(zone (s - day) - zone s) < 0), hlt, true_and]
  · simp only [if_neg (by omega : ¬ -(zone (s - day) - zone s) < 0), hlt, false_and, decide_false]

/-- The fold tells a second from another that reads alike. -/
theorem mktime_folded (hzone : Regular zone) (hroom : Roomy zone (u + zone u)) :
    mktime zone (u + zone u) (folded zone u) = .ok u := by
  by_cases halone : ∀ v, v + zone v = u + zone u → v = u
  · exact mktime_of_unique hzone hroom halone _
  · push Not at halone
    obtain ⟨v, halike, hne⟩ := halone
    rcases lt_or_gt_of_ne hne with hlt | hlt
    · -- the later of the two: a day before, the clocks were ahead as at the earlier one
      obtain ⟨c, hvc, hcu, hc, hgone, hday, hv, hu⟩ := hzone.twice hlt halike
      have hprobe : zone (u - day) = zone v := ((hzone.around hc).1 _ (by omega) (by omega)).trans hv
      have hback : u - (zone (u - day) - zone u) = v := by omega
      have hfolded : folded zone u = true := decide_eq_true ⟨by omega, by rw [hback, halike]⟩
      rw [← halike] at hroom ⊢
      rw [mktime_of_twice hzone hroom hlt halike, hfolded, if_pos rfl]
    · -- the earlier of the two: a third that reads alike would be too near
      obtain ⟨c, huc, hcv, hc, hgone, hday, hu, hv⟩ := hzone.twice hlt halike.symm
      have hfolded : folded zone u = false := by
        refine decide_eq_false fun hthird => ?_
        obtain ⟨c', hc', hc'u, hchanges, hgone', hday', -, -⟩ := hzone.twice (by omega) hthird.2
        have hapart := hzone.apart c' c hchanges hc (by omega)
        omega
      rw [mktime_of_twice hzone hroom hlt halike.symm, hfolded, if_neg Bool.false_ne_true]

/-- An instant is found again from its local time. -/
theorem astimezone_fromtimestamp (hzone : Regular zone) (hinside : Inside (clock zone instant / 1000000)) :
    ((fromtimestamp zone instant).bind fun naive => astimezone zone naive.1 naive.2) = .ok instant := by
  have hroom := hzone.roomy hinside
  rw [fromtimestamp_eq hzone hroom, Except.bind]
  have hreads := clock_div zone instant
  rw [hreads] at hroom
  have hmktime := mktime_folded hzone hroom
  rw [← hreads] at hmktime
  rw [astimezone_of_mktime hzone hinside hmktime hreads.symm, clock_mod]
  exact congrArg Except.ok (by omega)

end Kanat.LocalTime
