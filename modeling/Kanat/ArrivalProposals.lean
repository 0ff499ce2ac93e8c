import Kanat.Medians
import Mathlib.Algebra.Order.Field.Rat

/-! # Proposing the frame a Bullet Hole arrived in (tools/arrival.py: propose)

`Arrives` says what a lasting step in a hole's frames is. Medians bound the rises and the midpoint, these tell from
which frame on the difference holds, and `propose` then finds the first rise of the step's last peak there. -/
namespace Kanat.ArrivalProposals
open Medians

def STEP : ℕ := 25
def HOLD : ℕ := 3

variable {K : Type} [Field K] [LinearOrder K]

/-- `d[first:last]`. -/
def slice (d : List K) (first last : ℕ) : List K := (d.drop first).take (last - first)

def before (step : ℕ) (d : List K) (f : ℕ) : K := median (slice d (f - step) f)

def after (step : ℕ) (d : List K) (f : ℕ) : K := median (slice d f (f + step))

def rise (step : ℕ) (d : List K) (f : ℕ) : K := after step d f - before step d f

/-- The rises judged, the one of the frame `f` at `f - hold`. -/
def rises (step hold : ℕ) (d : List K) : List K :=
  (List.range' hold (d.length + 1 - step - hold)).map (rise step d)

def argmax (l : List K) : ℕ := l.findIdx fun x => l.all (· ≤ x)

/-- Of the frames from `first` up to `last`, the first that the difference holds from. -/
def holds (hold : ℕ) (d : List K) (mid : K) (first last : ℕ) : Option ℕ :=
  (List.range' first (last - first)).find? fun f => (slice d f (f + hold)).all (mid ≤ ·)

/-- Nothing where there are too few frames to judge one. -/
def propose (step hold : ℕ) (d : List K) : Option ℕ :=
  match (rises step hold d).max? with
  | none => none
  | some most =>
    let first := ((rises step hold d).findIdx? (half most ≤ ·)).getD 0
    let peak := hold + first + argmax (((rises step hold d).drop first).take step)
    let mid := half (before step d peak + after step d peak)
    some ((holds hold d mid (peak - step) (min (d.length - hold) (peak + step))).getD peak)

/-- A lasting step: each frame on one level before `a` and on another from it on, but for passing flashes: fewer than
half the frames judged together, none of the `hold` frames from `a` and not all of `hold` before it. -/
structure Arrives (step hold : ℕ) (d : List K) (a : ℕ) (low high noise : K) (flash : ℕ → Bool) : Prop where
  early : hold ≤ a
  room : a + step ≤ d.length
  noise_nonneg : 0 ≤ noise
  gap : 3 * noise < high - low
  lows : ∀ i < a, flash i = false → ∀ x ∈ d[i]?, low ≤ x ∧ x ≤ low + noise
  highs : ∀ i < d.length, a ≤ i → flash i = false → ∀ x ∈ d[i]?, high ≤ x ∧ x ≤ high + noise
  rare_after : ∀ f < d.length, hold ≤ f → f + step ≤ d.length → 2 * (List.range' f step).countP flash < step
  rare_before : ∀ f < d.length, hold ≤ f → f + step ≤ d.length →
    2 * (List.range' (f - step) (f - (f - step))).countP flash < f - (f - step)
  apart : ∀ f < a, ∃ i < hold, f + i < a ∧ flash (f + i) = false
  steady : ∀ i < hold, flash (a + i) = false

section

variable [IsStrictOrderedRing K] {step hold a f first last : ℕ} {d : List K} {low high noise c : K} {flash : ℕ → Bool}

omit [LinearOrder K] [IsStrictOrderedRing K] in
theorem slice_eq (hlast : last ≤ d.length) :
    slice d first last = (List.range' first (last - first)).map fun i => d.getD i 0 := by
  refine List.ext_getElem ?_ fun i hi hi' => ?_
  · rw [slice, List.length_take, List.length_drop, List.length_map, List.length_range']
    omega
  · rw [List.length_map, List.length_range'] at hi'
    have hplace : first + i < d.length := by omega
    simp only [slice, List.getElem_take, List.getElem_drop, List.getElem_map, List.getElem_range', one_mul,
      List.getD_eq_getElem?_getD, List.getElem?_eq_getElem hplace, Option.getD_some]

omit [LinearOrder K] [IsStrictOrderedRing K] in
theorem length_slice (hlast : last ≤ d.length) : (slice d first last).length = last - first := by
  rw [slice_eq hlast, List.length_map, List.length_range']

omit [LinearOrder K] [IsStrictOrderedRing K] in
/-- All frames but the flashes have it. -/
theorem countP_slice (hlast : last ≤ d.length) {p : K → Bool}
    (h : ∀ i, first ≤ i → i < last → flash i = false → ∀ x ∈ d[i]?, p x) :
    last - first ≤ (slice d first last).countP p + (List.range' first (last - first)).countP flash := by
  have hmono : (List.range' first (last - first)).countP (fun i => !flash i) ≤
      (List.range' first (last - first)).countP (p ∘ fun i => d.getD i 0) := by
    refine List.countP_mono_left fun i hi hflash => ?_
    obtain ⟨hle, hlt⟩ := List.mem_range'_1.mp hi
    have hplace : i < d.length := by omega
    refine h i hle (by omega) (by simpa using hflash) _ ?_
    change d.getD i 0 ∈ d[i]?
    rw [List.getD_eq_getElem?_getD, List.getElem?_eq_getElem hplace]
    rfl
  have hcount := List.length_eq_countP_add_countP flash (l := List.range' first (last - first))
  rw [List.length_range'] at hcount
  rw [slice_eq hlast, List.countP_map]
  have hnot : (List.range' first (last - first)).countP (fun i => !flash i) =
      (List.range' first (last - first)).countP fun i => decide ¬flash i = true :=
    List.countP_congr fun i _ => by simp
  omega

theorem median_slice_le (hlast : last ≤ d.length)
    (hrare : 2 * (List.range' first (last - first)).countP flash < last - first)
    (h : ∀ i, first ≤ i → i < last → flash i = false → ∀ x ∈ d[i]?, x ≤ c) : median (slice d first last) ≤ c := by
  have hcount := countP_slice hlast (p := (· ≤ c)) fun i hle hlt hflash x hx =>
    decide_eq_true (h i hle hlt hflash x hx)
  refine median_le ?_
  rw [length_slice hlast]
  omega

theorem le_median_slice (hlast : last ≤ d.length)
    (hrare : 2 * (List.range' first (last - first)).countP flash < last - first)
    (h : ∀ i, first ≤ i → i < last → flash i = false → ∀ x ∈ d[i]?, c ≤ x) : c ≤ median (slice d first last) := by
  have hcount := countP_slice hlast (p := (c ≤ ·)) fun i hle hlt hflash x hx =>
    decide_eq_true (h i hle hlt hflash x hx)
  refine le_median ?_
  rw [length_slice hlast]
  omega

section
variable (h : Arrives step hold d a low high noise flash)
include h

theorem level {i : ℕ} (hi : i < d.length) (hflash : flash i = false) {x : K} (hx : x ∈ d[i]?) :
    low ≤ x ∧ x ≤ high + noise := by
  have hgap := h.gap
  have hnoise := h.noise_nonneg
  rcases Nat.lt_or_ge i a with hlt | hge
  · obtain ⟨hlow, hhigh⟩ := h.lows i hlt hflash x hx
    exact ⟨hlow, by linarith⟩
  · obtain ⟨hlow, hhigh⟩ := h.highs i hi hge hflash x hx
    exact ⟨by linarith, hhigh⟩

theorem before_bounds (hf : hold ≤ f) (hroom : f + step ≤ d.length) (hstep : 0 < step) :
    low ≤ before step d f ∧ before step d f ≤ high + noise ∧ (f ≤ a → before step d f ≤ low + noise) := by
  have hlast : f ≤ d.length := by omega
  have hrare := h.rare_before f (by omega) hf hroom
  refine ⟨le_median_slice hlast hrare fun i _ hi hflash x hx => (level h (by omega) hflash hx).1,
    median_slice_le hlast hrare fun i _ hi hflash x hx => (level h (by omega) hflash hx).2, fun hfa => ?_⟩
  exact median_slice_le hlast hrare fun i _ hi hflash x hx => (h.lows i (by omega) hflash x hx).2

theorem after_bounds (hf : hold ≤ f) (hroom : f + step ≤ d.length) (hstep : 0 < step) :
    low ≤ after step d f ∧ after step d f ≤ high + noise ∧ (f + step ≤ a → after step d f ≤ low + noise) ∧
      (a ≤ f → high ≤ after step d f) := by
  have hrare := h.rare_after f (by omega) hf hroom
  have hlength : f + step - f = step := by omega
  rw [← hlength] at hrare
  refine ⟨le_median_slice hroom hrare fun i _ hi hflash x hx => (level h (by omega) hflash hx).1,
    median_slice_le hroom hrare fun i _ hi hflash x hx => (level h (by omega) hflash hx).2,
    fun hfa => ?_, fun hfa => ?_⟩
  · exact median_slice_le hroom hrare fun i _ hi hflash x hx => (h.lows i (by omega) hflash x hx).2
  · exact le_median_slice hroom hrare fun i hle hi hflash x hx =>
      (h.highs i (by omega) (by omega) hflash x hx).1

/-- Every rise is at most the whole of it; the one at the arrival is nearly that, and before the frames reach it there
is none. -/
theorem rise_bounds (hstep : 0 < step) (hf : hold ≤ f) (hroom : f + step ≤ d.length) :
    rise step d f ≤ high + noise - low ∧ (f + step ≤ a → rise step d f ≤ noise) ∧
      (f = a → high - low - noise ≤ rise step d f) := by
  obtain ⟨hbefore, -, hcalm⟩ := before_bounds h hf hroom hstep
  obtain ⟨-, hafter, hyet, hsince⟩ := after_bounds h hf hroom hstep
  unfold rise
  refine ⟨by linarith, fun hfa => ?_, fun hfa => ?_⟩
  · have hle := hyet hfa
    linarith
  · have hge := hsince hfa.ge
    have hle := hcalm hfa.le
    linarith

/-- A frame whose rise is as much as the arrival's has a midpoint between the levels. -/
theorem mid_bounds (hstep : 0 < step) (hf : hold ≤ f) (hroom : f + step ≤ d.length)
    (hrise : high - low - noise ≤ rise step d f) :
    low + noise < half (before step d f + after step d f) ∧ half (before step d f + after step d f) ≤ high := by
  obtain ⟨hbefore, -, -⟩ := before_bounds h hf hroom hstep
  obtain ⟨-, hafter, -, -⟩ := after_bounds h hf hroom hstep
  have hgap := h.gap
  unfold rise at hrise
  unfold half
  constructor <;> linarith

/-- The difference holds from the arrival on, and from no frame before it. -/
theorem holds_eq {mid : K} (hlow : low + noise < mid) (hhigh : mid ≤ high) (hfirst : first ≤ a) (hlast : a < last)
    (hroom : a + hold ≤ d.length) : holds hold d mid first last = some a := by
  have hsplit : List.range' first (last - first) =
      List.range' first (a - first) ++ a :: List.range' (a + 1) (last - a - 1) := by
    have hlength : last - first = (a - first) + (1 + (last - a - 1)) := by omega
    have hplace : first + 1 * (a - first) = a := by omega
    rw [hlength, ← List.range'_append, hplace, ← List.range'_append]
    rfl
  have hnone : (List.range' first (a - first)).find? (fun f => (slice d f (f + hold)).all (mid ≤ ·)) = none := by
    refine List.find?_eq_none.mpr fun f hf hall => ?_
    obtain ⟨hle, hlt⟩ := List.mem_range'_1.mp hf
    obtain ⟨i, hi, hia, hflash⟩ := h.apart f (by omega)
    have hplace : f + i < d.length := by omega
    have hmem : d[f + i] ∈ slice d f (f + hold) := by
      refine List.mem_iff_getElem.mpr ⟨i, ?_, ?_⟩
      · rw [slice, List.length_take, List.length_drop]
        omega
      · simp only [slice, List.getElem_take, List.getElem_drop]
    have hle := of_decide_eq_true (List.all_eq_true.mp hall _ hmem)
    have hlow' := (h.lows (f + i) hia hflash _ (List.getElem?_eq_getElem hplace)).2
    linarith
  have hhere : (slice d a (a + hold)).all (mid ≤ ·) := by
    refine List.all_eq_true.mpr fun x hx => decide_eq_true ?_
    rw [slice_eq hroom] at hx
    obtain ⟨i, hi, rfl⟩ := List.mem_map.mp hx
    obtain ⟨hle, hlt⟩ := List.mem_range'_1.mp hi
    have hplace : i < d.length := by omega
    have hflash : flash i = false := by
      have hsteady := h.steady (i - a) (by omega)
      rwa [Nat.add_sub_cancel' hle] at hsteady
    have hmem : d.getD i 0 ∈ d[i]? := by
      rw [List.getD_eq_getElem?_getD, List.getElem?_eq_getElem hplace]
      rfl
    exact hhigh.trans (h.highs i hplace hle hflash _ hmem).1
  rw [holds, hsplit, List.find?_append, hnone, Option.none_or]
  exact List.find?_cons_of_pos hhere

end

omit [Field K] [IsStrictOrderedRing K] in
private theorem argmax_spec {l : List K} (hne : l ≠ []) :
    ∃ hlt : argmax l < l.length, ∀ x ∈ l, x ≤ l[argmax l] := by
  obtain ⟨most, hmost⟩ := Option.ne_none_iff_exists'.mp (mt List.max?_eq_none_iff.mp hne)
  obtain ⟨hmem, hle⟩ := List.max?_eq_some_iff.mp hmost
  have hexists : ∃ x ∈ l, l.all (· ≤ x) := ⟨most, hmem, List.all_eq_true.mpr fun x hx => decide_eq_true (hle x hx)⟩
  have hlt : argmax l < l.length := List.findIdx_lt_length_of_exists hexists
  refine ⟨hlt, fun x hx => ?_⟩
  have hall : l.all (· ≤ l[argmax l]) := List.findIdx_getElem (w := hlt)
  exact of_decide_eq_true (List.all_eq_true.mp hall x hx)

omit [IsStrictOrderedRing K] in
theorem length_rises (step hold : ℕ) (d : List K) : (rises step hold d).length = d.length + 1 - step - hold := by
  rw [rises, List.length_map, List.length_range']

omit [IsStrictOrderedRing K] in
theorem getElem_rises {j : ℕ} (hj : j < (rises step hold d).length) :
    (rises step hold d)[j] = rise step d (hold + j) := by
  simp only [rises, List.getElem_map, List.getElem_range', one_mul]

omit [IsStrictOrderedRing K] in
theorem findIdx_rises {p : K → Bool} (hmem : ∃ x ∈ rises step hold d, p x) (hp : p (rise step d a)) (hhold : hold ≤ a)
    (hroom : a + step ≤ d.length) :
    ∃ j, (rises step hold d).findIdx? p = some j ∧ hold + j ≤ a ∧ p (rise step d (hold + j)) := by
  have hlt := List.findIdx_lt_length_of_exists hmem
  refine ⟨_, List.findIdx?_eq_some_of_exists hmem, ?_, ?_⟩
  · by_contra hlate
    have hplace : a - hold < (rises step hold d).length := by
      rw [length_rises]
      omega
    have hnot := List.not_of_lt_findIdx (by omega : a - hold < (rises step hold d).findIdx p)
    rw [getElem_rises hplace, Nat.add_sub_cancel' hhold] at hnot
    rw [hp] at hnot
    exact Bool.noConfusion hnot
  · have hfound : p (rises step hold d)[(rises step hold d).findIdx p] := List.findIdx_getElem (w := hlt)
    rwa [getElem_rises hlt] at hfound

omit [IsStrictOrderedRing K] in
/-- The peak of the `step` rises from one on, if that of `a` is one of them. -/
theorem peak_spec {j : ℕ} (hj : hold + j ≤ a) (hnear : a < hold + j + step) (hroom : a + step ≤ d.length) :
    ∃ peak, peak = hold + j + argmax (((rises step hold d).drop j).take step) ∧ hold ≤ peak ∧
      peak + step ≤ d.length ∧ peak < a + step ∧ a < peak + step ∧ rise step d a ≤ rise step d peak := by
  have hlength := length_rises step hold d
  have hplace : a - (hold + j) < (((rises step hold d).drop j).take step).length := by
    rw [List.length_take, List.length_drop]
    omega
  obtain ⟨hlt, hle⟩ := argmax_spec (List.ne_nil_of_length_pos (Nat.zero_lt_of_lt hplace))
  have hget : ∀ k (hk : k < (((rises step hold d).drop j).take step).length),
      (((rises step hold d).drop j).take step)[k] = rise step d (hold + j + k) := by
    intro k hk
    rw [List.length_take, List.length_drop] at hk
    simp only [List.getElem_take, List.getElem_drop]
    rw [getElem_rises (by omega), add_assoc]
  have hrise := hle _ (List.getElem_mem hplace)
  rw [hget _ hplace, hget _ hlt, Nat.add_sub_cancel' hj] at hrise
  rw [List.length_take, List.length_drop] at hlt
  exact ⟨_, rfl, by omega, by omega, by omega, by omega, hrise⟩

/-- A hole that comes and stays is proposed at the very frame it came in, whatever noise there is under a third of the
step and whatever flashes pass. -/
theorem propose_arrival (hhold : 0 < hold) (hstep : hold < step) (h : Arrives step hold d a low high noise flash) :
    propose step hold d = some a := by
  have hpos : 0 < step := by omega
  have hearly := h.early
  have hroom := h.room
  have hgap := h.gap
  have hnoise := h.noise_nonneg
  have hbig := (rise_bounds h hpos hearly hroom).2.2 rfl
  have hmem : rise step d a ∈ rises step hold d := by
    refine List.mem_map.mpr ⟨a, List.mem_range'_1.mpr ?_, rfl⟩
    omega
  obtain ⟨most, hmost⟩ := Option.ne_none_iff_exists'.mp (mt List.max?_eq_none_iff.mp (List.ne_nil_of_mem hmem))
  obtain ⟨hmostmem, hmostle⟩ := List.max?_eq_some_iff.mp hmost
  have hmostlow := hmostle _ hmem
  have hmosthigh : most ≤ high + noise - low := by
    obtain ⟨f, hf, rfl⟩ := List.mem_map.mp hmostmem
    obtain ⟨hf, hlast⟩ := List.mem_range'_1.mp hf
    exact (rise_bounds h hpos hf (by omega)).1
  have hhalf_most : half most = most / 2 := rfl
  obtain ⟨j, hj, hja, hhalf⟩ := findIdx_rises (p := (half most ≤ ·))
    ⟨most, hmostmem, decide_eq_true (by linarith)⟩ (decide_eq_true (by linarith)) hearly hroom
  have hnear : a < hold + j + step := by
    by_contra hfar
    have hsmall := (rise_bounds h hpos (Nat.le_add_right hold j) (by omega)).2.1 (by omega)
    have hlarge := of_decide_eq_true hhalf
    linarith
  obtain ⟨peak, hpeak, hge, hin, hlow, hhigh, hrise⟩ := peak_spec hja hnear hroom
  obtain ⟨hmidlow, hmidhigh⟩ := mid_bounds h hpos hge hin (hbig.trans hrise)
  have hholds : holds hold d (half (before step d peak + after step d peak)) (peak - step)
      (min (d.length - hold) (peak + step)) = some a :=
    holds_eq h hmidlow hmidhigh (by omega) (by omega) (by omega)
  rw [propose, hmost]
  dsimp only
  rw [hj, Option.getD_some, ← hpeak, hholds, Option.getD_some]

theorem propose_arrival_flash : propose 5 2 [0, 1, 0, 9, 1, 10, 11, 10, 0, 11, (10 : ℚ)] = some 5 := by
  have h : Arrives 5 2 [0, 1, 0, 9, 1, 10, 11, 10, 0, 11, (10 : ℚ)] 5 0 10 1 fun i => i == 3 || i == 8 :=
    { early := by decide
      room := by decide
      noise_nonneg := by decide
      gap := by norm_num
      lows := by decide +kernel
      highs := by decide +kernel
      rare_after := by decide
      rare_before := by decide
      apart := by decide
      steady := by decide }
  exact propose_arrival (by decide) (by decide) h

end

end Kanat.ArrivalProposals
