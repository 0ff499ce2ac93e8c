import Kanat.Announcer
import Kanat.PersistenceRuns
import Kanat.PlainTexts
import Mathlib.Data.List.GetD

/-! # Which Bullet Holes of a Run have one Idempotency-Key

A Candidate is where the Detections it has gathered are on average, and a key names its first frame and the
template pixel it persisted in. -/
namespace Kanat.Announcer
open Persistence
open Rounding (pyRound)

theorem append_separator_inj {α : Type} {x : α} {as bs cs ds : List α} (ha : x ∉ as) (hb : x ∉ bs)
    (h : as ++ x :: cs = bs ++ x :: ds) : as = bs ∧ cs = ds := by
  induction as generalizing bs with
  | nil =>
    cases bs with
    | nil => exact ⟨rfl, (List.cons.inj h).2⟩
    | cons b bs =>
      rw [(List.cons.inj h).1] at hb
      exact absurd List.mem_cons_self hb
  | cons a as ih =>
    cases bs with
    | nil =>
      rw [← (List.cons.inj h).1] at ha
      exact absurd List.mem_cons_self ha
    | cons b bs =>
      obtain ⟨rfl, htail⟩ := List.cons.inj h
      obtain ⟨rfl, rfl⟩ := ih (fun hx => ha (List.mem_cons_of_mem _ hx))
        (fun hx => hb (List.mem_cons_of_mem _ hx)) htail
      exact ⟨rfl, rfl⟩

theorem colon_not_mem_nat (n : ℕ) : ':' ∉ (toString n).toList := by
  intro h
  rw [Nat.toString_eq_repr, Nat.toList_repr] at h
  exact absurd (Nat.isDigit_of_mem_toDigits (by decide) (by decide) h) (by decide)

theorem colon_not_mem_int (z : ℤ) : ':' ∉ (toString z).toList := by
  have hnat (n : ℕ) : ':' ∉ n.repr.toList := colon_not_mem_nat n
  rw [Int.toString_eq_repr, Int.repr_eq_if]
  split_ifs
  · exact hnat _
  · rw [String.toList_append]
    intro h
    rcases List.mem_append.mp h with h | h
    · exact absurd h (by decide)
    · exact hnat _ h

theorem natText_inj {m n : ℕ} (h : (toString m).toList = (toString n).toList) : m = n := by
  rw [Nat.toString_eq_repr, Nat.toString_eq_repr, Nat.toList_repr, Nat.toList_repr] at h
  have hvalue := congrArg PlainTexts.valueOf h
  rwa [PlainTexts.valueOf_toDigits, PlainTexts.valueOf_toDigits] at hvalue

theorem intText_inj {a b : ℤ} (h : (toString a).toList = (toString b).toList) : a = b := by
  have hminus (n : ℕ) (rest : List Char) : n.repr.toList ≠ '-' :: rest := by
    rw [Nat.toList_repr]
    intro heq
    exact absurd (PlainTexts.digits_toDigits n '-' (heq ▸ List.mem_cons_self)) (by decide)
  have hneg (n : ℕ) : ("-" ++ n.repr).toList = '-' :: n.repr.toList := String.toList_append ..
  rw [Int.toString_eq_repr, Int.toString_eq_repr, Int.repr_eq_if, Int.repr_eq_if] at h
  split_ifs at h
  · have hnat : a.toNat = b.toNat := natText_inj h
    omega
  · exact absurd (h.trans (hneg _)) (hminus _ _)
  · exact absurd (h.symm.trans (hneg _)) (hminus _ _)
  · rw [hneg, hneg] at h
    have hnat := natText_inj (List.cons.inj h).2
    omega

theorem toList_keyName (sessionId : String) (v : BulletHoleConfirmed) : (keyName sessionId v).toList =
    sessionId.toList ++ ':' :: ((toString v.firstFrame).toList ++
      ':' :: ((toString (pyRound (v.templateXy 0))).toList ++
        ':' :: (toString (pyRound (v.templateXy 1))).toList)) := by
  have hcolon : (toString ":").toList = [':'] := rfl
  simp only [keyName, String.toList_append, hcolon, List.append_assoc, List.singleton_append]
  rfl

private theorem keyName_inj {sessionId : String} {v w : BulletHoleConfirmed} :
    keyName sessionId v = keyName sessionId w ↔ v.firstFrame = w.firstFrame ∧
      pyRound (v.templateXy 0) = pyRound (w.templateXy 0) ∧
      pyRound (v.templateXy 1) = pyRound (w.templateXy 1) := by
  refine ⟨fun h => ?_, fun ⟨hframe, hx, hy⟩ => by rw [keyName, keyName, hframe, hx, hy]⟩
  have hlist := congrArg String.toList h
  rw [toList_keyName, toList_keyName] at hlist
  obtain ⟨hframe, hlist⟩ := append_separator_inj (colon_not_mem_nat _) (colon_not_mem_nat _)
    (List.cons.inj (List.append_cancel_left hlist)).2
  obtain ⟨hx, hy⟩ := append_separator_inj (colon_not_mem_int _) (colon_not_mem_int _) hlist
  exact ⟨natText_inj hframe, intText_inj hx, intText_inj hy⟩

variable {box : ℕ}

/-- Where Detections are on average. -/
def mean (detections : List (Detection box)) : Detection box :=
  fun i => (detections.map (· i)).sum / detections.length

theorem mean_concat (detections : List (Detection box)) (p : Detection box) (i : Fin (box + 2)) :
    mean (detections ++ [p]) i = (mean detections i * detections.length + p i) / (detections.length + 1) := by
  have hsum : mean detections i * detections.length = (detections.map (· i)).sum := by
    cases detections with
    | nil => simp
    | cons d ds => exact div_mul_cancel₀ _ (by simp; positivity)
  rw [hsum, mean]
  simp

/-- Each Candidate is where what it has gathered is on average. -/
structure Gathers (candidates : List (Candidate box)) (gathered : List (List (Detection box))) : Prop where
  length : gathered.length = candidates.length
  mean : ∀ k, (candidateAt candidates k).pos = mean (gathered.getD k [])
  sightings : ∀ k, (candidateAt candidates k).seenFrameIdxs.length = (gathered.getD k []).length

theorem gathers_nil : Gathers ([] : List (Candidate box)) [] where
  length := rfl
  mean k := by
    funext i
    simp [candidateAt, Announcer.mean]
  sightings k := rfl

theorem Gathers.append {candidates : List (Candidate box)} {gathered : List (List (Detection box))}
    (h : Gathers candidates gathered) (idx : ℕ) (p : Detection box) :
    Gathers (candidates ++ [⟨p, [idx], idx⟩]) (gathered ++ [[p]]) := by
  have hold : ∀ k, k ≠ candidates.length →
      candidateAt (candidates ++ [⟨p, [idx], idx⟩]) k = candidateAt candidates k ∧
        (gathered ++ [[p]]).getD k [] = gathered.getD k [] := by
    intro k hk
    rcases Nat.lt_or_gt_of_ne hk with hk | hk
    · exact ⟨candidateAt_append_left hk, List.getD_append _ _ _ _ (h.length ▸ hk)⟩
    · have hc : candidates.length + 1 ≤ k := hk
      have hg : gathered.length + 1 ≤ k := h.length ▸ hk
      simp [candidateAt, List.getD_eq_getElem?_getD, List.getElem?_eq_none, hc, hg, Nat.le_of_succ_le hc,
        Nat.le_of_succ_le hg]
  have hnew : candidateAt (candidates ++ [⟨p, [idx], idx⟩]) candidates.length = ⟨p, [idx], idx⟩ ∧
      (gathered ++ [[p]]).getD candidates.length [] = [p] := by
    rw [← h.length]
    simp [candidateAt, List.getD_eq_getElem?_getD, h.length]
  refine ⟨by simp [h.length], fun k => ?_, fun k => ?_⟩
  · by_cases hk : k = candidates.length
    · rw [hk, hnew.1, hnew.2]
      funext i
      simp [Announcer.mean]
    · rw [(hold k hk).1, (hold k hk).2]
      exact h.mean k
  · by_cases hk : k = candidates.length
    · rw [hk, hnew.1, hnew.2]
      rfl
    · rw [(hold k hk).1, (hold k hk).2]
      exact h.sightings k

theorem Gathers.modify {candidates : List (Candidate box)} {gathered : List (List (Detection box))}
    (h : Gathers candidates gathered) (idx j : ℕ) (p : Detection box) :
    Gathers (candidates.modify j (·.gather idx p)) (gathered.modify j (· ++ [p])) := by
  have hout : ∀ k, ¬ k < candidates.length → candidateAt (candidates.modify j (·.gather idx p)) k =
      candidateAt candidates k ∧ (gathered.modify j (· ++ [p])).getD k [] = gathered.getD k [] := by
    intro k hk
    have hc : candidates.length ≤ k := Nat.le_of_not_lt hk
    have hg : gathered.length ≤ k := h.length ▸ hc
    simp [candidateAt, List.getD_eq_getElem?_getD, hc, hg]
  have hin : ∀ k, k < candidates.length → (gathered.modify j (· ++ [p])).getD k [] =
      if j = k then gathered.getD k [] ++ [p] else gathered.getD k [] := by
    intro k hk
    have hg : k < gathered.length := h.length.symm ▸ hk
    simp only [List.getD_eq_getElem?_getD, List.getElem?_modify, List.getElem?_eq_getElem hg]
    split_ifs <;> rfl
  refine ⟨by simp [h.length], fun k => ?_, fun k => ?_⟩
  · by_cases hk : k < candidates.length
    · rw [candidateAt_modify _ _ _ hk, hin k hk]
      split_ifs
      · funext i
        rw [mean_concat, ← h.mean k, ← h.sightings k]
        rfl
      · exact h.mean k
    · rw [(hout k hk).1, (hout k hk).2]
      exact h.mean k
  · by_cases hk : k < candidates.length
    · rw [candidateAt_modify _ _ _ hk, hin k hk]
      split_ifs
      · simp [Candidate.gather, h.sightings k]
      · exact h.sightings k
    · rw [(hout k hk).1, (hout k hk).2]
      exact h.sightings k

theorem Gathers.foldOne {candidates : List (Candidate box)} {gathered : List (List (Detection box))}
    (h : Gathers candidates gathered) (idx : ℕ) (matchPx : ℚ) (opening : Bool) (closed : Finset ℕ)
    (p : Detection box) : Gathers (foldOne idx matchPx opening closed candidates p)
      (gatherOne matchPx opening closed candidates gathered p) := by
  unfold Persistence.foldOne gatherOne
  cases findMatch candidates p matchPx closed with
  | none =>
    cases opening with
    | false => exact h
    | true => exact h.append idx p
  | some j => exact h.modify idx j p

theorem Gathers.fold {candidates : List (Candidate box)} {gathered : List (List (Detection box))}
    (h : Gathers candidates gathered) (idx : ℕ) (pts : List (Detection box)) (matchPx : ℚ)
    (opening : Bool) (closed : Finset ℕ) : Gathers (fold candidates idx pts matchPx opening closed)
      (gather idx matchPx opening closed candidates gathered pts) := by
  induction pts generalizing candidates gathered with
  | nil => exact h
  | cons p pts ih => exact ih (h.foldOne idx matchPx opening closed p)

theorem verdict_pos {P : Settings} {s : State box} {q id : ℕ} {hole : Hole box}
    (h : s.verdict P q id = some hole) : hole.pos = centre (s.candidate id).pos := by
  simp only [State.verdict, judge] at h
  split_ifs at h
  cases h
  rfl

theorem newlyPersisted_pos {P : Settings} {s : State box} {q : ℕ} {look : Option ℕ}
    {gathered : List (List (Detection box))} (h : Gathers s.candidates gathered) {x : Sighted box}
    (hx : x ∈ newlyPersisted s (s.judgeDue P q look).1 gathered) :
    x.hole.pos = centre (mean x.detections) := by
  simp only [newlyPersisted, State.judgeDue, List.drop_left] at hx
  obtain ⟨⟨hole, id⟩, hmem, rfl⟩ := List.mem_map.mp hx
  obtain ⟨id', -, hv⟩ := List.mem_filterMap.mp hmem
  obtain ⟨hole', hverdict, heq⟩ := Option.map_eq_some_iff.mp hv
  cases heq
  change hole'.pos = _
  rw [verdict_pos hverdict, State.candidate, h.mean id]

section
variable (P : Settings) (require : Bool) (view : View) (wallClock : ℕ → ℤ)

structure Inv (live : Live box) : Prop where
  gathers : Gathers live.persistence.candidates live.gathered
  waiting : ∀ h ∈ live.waiting, h.hole.pos = centre (mean h.detections)
  announced : ∀ h ∈ live.announced, h.hole.pos = centre (mean h.detections)
  published : live.published = live.announced.map fun h => confirmed view wallClock h.hole

variable {P require view wallClock} {live : Live box}

private theorem inv_announce {persisted : List (Sighted box)} {corroborating : List (Detection box)}
    (h : Inv view wallClock live) (hp : ∀ x ∈ persisted, x.hole.pos = centre (mean x.detections)) :
    Inv view wallClock (live.announce P require view wallClock persisted corroborating) := by
  have hall : ∀ x ∈ (live.waiting.map fun h =>
      (h, corroborates corroborating (live.persistence.candidate h.candidate).pos P.matchPx)) ++
      persisted.map fun h => (h, corroborates live.corroboration h.hole.box P.matchPx),
      x.1.hole.pos = centre (mean x.1.detections) := by
    intro x hx
    rcases List.mem_append.mp hx with hx | hx
    · obtain ⟨y, hy, rfl⟩ := List.mem_map.mp hx
      exact h.waiting y hy
    · obtain ⟨y, hy, rfl⟩ := List.mem_map.mp hx
      exact hp y hy
  refine ⟨h.gathers, fun x hx => ?_, fun x hx => ?_, ?_⟩
  · obtain ⟨y, hy, rfl⟩ := List.mem_map.mp hx
    exact hall y (List.mem_of_mem_filter hy)
  · rcases List.mem_append.mp hx with hx | hx
    · exact h.announced x hx
    · obtain ⟨y, hy, rfl⟩ := List.mem_map.mp hx
      exact hall y (List.mem_of_mem_filter hy)
  · simp only [Live.announce, List.map_append, h.published]

private theorem inv_look (h : Inv view wallClock live) (l : Look box) :
    Inv view wallClock (live.look P require view wallClock l) := by
  let judged := (live.persistence.judgeDue P l.index (some l.index)).1
  let gathered := live.gatheredAfter P judged l
  have hfolded : Gathers (judged.register P l.index l.pts l.opening).candidates gathered := by
    unfold State.register
    dsimp only [gathered, Live.gatheredAfter]
    cases l.pts with
    | none => exact h.gathers
    | some pts => exact h.gathers.fold l.index pts P.matchPx l.opening judged.closed
  refine inv_announce ⟨hfolded, h.waiting, h.announced, h.published⟩ fun x hx => ?_
  rcases List.mem_append.mp hx with hx | hx
  · exact newlyPersisted_pos h.gathers hx
  · exact newlyPersisted_pos hfolded hx

theorem inv_foldl (events : List (Event box)) (h : Inv view wallClock live) :
    Inv view wallClock (events.foldl (Live.step P require view wallClock) live) := by
  induction events generalizing live with
  | nil => exact h
  | cons e events ih =>
    refine ih ?_
    cases e with
    | look l => exact inv_look h l
    | miss indices => exact ⟨h.gathers, h.waiting, h.announced, h.published⟩

theorem inv_run (events : List (Event box)) : Inv view wallClock (run P require view wallClock events) :=
  inv_foldl events ⟨gathers_nil, nofun, nofun, rfl⟩

end

/-- Opened by one Look, two Candidates drifted together: what each had gathered when it persisted is on
average in one template pixel. -/
def DriftedTogether (view : View) (a b : Sighted box) : Prop :=
  a.hole.firstFrame = b.hole.firstFrame ∧
    templatePx view (mean a.detections) = templatePx view (mean b.detections)

def idempotencyKey {Key : Type} (uuid5 : String → Key) (sessionId : String) (value : BulletHoleConfirmed) :
    Key :=
  uuid5 (keyName sessionId value)

theorem Inv.nodup_keys {Key : Type} {uuid5 : String → Key} {view : View} {wallClock : ℕ → ℤ}
    {live : Live box} (h : Inv view wallClock live) (huuid5 : Function.Injective uuid5)
    (sessionId : String) : (live.published.map (idempotencyKey uuid5 sessionId)).Nodup ↔
      live.announced.Pairwise fun a b => ¬ DriftedTogether view a b := by
  have hkey : ∀ a ∈ live.announced, ∀ b ∈ live.announced,
      idempotencyKey uuid5 sessionId (confirmed view wallClock a.hole) =
        idempotencyKey uuid5 sessionId (confirmed view wallClock b.hole) ↔ DriftedTogether view a b := by
    intro a ha b hb
    rw [idempotencyKey, idempotencyKey, huuid5.eq_iff, keyName_inj, DriftedTogether, templatePx, templatePx,
      ← h.announced a ha, ← h.announced b hb, Prod.mk.injEq]
    rfl
  rw [h.published, List.map_map, List.Nodup, List.pairwise_map]
  exact List.Pairwise.iff_of_mem fun {a b} ha hb => not_congr (hkey a ha b hb)

/-- `judge` counts the sightings of a window without listing them in order. -/
theorem judge_eq_hits (c : Candidate box) (lookedAt lost : List ℕ) (persist : ℚ) (window : ℕ)
    (unseen : List ℕ) (remaining : ℤ) : judge c lookedAt lost persist window unseen remaining =
      let span := countIn lookedAt c.firstIdx (c.firstIdx + window)
      let tried := span + countIn lost c.firstIdx (c.firstIdx + window) +
        countIn unseen c.firstIdx (c.firstIdx + window)
      if span ≤ 0 ∨ (span : ℚ) < persist * ((tried + remaining : ℤ) : ℚ) then none
      else if (hits window c : ℚ) / ((span + remaining : ℤ) : ℚ) < persist then none
      else some ⟨centre c.pos, c.pos, c.firstIdx, c.seen, hits window c / span, none⟩ := by
  simp only [judge, length_seen_filter]

instance (view : View) (a b : Sighted box) : Decidable (DriftedTogether view a b) :=
  inferInstanceAs (Decidable (_ ∧ _))

private theorem zero_lt_half : (0 : ℚ) < 1 / 2 := by norm_num

private theorem half_le_one : (1 / 2 : ℚ) ≤ 1 := by norm_num

/-- Every fourth frame looked at, past five of the baseline. -/
def liveSettings : Settings where
  matchPx := matchTplPx
  persist := 1 / 2
  window := 50
  stride := 4
  baselineFrames := 5
  persist_pos := zero_lt_half
  persist_le_one := half_le_one

def plainView : View where
  scale := 1
  origin _ := 0
  assign _ := none
  toMillimetres _ _ := none
  scale_pos := one_pos

/-- A Look that detects a small mark at each of these places along a row. -/
def lookAt (index : ℕ) (places : List ℚ) : Event 2 :=
  .look ⟨index, some (places.map fun x => ![x, 0, 1, 1]), true, places.map fun x => ![x, 0, 1, 1]⟩

/-- Two marks seen side by side at seven Looks. -/
def besides : List (Event 2) :=
  [lookAt 8 [0, 40], lookAt 12 [0, 40], lookAt 16 [1, 40], lookAt 20 [0, 41], lookAt 24 [0, 40],
    lookAt 28 [0, 40], lookAt 32 [0, 40]]

/-- Two marks a match radius apart, the second seen at the first seven Looks; what is then seen of the
first moves towards it. -/
def together : List (Event 2) :=
  [lookAt 8 [0, 20], lookAt 12 [20], lookAt 16 [20], lookAt 20 [20], lookAt 24 [20], lookAt 28 [20],
    lookAt 32 [20], lookAt 36 [19], lookAt 40 [29], lookAt 44 [32], lookAt 48 [20], lookAt 52 [20],
    lookAt 56 [20]]

theorem keys_not_nodup_together :
    (run liveSettings true plainView (fun _ => 0) together).announced.map (·.candidate) = [1, 0] ∧
      ¬ ((run liveSettings true plainView (fun _ => 0) together).published.map
        (idempotencyKey id "session")).Nodup := by
  rw [(inv_run together).nodup_keys Function.injective_id]
  delta run Live.step Live.look State.judgeDue State.verdict
  simp only [judge_eq_hits]
  decide +kernel

end Kanat.Announcer
