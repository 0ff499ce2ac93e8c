import Kanat.Announcements
import Kanat.BaselineMarks
import Kanat.CandidateStructure
import Kanat.ConditionalRuns

/-! # How far running means may drift and the keys of a Run still differ

Two Candidates opened on one frame were a match radius apart then, but for what the first had drifted by; each is
announced where its running mean is when it persists. While no undecided Candidate with another beside it is more than
`reach` from the Detection that opened it, the two are announced `matchPx - 3 * reach` apart or more. -/
namespace Kanat.Announcer
open BaselineMarks (distance)
open ConditionalRuns (Each)
open ExactDistance (Longer longer_iff length_add_le length_neg)
open Persistence
open Rounding (pyRound pyRound_error)

variable {box : ℕ}

/-- No more than `reach` apart. -/
def Near (reach : ℚ) (a b : Detection box) : Prop := ¬ Longer (a 0 - b 0) (a 1 - b 1) reach

instance (reach : ℚ) (a b : Detection box) : Decidable (Near reach a b) := inferInstanceAs (Decidable (¬ _))

/-- The Detection that opened a Candidate. -/
def opener (gathered : List (List (Detection box))) (k : ℕ) : Detection box := (gathered.getD k []).headD 0

/-- Another Candidate was opened on the frame that opened this one. -/
def Beside (candidates : List (Candidate box)) (k : ℕ) : Prop :=
  ∃ j < candidates.length, j ≠ k ∧ (candidateAt candidates j).firstIdx = (candidateAt candidates k).firstIdx

instance (candidates : List (Candidate box)) (k : ℕ) : Decidable (Beside candidates k) :=
  inferInstanceAs (Decidable (∃ j < candidates.length, _))

/-- The running mean of each undecided Candidate with another beside it is near the Detection that opened it. -/
def Undrifted (reach : ℚ) (undecided : ℕ → Prop) (candidates : List (Candidate box))
    (gathered : List (List (Detection box))) : Prop :=
  ∀ k < candidates.length, undecided k → Beside candidates k → Near reach (candidateAt candidates k).pos (opener gathered k)

instance (reach : ℚ) (undecided : ℕ → Prop) [DecidablePred undecided] (candidates : List (Candidate box))
    (gathered : List (List (Detection box))) : Decidable (Undrifted reach undecided candidates gathered) :=
  inferInstanceAs (Decidable (∀ k < candidates.length, _))

/-- A Look's Detections folded in one by one, none drifting. -/
def Steady (reach : ℚ) (undecided : ℕ → Prop) (idx : ℕ) (matchPx : ℚ) (opening : Bool) (closed : Finset ℕ) :
    List (Candidate box) → List (List (Detection box)) → List (Detection box) → Prop
  | _, _, [] => True
  | candidates, gathered, p :: pts =>
    Undrifted reach undecided (foldOne idx matchPx opening closed candidates p)
        (gatherOne matchPx opening closed candidates gathered p) ∧
      Steady reach undecided idx matchPx opening closed (foldOne idx matchPx opening closed candidates p)
        (gatherOne matchPx opening closed candidates gathered p) pts

instance decidableSteady (reach : ℚ) (undecided : ℕ → Prop) [DecidablePred undecided] (idx : ℕ) (matchPx : ℚ)
    (opening : Bool) (closed : Finset ℕ) : ∀ (candidates : List (Candidate box)) (gathered : List (List (Detection box)))
      (pts : List (Detection box)), Decidable (Steady reach undecided idx matchPx opening closed candidates gathered pts)
  | _, _, [] => .isTrue trivial
  | candidates, gathered, p :: pts =>
    have := decidableSteady reach undecided idx matchPx opening closed (foldOne idx matchPx opening closed candidates p)
      (gatherOne matchPx opening closed candidates gathered p) pts
    inferInstanceAs (Decidable (_ ∧ _))

def Event.look? : Event box → Option (Look box)
  | .look l => some l
  | .miss _ => none

/-- A step of a live Run that lets no running mean drift: undecided are the Candidates its first judgement leaves open,
and those it opens. -/
def Live.Steady (P : Settings) (reach : ℚ) (live : Live box) (e : Event box) : Prop :=
  ∀ l ∈ e.look?,
    let judged := (live.persistence.judgeDue P l.index (some l.index)).1
    Announcer.Steady reach (fun k => k ∈ judged.openIds ∨ judged.candidates.length ≤ k) l.index P.matchPx l.opening
      judged.closed judged.candidates live.gathered (l.pts.getD [])

/-- Candidates opened on one frame were opened apart. -/
def OpenedApart (apart : ℝ) (candidates : List (Candidate box)) (gathered : List (List (Detection box))) : Prop :=
  ∀ j k, j < k → k < candidates.length → (candidateAt candidates j).firstIdx = (candidateAt candidates k).firstIdx →
    apart ≤ distance (opener gathered j) (opener gathered k)

section
variable {reach matchPx : ℚ} {undecided : ℕ → Prop} {idx made k : ℕ} {opening : Bool} {closed : Finset ℕ}
  {candidates : List (Candidate box)} {gathered : List (List (Detection box))} {all pts : List (Detection box)}
  {p a b c : Detection box}

theorem near_iff : Near reach a b ↔ distance a b ≤ reach := by
  rw [Near, longer_iff, not_lt]
  rfl

theorem distance_comm (a b : Detection box) : distance a b = distance b a := by
  rw [distance, distance, ← length_neg, neg_sub, neg_sub]

theorem distance_triangle (a b c : Detection box) : distance a c ≤ distance a b + distance b c := by
  have h := length_add_le (a 0 - b 0) (a 1 - b 1) (b 0 - c 0) (b 1 - c 1)
  rwa [sub_add_sub_cancel, sub_add_sub_cancel] at h

private theorem le_distance_of_not_same (h : sameBulletHole a b matchPx = false) : (matchPx : ℝ) ≤ distance a b := by
  by_contra hlt
  have hshorter := BaselineMarks.shorter_iff_distance.mpr (not_le.mp hlt)
  rw [sameBulletHole, if_pos hshorter] at h
  cases h

/-- What is gathered later leaves the Detection that opened a Candidate first. -/
theorem opener_gatherOne (h : Booked candidates gathered all) (hk : k < candidates.length) :
    opener (gatherOne matchPx opening closed candidates gathered p) k = opener gathered k := by
  have hlt : k < gathered.length := h.length.symm ▸ hk
  have hsome : gathered[k] ≠ [] := fun hnil => h.opened (hnil ▸ List.getElem_mem hlt)
  unfold opener gatherOne
  cases findMatch candidates p matchPx closed with
  | none =>
    cases opening with
    | false => rfl
    | true =>
      dsimp only
      rw [if_pos rfl, List.getD_append _ _ _ _ hlt]
  | some j =>
    dsimp only
    rw [List.getD_eq_getElem?_getD, List.getD_eq_getElem?_getD, List.getElem?_modify, List.getElem?_eq_getElem hlt]
    split
    · cases hgroup : gathered[k] with
      | nil => exact absurd hgroup hsome
      | cons d ds => rfl
    · rfl

private theorem opener_gather (h : Booked candidates gathered all) (hk : k < candidates.length) :
    opener (gather idx matchPx opening closed candidates gathered pts) k = opener gathered k := by
  induction pts generalizing candidates gathered all with
  | nil => rfl
  | cons p pts ih =>
    have hlen := (grown_foldOne idx matchPx opening closed candidates p).length_le
    exact (ih (h.foldOne idx matchPx opening closed p) (hk.trans_le hlen)).trans (opener_gatherOne h hk)

/-- The last of the Detections leaves none drifted either. -/
theorem Steady.undrifted (h : Steady reach undecided idx matchPx opening closed candidates gathered pts)
    (hbefore : Undrifted reach undecided candidates gathered) :
    Undrifted reach undecided (fold candidates idx pts matchPx opening closed)
      (gather idx matchPx opening closed candidates gathered pts) := by
  induction pts generalizing candidates gathered with
  | nil => exact hbefore
  | cons p pts ih => exact ih h.2 h.1

/-- A Candidate opened is a match radius from where those beside it are, and these are near where they were opened. -/
theorem OpenedApart.foldOne (h : OpenedApart (matchPx - reach) candidates gathered) (hbooked : Booked candidates gathered all)
    (hclosed : ∀ j ∈ closed, j < made) (hnew : ∀ j < candidates.length, (candidateAt candidates j).firstIdx = idx → made ≤ j)
    (hundecided : ∀ j, made ≤ j → undecided j)
    (hsteady : Undrifted reach undecided (foldOne idx matchPx opening closed candidates p)
      (gatherOne matchPx opening closed candidates gathered p)) :
    OpenedApart (matchPx - reach) (foldOne idx matchPx opening closed candidates p)
      (gatherOne matchPx opening closed candidates gathered p) := by
  have hgrown := grown_foldOne idx matchPx opening closed candidates p
  intro j k hjk hk hfirst
  rcases Nat.lt_or_ge k candidates.length with hold | hopened
  · have hj := hjk.trans hold
    rw [hgrown.firstIdx_old j hj, hgrown.firstIdx_old k hold] at hfirst
    rw [opener_gatherOne hbooked hj, opener_gatherOne hbooked hold]
    exact h j k hjk hold hfirst
  · rcases foldOne_cases idx matchPx opening closed candidates p with ⟨i, -, -, -, heq⟩ | ⟨hnone, heq⟩
    · rw [heq, List.length_modify] at hk
      exact absurd hk (Nat.not_lt.mpr hopened)
    · cases opening with
      | false =>
        rw [heq, if_neg Bool.false_ne_true] at hk
        exact absurd hk (Nat.not_lt.mpr hopened)
      | true =>
        have hlength : (foldOne idx matchPx true closed candidates p).length = candidates.length + 1 := by
          rw [heq, if_pos rfl, List.length_append, List.length_singleton]
        obtain rfl : k = candidates.length := by omega
        have hj : j < candidates.length := hjk
        have hidx := hgrown.firstIdx_new candidates.length (Nat.le_refl _) hk
        have hjold := hgrown.firstIdx_old j hj
        have hmade : made ≤ j := hnew j hj (by rw [← hjold, hfirst, hidx])
        have hopen : j ∉ closed := fun hin => Nat.not_lt.mpr hmade (hclosed j hin)
        have hfar : (matchPx : ℝ) ≤ distance (candidateAt candidates j).pos p :=
          le_distance_of_not_same (hnone j hj hopen)
        have hpos : candidateAt (foldOne idx matchPx true closed candidates p) j = candidateAt candidates j := by
          rw [heq, if_pos rfl, candidateAt_append_left hj]
        have hnear := near_iff.mp (hsteady j (hj.trans_le hgrown.length_le) (hundecided j hmade)
          ⟨candidates.length, hk, hj.ne', hfirst.symm⟩)
        rw [hpos, opener_gatherOne hbooked hj] at hnear
        have hopener : opener (gatherOne matchPx true closed candidates gathered p) candidates.length = p := by
          have hfind : findMatch candidates p matchPx closed = none := by
            cases hfind : findMatch candidates p matchPx closed with
            | none => rfl
            | some i =>
              obtain ⟨hi, hiopen, hsame⟩ := findMatch_spec hfind
              rw [hnone i hi hiopen] at hsame
              cases hsame
          simp [opener, gatherOne, hfind, ← hbooked.length]
        rw [opener_gatherOne hbooked hj, hopener]
        have htriangle := distance_triangle (candidateAt candidates j).pos (opener gathered j) p
        linarith

theorem OpenedApart.fold (h : OpenedApart (matchPx - reach) candidates gathered) (hbooked : Booked candidates gathered all)
    (hclosed : ∀ j ∈ closed, j < made) (hmade : made ≤ candidates.length)
    (hnew : ∀ j < candidates.length, (candidateAt candidates j).firstIdx = idx → made ≤ j)
    (hundecided : ∀ j, made ≤ j → undecided j)
    (hsteady : Steady reach undecided idx matchPx opening closed candidates gathered pts) :
    OpenedApart (matchPx - reach) (Persistence.fold candidates idx pts matchPx opening closed)
      (gather idx matchPx opening closed candidates gathered pts) := by
  induction pts generalizing candidates gathered all with
  | nil => exact h
  | cons p pts ih =>
    have hgrown := grown_foldOne idx matchPx opening closed candidates p
    refine ih (h.foldOne hbooked hclosed hnew hundecided hsteady.1) (hbooked.foldOne idx matchPx opening closed p)
      (hmade.trans hgrown.length_le) (fun j hj hfirst => ?_) hsteady.2
    rcases Nat.lt_or_ge j candidates.length with hold | hopened
    · rw [hgrown.firstIdx_old j hold] at hfirst
      exact hnew j hold hfirst
    · exact hmade.trans hopened

end

section
variable {P : Settings} {require : Bool} {view : View} {wallClock : ℕ → ℤ} {reach : ℚ} {live : Live box} {s : State box}
  {gathered : List (List (Detection box))} {x : Sighted box} {q : ℕ}

/-- A Candidate newly persisted was open, and is where it then was. -/
theorem newlyPersisted_reported {look : Option ℕ} (hx : x ∈ newlyPersisted s (s.judgeDue P q look).1 gathered) :
    x.candidate ∈ s.openIds ∧ x.hole.firstFrame = (s.candidate x.candidate).firstIdx ∧
      x.hole.pos = centre (s.candidate x.candidate).pos := by
  simp only [newlyPersisted, State.judgeDue, List.drop_left] at hx
  obtain ⟨⟨hole, id⟩, hmem, rfl⟩ := List.mem_map.mp hx
  obtain ⟨id', hid, hv⟩ := List.mem_filterMap.mp hmem
  obtain ⟨hole', hverdict, heq⟩ := Option.map_eq_some_iff.mp hv
  cases heq
  have hfirst : hole'.firstFrame = _ := verdict_firstFrame hverdict
  have hpos : hole'.pos = _ := verdict_pos hverdict
  exact ⟨hid, hfirst, hpos⟩

/-- What is known of a Candidate that persisted: where it was announced, or will be, is near where it was opened. -/
structure Told (reach : ℚ) (candidates : List (Candidate box)) (gathered : List (List (Detection box)))
    (x : Sighted box) : Prop where
  lt : x.candidate < candidates.length
  first : x.hole.firstFrame = (candidateAt candidates x.candidate).firstIdx
  near : Beside candidates x.candidate → ∃ pos : Detection box, x.hole.pos = centre pos ∧
    Near reach pos (opener gathered x.candidate)

/-- The live Run once `q` frames have passed, none of its Candidates having drifted. -/
structure Spread (P : Settings) (reach : ℚ) (live : Live box) (q : ℕ) : Prop where
  filed : Filed live.persistence q
  booked : ∃ all, Booked live.persistence.candidates live.gathered all
  openedApart : OpenedApart (P.matchPx - reach) live.persistence.candidates live.gathered
  undrifted : Undrifted reach (· ∈ live.persistence.openIds) live.persistence.candidates live.gathered
  told : ∀ x ∈ live.waiting ++ live.announced, Told reach live.persistence.candidates live.gathered x

private theorem spread_start (P : Settings) (reach : ℚ) : Spread P reach ({} : Live box) 0 where
  filed := (placed_start P).filed
  booked := ⟨[], booked_start⟩
  openedApart _ _ _ h := absurd h (Nat.not_lt_zero _)
  undrifted _ h := absurd h (Nat.not_lt_zero _)
  told _ h := absurd h List.not_mem_nil

theorem told_newlyPersisted {processed : ℕ} {look : Option ℕ} {detected : List (List (Detection box))}
    (hfiled : Filed s q) (hundrifted : Undrifted reach (· ∈ s.openIds) s.candidates gathered)
    (hx : x ∈ newlyPersisted s (s.judgeDue P processed look).1 detected) : Told reach s.candidates gathered x := by
  obtain ⟨hopen, hfirst, hpos⟩ := newlyPersisted_reported hx
  have hlt : x.candidate < s.candidates.length := (hfiled.covered _).mpr (.inl hopen)
  exact ⟨hlt, hfirst, fun hbeside => ⟨_, hpos, hundrifted _ hlt hopen hbeside⟩⟩

/-- A Look opens Candidates on its own frame only, beside none of those before it. -/
theorem Beside.of_grown {index k : ℕ} {after : List (Candidate box)} (hfiled : Filed s q) (hq : q ≤ index)
    (hgrown : Grown index s.candidates after) (hk : k < s.candidates.length) (h : Beside after k) :
    Beside s.candidates k := by
  obtain ⟨j, hj, hne, hfirst⟩ := h
  have hlt : (candidateAt s.candidates k).firstIdx < q := hfiled.firstIdx_lt k hk
  rw [hgrown.firstIdx_old k hk] at hfirst
  have hold : j < s.candidates.length := by
    by_contra hnew
    have hidx := hgrown.firstIdx_new j (Nat.le_of_not_lt hnew) hj
    omega
  exact ⟨j, hold, hne, (hgrown.firstIdx_old j hold).symm.trans hfirst⟩

theorem Told.grown {index : ℕ} {after : List (Candidate box)} {gathered' : List (List (Detection box))}
    (h : Told reach s.candidates gathered x) (hfiled : Filed s q) (hq : q ≤ index)
    (hgrown : Grown index s.candidates after)
    (hopener : ∀ k < s.candidates.length, opener gathered' k = opener gathered k) : Told reach after gathered' x where
  lt := h.lt.trans_le hgrown.length_le
  first := h.first.trans (hgrown.firstIdx_old _ h.lt).symm
  near hbeside := by
    rw [hopener _ h.lt]
    exact h.near (hbeside.of_grown hfiled hq hgrown h.lt)

/-- What a Look's Detections leave of the Candidates, before they are judged again. -/
theorem Spread.folded (h : Spread P reach live q) {l : Look box} (hq : q ≤ l.index)
    (hsteady : live.Steady P reach (.look l)) :
    let judged := (live.persistence.judgeDue P l.index (some l.index)).1
    let folded := judged.register P l.index l.pts l.opening
    let gathered := live.gatheredAfter P judged l
    (∃ all, Booked folded.candidates gathered all) ∧ OpenedApart (P.matchPx - reach) folded.candidates gathered ∧
      Undrifted reach (· ∈ folded.openIds) folded.candidates gathered ∧
      ∀ k < live.persistence.candidates.length, opener gathered k = opener live.gathered k := by
  intro judged folded gathered
  obtain ⟨all, hbooked⟩ := h.booked
  have hjudged : Filed judged l.index := h.filed.judgeDue (some l.index) hq
  have hopenIds : ∀ k ∈ judged.openIds, k ∈ live.persistence.openIds := by
    intro k hk
    exact ((mem_judgeDue_openIds P live.persistence l.index (some l.index)).mp hk).1
  have hbefore : Undrifted reach (fun k => k ∈ judged.openIds ∨ judged.candidates.length ≤ k)
      live.persistence.candidates live.gathered := by
    rintro k hk (hopen | hnew)
    · exact h.undrifted k hk (hopenIds k hopen)
    · exact absurd hk (Nat.not_lt.mpr hnew)
  have hundecided : ∀ k ∈ folded.openIds, k ∈ judged.openIds ∨ judged.candidates.length ≤ k := by
    intro k hk
    exact ((mem_register_openIds P judged l.index l.pts l.opening k).mp hk).imp_right And.left
  have hlook := hsteady l rfl
  obtain ⟨index, pts, opening, corroborating⟩ := l
  cases pts with
  | none =>
    exact ⟨⟨all, hbooked⟩, h.openedApart, fun k hk hopen => hbefore k hk (hundecided k hopen), fun _ _ => rfl⟩
  | some pts =>
    have hclosed : ∀ j ∈ judged.closed, j < judged.candidates.length := by
      intro j hj
      exact (hjudged.covered j).mpr (.inr (.inr hj))
    have hnew : ∀ j < judged.candidates.length, (candidateAt judged.candidates j).firstIdx = index →
        judged.candidates.length ≤ j := by
      intro j hj hfirst
      have hlt : (candidateAt judged.candidates j).firstIdx < index := hjudged.firstIdx_lt j hj
      omega
    refine ⟨⟨_, hbooked.fold index P.matchPx opening judged.closed pts⟩, ?_, fun k hk hopen => ?_, fun k hk => ?_⟩
    · exact h.openedApart.fold hbooked hclosed (Nat.le_refl _) hnew (fun _ hj => .inr hj) hlook
    · exact hlook.undrifted hbefore k hk (hundecided k hopen)
    · exact opener_gather hbooked hk

/-- Who waits or has been announced after a Look: one of those its two judgements find, or of those before. -/
theorem mem_told_look {l : Look box} (hx : x ∈ (live.look P require view wallClock l).waiting ++
    (live.look P require view wallClock l).announced) :
    let judged := (live.persistence.judgeDue P l.index (some l.index)).1
    let folded := judged.register P l.index l.pts l.opening
    x ∈ newlyPersisted live.persistence (live.persistence.judgeDue P l.index (some l.index)).1 live.gathered ∨
      x ∈ newlyPersisted folded (folded.judgeDue P (l.index + 1) none).1 (live.gatheredAfter P judged l) ∨
      x ∈ live.waiting ++ live.announced := by
  intro judged folded
  let called : Live box := { live with
    persistence := (folded.judgeDue P (l.index + 1) none).1
    gathered := live.gatheredAfter P judged l
    corroboration := live.corroboration ++ l.corroborating }
  have hmem := (announce_split P require view wallClock called (newlyPersisted live.persistence judged live.gathered ++
    newlyPersisted folded (folded.judgeDue P (l.index + 1) none).1 (live.gatheredAfter P judged l))
    l.corroborating).mem_iff.mp hx
  rw [List.mem_append, List.mem_append, or_assoc] at hmem
  exact hmem

theorem Spread.look (h : Spread P reach live q) {l : Look box} (hq : q ≤ l.index)
    (hsteady : live.Steady P reach (.look l)) : Spread P reach (live.look P require view wallClock l) (l.index + 1) := by
  set judged := (live.persistence.judgeDue P l.index (some l.index)).1 with hjudgedDef
  set folded := judged.register P l.index l.pts l.opening with hfoldedDef
  set gathered := live.gatheredAfter P judged l with hgathered
  obtain ⟨hbooked, hopened, hundrifted, hopener⟩ := h.folded hq hsteady
  have hjudged : Filed judged l.index := h.filed.judgeDue (some l.index) hq
  have hfolded : Filed folded (l.index + 1) := hjudged.register l.pts l.opening (Nat.le_refl _)
  have hrejudged : Filed (folded.judgeDue P (l.index + 1) none).1 (l.index + 1) := hfolded.judgeDue none (Nat.le_refl _)
  have hgrown : Grown l.index live.persistence.candidates folded.candidates :=
    grown_register P judged l.index l.pts l.opening
  refine ⟨hrejudged, hbooked, hopened, fun k hk hopen => ?_, fun x hx => ?_⟩
  · exact hundrifted k hk ((mem_judgeDue_openIds P folded (l.index + 1) none).mp hopen).1
  · rcases mem_told_look hx with hbefore | hafter | hold
    · have htold : Told reach live.persistence.candidates live.gathered x :=
        told_newlyPersisted h.filed h.undrifted hbefore
      exact htold.grown h.filed hq hgrown hopener
    · have htold : Told reach folded.candidates gathered x := told_newlyPersisted hfolded hundrifted hafter
      exact htold
    · exact (h.told x hold).grown h.filed hq hgrown hopener

/-- Looks at increasing frames, none of which lets a running mean drift. -/
theorem spread_run {events : List (Event box)} (h : Spread P reach live q)
    (horder : InOrder q (events.map Event.fed)) (hsteady : Each (Live.step P require view wallClock)
      (Live.Steady P reach) live events) :
    ∃ q', Spread P reach (events.foldl (Live.step P require view wallClock) live) q' := by
  induction events generalizing live q with
  | nil => exact ⟨q, h⟩
  | cons e events ih =>
    cases e with
    | look l => exact ih (h.look horder.1 hsteady.1) horder.2 hsteady.2
    | miss indices =>
      have hfiled : Filed (live.step P require view wallClock (.miss indices)).persistence q :=
        ⟨h.filed.firstIdx_mono, h.filed.firstIdx_lt, h.filed.covered, h.filed.openIds_sorted,
          h.filed.persistedIds_nodup, h.filed.open_not_persisted, h.filed.not_closed⟩
      exact ih ⟨hfiled, h.booked, h.openedApart, h.undrifted, h.told⟩ horder hsteady.2

/-- What rounds to one template pixel is no further apart than its diagonal. -/
theorem distance_le_of_templatePx {a b : Detection box} (h : templatePx view a = templatePx view b) :
    distance a b ≤ √2 * view.scale := by
  have hclose (i : Fin 2) (hround : pyRound (view.boardToTemplate (centre a) i) =
      pyRound (view.boardToTemplate (centre b) i)) : (centre a i - centre b i) ^ 2 ≤ view.scale ^ 2 := by
    have hscale := view.scale_pos
    have ha := abs_le.mp (pyRound_error (view.boardToTemplate (centre a) i))
    have hb := abs_le.mp (pyRound_error (view.boardToTemplate (centre b) i))
    rw [hround] at ha
    have hdiff : |(centre a i - centre b i) / view.scale| ≤ 1 := by
      have heq : (centre a i - centre b i) / view.scale =
          view.boardToTemplate (centre a) i - view.boardToTemplate (centre b) i := by
        simp only [View.boardToTemplate]
        ring
      rw [heq, abs_le]
      constructor <;> linarith [ha.1, ha.2, hb.1, hb.2]
    rw [abs_div, div_le_one (abs_pos.mpr hscale.ne')] at hdiff
    exact sq_le_sq.mpr hdiff
  have hx := hclose 0 (congrArg Prod.fst h)
  have hy := hclose 1 (congrArg Prod.snd h)
  have hscale : (0 : ℝ) ≤ view.scale := by exact_mod_cast view.scale_pos.le
  have hx' : ((a 0 - b 0 : ℚ) : ℝ) ^ 2 ≤ (view.scale : ℝ) ^ 2 := by exact_mod_cast hx
  have hy' : ((a 1 - b 1 : ℚ) : ℝ) ^ 2 ≤ (view.scale : ℝ) ^ 2 := by exact_mod_cast hy
  rw [distance, ExactDistance.length, Real.sqrt_le_iff, mul_pow, Real.sq_sqrt zero_le_two]
  exact ⟨by positivity, by linarith⟩

/-- A live Run none of whose undecided Candidates drifts further than `reach` publishes Bullet Holes whose keys differ. -/
theorem keys_nodup {Key : Type} {uuid5 : String → Key} (huuid5 : Function.Injective uuid5) (sessionId : String)
    (P : Settings) (require : Bool) (view : View) (wallClock : ℕ → ℤ) {reach : ℚ}
    (hreach : 3 * (reach : ℝ) + √2 * view.scale < P.matchPx) {events : List (Event box)}
    (horder : InOrder 0 (events.map Event.fed))
    (hsteady : Each (Live.step P require view wallClock) (Live.Steady P reach) {} events) :
    ((run P require view wallClock events).published.map (idempotencyKey uuid5 sessionId)).Nodup := by
  set live := run P require view wallClock events with hlive
  have hinv : Inv view wallClock live := inv_run events
  have hkept : Kept live := kept_run events
  obtain ⟨q, hspread⟩ : ∃ q, Spread P reach live q := spread_run (spread_start P reach) horder hsteady
  have hnodup : (live.announced.map (·.candidate)).Nodup := by
    have hall := hkept.split.nodup_iff.mpr hkept.apart.persistedIds_nodup
    rw [List.map_append] at hall
    exact (List.nodup_append.mp hall).2.1
  rw [hinv.nodup_keys huuid5]
  rw [List.Nodup, List.pairwise_map] at hnodup
  refine hnodup.imp_of_mem fun {x y} hx hy hne ⟨hfirst, hpx⟩ => ?_
  have hxtold := hspread.told x (List.mem_append_right _ hx)
  have hytold := hspread.told y (List.mem_append_right _ hy)
  have hsame := hxtold.first.symm.trans (hfirst.trans hytold.first)
  obtain ⟨a, hxa, hanear⟩ := hxtold.near ⟨_, hytold.lt, hne.symm, hsame.symm⟩
  obtain ⟨b, hyb, hbnear⟩ := hytold.near ⟨_, hxtold.lt, hne, hsame⟩
  set xOpener := opener live.gathered x.candidate
  set yOpener := opener live.gathered y.candidate
  have hapart : (P.matchPx : ℝ) - reach ≤ distance xOpener yOpener := by
    rcases Nat.lt_or_gt_of_ne hne with hlt | hlt
    · exact hspread.openedApart _ _ hlt hytold.lt hsame
    · rw [distance_comm]
      exact hspread.openedApart _ _ hlt hxtold.lt hsame.symm
  have hclose : distance a b ≤ √2 * view.scale := by
    refine distance_le_of_templatePx ?_
    rwa [templatePx, templatePx, ← hinv.announced x hx, ← hinv.announced y hy, hxa, hyb] at hpx
  have hxdrift : distance xOpener a ≤ reach := distance_comm a xOpener ▸ near_iff.mp hanear
  have hydrift : distance b yOpener ≤ reach := near_iff.mp hbnear
  have hfirstLeg := distance_triangle xOpener a yOpener
  have hsecondLeg := distance_triangle a b yOpener
  linarith

end

theorem keys_nodup_besides : ((run liveSettings true plainView (fun _ => 0) besides).published.map
    (idempotencyKey id "session")).Nodup := by
  have hreach : 3 * ((6 : ℚ) : ℝ) + √2 * (plainView.scale : ℝ) < (liveSettings.matchPx : ℝ) := by
    have hroot : √(2 : ℝ) < 2 := by
      rw [Real.sqrt_lt' two_pos]
      norm_num
    norm_num [plainView, liveSettings, matchTplPx]
    linarith
  have horder : InOrder 0 (besides.map Event.fed) := by simp [besides, lookAt, Event.fed, InOrder]
  refine keys_nodup Function.injective_id "session" liveSettings true plainView (fun _ => 0) hreach horder ?_
  delta Live.step Live.look Live.Steady State.judgeDue State.verdict
  simp only [judge_eq_hits]
  decide +kernel

end Kanat.Announcer
