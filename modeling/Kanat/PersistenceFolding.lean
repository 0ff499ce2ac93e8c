import Kanat.Persistence

/-! # What folding a Look's Detections can do to the Candidates

A Candidate only gathers sightings of the Look's frame, and the Candidates it opens
come after the others, first seen at that frame. -/
namespace Kanat.Persistence
open SortedIndices

variable {box : ℕ}

theorem candidateAt_append_left {cs ds : List (Candidate box)} {k : ℕ} (h : k < cs.length) :
    candidateAt (cs ++ ds) k = candidateAt cs k := by
  simp [candidateAt, List.getD_eq_getElem?_getD, List.getElem?_append_left h]

theorem candidateAt_modify (cs : List (Candidate box)) (f : Candidate box → Candidate box)
    (j : ℕ) {k : ℕ} (h : k < cs.length) :
    candidateAt (cs.modify j f) k = if j = k then f (candidateAt cs k) else candidateAt cs k := by
  simp only [candidateAt, List.getD_eq_getElem?_getD, List.getElem?_modify,
    List.getElem?_eq_getElem h]
  split_ifs <;> rfl

/-- `ds` is what the Detections of the frame `idx` can make of `cs`. -/
structure Grown (idx : ℕ) (cs ds : List (Candidate box)) : Prop where
  length_le : cs.length ≤ ds.length
  firstIdx_old : ∀ k < cs.length, (candidateAt ds k).firstIdx = (candidateAt cs k).firstIdx
  sightings_old : ∀ k < cs.length, ∃ m, (candidateAt ds k).seenFrameIdxs =
    (candidateAt cs k).seenFrameIdxs ++ List.replicate m idx
  firstIdx_new : ∀ k, cs.length ≤ k → k < ds.length → (candidateAt ds k).firstIdx = idx

theorem Grown.refl (idx : ℕ) (cs : List (Candidate box)) : Grown idx cs cs where
  length_le := Nat.le_refl _
  firstIdx_old _ _ := rfl
  sightings_old _ _ := ⟨0, by simp⟩
  firstIdx_new _ h h' := absurd h (Nat.not_le.mpr h')

theorem Grown.trans {idx : ℕ} {cs ds es : List (Candidate box)} (h : Grown idx cs ds)
    (h' : Grown idx ds es) : Grown idx cs es where
  length_le := h.length_le.trans h'.length_le
  firstIdx_old k hk :=
    (h'.firstIdx_old k (hk.trans_le h.length_le)).trans (h.firstIdx_old k hk)
  sightings_old k hk := by
    obtain ⟨m, hm⟩ := h.sightings_old k hk
    obtain ⟨n, hn⟩ := h'.sightings_old k (hk.trans_le h.length_le)
    exact ⟨m + n, by rw [hn, hm, List.append_assoc, List.replicate_append_replicate]⟩
  firstIdx_new k hk hk' := by
    rcases Nat.lt_or_ge k ds.length with hd | hd
    · exact (h'.firstIdx_old k hd).trans (h.firstIdx_new k hk hd)
    · exact h'.firstIdx_new k hd hk'

theorem grown_foldOne (idx : ℕ) (matchPx : ℚ) (opening : Bool) (closed : Finset ℕ)
    (cs : List (Candidate box)) (p : Detection box) :
    Grown idx cs (foldOne idx matchPx opening closed cs p) := by
  unfold foldOne
  cases findMatch cs p matchPx closed with
  | none =>
    cases opening with
    | false => exact Grown.refl idx cs
    | true =>
      refine ⟨by simp, fun k hk => ?_, fun k hk => ⟨0, ?_⟩, fun k hk hk' => ?_⟩
      · rw [if_pos rfl, candidateAt_append_left hk]
      · simp [candidateAt_append_left hk]
      · obtain rfl : k = cs.length := by simp at hk'; omega
        simp [candidateAt]
  | some j =>
    refine ⟨by simp, fun k hk => ?_, fun k hk => ?_, fun k hk hk' => ?_⟩
    · simp only [candidateAt_modify cs _ j hk]
      split_ifs <;> rfl
    · simp only [candidateAt_modify cs _ j hk]
      split_ifs
      · exact ⟨1, rfl⟩
      · exact ⟨0, by simp⟩
    · simp at hk'
      omega

theorem grown_fold (cs : List (Candidate box)) (idx : ℕ) (pts : List (Detection box))
    (matchPx : ℚ) (opening : Bool) (closed : Finset ℕ) :
    Grown idx cs (fold cs idx pts matchPx opening closed) := by
  induction pts generalizing cs with
  | nil => exact Grown.refl idx cs
  | cons p pts ih => exact (grown_foldOne idx matchPx opening closed cs p).trans (ih _)

/-- Distinct frames that saw the Candidate in its window. -/
def hits (window : ℕ) (c : Candidate box) : ℕ :=
  (c.seenFrameIdxs.toFinset.filter fun i => c.firstIdx ≤ i ∧ i < c.firstIdx + window).card

theorem length_seen_filter (window : ℕ) (c : Candidate box) :
    (c.seen.filter fun i => c.firstIdx ≤ i ∧ i < c.firstIdx + window).length =
      hits window c := by
  have hnd := (c.seenFrameIdxs.toFinset.sort_nodup (· ≤ ·)).filter
    (fun i => decide (c.firstIdx ≤ i ∧ i < c.firstIdx + window))
  rw [Candidate.seen, ← List.toFinset_card_of_nodup hnd, hits]
  congr 1
  ext i
  simp

theorem hits_le_of_grown {idx : ℕ} {cs ds : List (Candidate box)} (h : Grown idx cs ds)
    (window : ℕ) {k : ℕ} (hk : k < cs.length) :
    hits window (candidateAt cs k) ≤ hits window (candidateAt ds k) := by
  obtain ⟨m, hm⟩ := h.sightings_old k hk
  rw [hits, hits, h.firstIdx_old k hk, hm]
  apply Finset.card_le_card
  apply Finset.filter_subset_filter
  intro i hi
  simp only [List.mem_toFinset, List.mem_append] at hi ⊢
  exact Or.inl hi

/-- A sighting past the window changes no count of the window's. -/
theorem hits_eq_of_grown {idx : ℕ} {cs ds : List (Candidate box)} (h : Grown idx cs ds)
    (window : ℕ) {k : ℕ} (hk : k < cs.length)
    (hw : (candidateAt cs k).firstIdx + window ≤ idx) :
    hits window (candidateAt ds k) = hits window (candidateAt cs k) := by
  obtain ⟨m, hm⟩ := h.sightings_old k hk
  rw [hits, hits, h.firstIdx_old k hk, hm]
  congr 1
  ext i
  simp only [Finset.mem_filter, List.mem_toFinset, List.mem_append, List.mem_replicate]
  constructor
  · rintro ⟨hi | ⟨_, rfl⟩, hb⟩
    · exact ⟨hi, hb⟩
    · omega
  · rintro ⟨hi, hb⟩
    exact ⟨Or.inl hi, hb⟩

end Kanat.Persistence
