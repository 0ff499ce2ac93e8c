import Kanat.ConditionalRuns
import Mathlib.Data.List.Basic
import Mathlib.Tactic.Common

/-! # Packets cut from a stream that comes in chunks

A cutter takes a packet off the front of what is buffered, passes over a corrupt one, or waits. The packets of a
whole stream do not depend on its chunks; a loop that stops at a corrupt packet, and keeps what it likes when it
waits, hands them over as long as its steps are clean. -/
namespace Kanat.PacketStream

inductive Cut (α : Type) where
  | wait
  | corrupt (rest : List α)
  | packet (packet rest : List α)

/-- `pending` is all of the buffer a cut may still need; after a `final` packet nothing more is read. -/
structure Framer (α : Type) where
  cut : List α → Cut α
  pending : List α → List α
  final : List α → Bool
  corrupt_shorter : ∀ {b rest}, cut b = .corrupt rest → rest.length < b.length
  packet_shorter : ∀ {b p rest}, cut b = .packet p rest → rest.length < b.length
  corrupt_append : ∀ {b rest} y, cut b = .corrupt rest → cut (b ++ y) = .corrupt (rest ++ y)
  packet_append : ∀ {b p rest} y, cut b = .packet p rest → cut (b ++ y) = .packet p (rest ++ y)
  wait_append : ∀ {b} y, cut b = .wait → cut (b ++ y) = cut (pending b ++ y)
  pending_append : ∀ {b} y, cut b = .wait → pending (b ++ y) = pending (pending b ++ y)

namespace Framer
variable {α : Type} (F : Framer α) {b rest p y : List α}

/-- The packets of a buffer, and what is pending after them. -/
def frames (b : List α) : List (List α) × Option (List α) :=
  match h : F.cut b with
  | .wait => ([], some (F.pending b))
  | .corrupt rest =>
    have := F.corrupt_shorter h
    frames rest
  | .packet p rest =>
    have := F.packet_shorter h
    if F.final p then ([p], none) else (p :: (frames rest).1, (frames rest).2)
termination_by b.length

/-- What a loop hands over before it waits or meets a corrupt packet, and the buffer it leaves. -/
def advance (kept : List α → List α) (b : List α) : List (List α) × Option (List α) :=
  match h : F.cut b with
  | .wait => ([], some (kept b))
  | .corrupt rest => ([], some rest)
  | .packet p rest =>
    have := F.packet_shorter h
    if F.final p then ([p], none) else (p :: (advance kept rest).1, (advance kept rest).2)
termination_by b.length

/-- The loop keeps what is pending, and no packet lies past a corrupt one. -/
def Clean (kept : List α → List α) (b : List α) : Prop :=
  match h : F.cut b with
  | .wait => kept b = F.pending b
  | .corrupt rest => (F.frames rest).1 = []
  | .packet p rest =>
    have := F.packet_shorter h
    F.final p ∨ Clean kept rest
termination_by b.length

variable {F} {kept : List α → List α}

theorem frames_wait (h : F.cut b = .wait) : F.frames b = ([], some (F.pending b)) := by
  rw [frames]
  split <;> simp_all

theorem frames_corrupt (h : F.cut b = .corrupt rest) : F.frames b = F.frames rest := by
  rw [frames]
  split <;> simp_all

theorem frames_packet (h : F.cut b = .packet p rest) :
    F.frames b = if F.final p then ([p], none) else (p :: (F.frames rest).1, (F.frames rest).2) := by
  rw [frames]
  split <;> simp_all

theorem advance_wait (h : F.cut b = .wait) : F.advance kept b = ([], some (kept b)) := by
  rw [advance]
  split <;> simp_all

theorem advance_corrupt (h : F.cut b = .corrupt rest) : F.advance kept b = ([], some rest) := by
  rw [advance]
  split <;> simp_all

theorem advance_packet (h : F.cut b = .packet p rest) : F.advance kept b =
    if F.final p then ([p], none) else (p :: (F.advance kept rest).1, (F.advance kept rest).2) := by
  rw [advance]
  split <;> simp_all

theorem clean_wait (h : F.cut b = .wait) : F.Clean kept b ↔ kept b = F.pending b := by
  rw [Clean]
  split <;> simp_all

private theorem clean_corrupt (h : F.cut b = .corrupt rest) : F.Clean kept b ↔ (F.frames rest).1 = [] := by
  rw [Clean]
  split <;> simp_all

theorem clean_packet (h : F.cut b = .packet p rest) : F.Clean kept b ↔ F.final p ∨ F.Clean kept rest := by
  rw [Clean]
  split <;> simp_all

theorem frames_nil : F.frames [] = ([], some (F.pending [])) := by
  cases h : F.cut [] with
  | wait => exact frames_wait h
  | corrupt rest => exact absurd (F.corrupt_shorter h) (Nat.not_lt_zero _)
  | packet p rest => exact absurd (F.packet_shorter h) (Nat.not_lt_zero _)

/-- A buffer that waits goes on from what is pending. -/
theorem frames_pending (h : F.cut b = .wait) : F.frames (b ++ y) = F.frames (F.pending b ++ y) := by
  have hc := F.wait_append y h
  cases hy : F.cut (F.pending b ++ y) with
  | wait => rw [frames_wait (hc.trans hy), frames_wait hy, F.pending_append y h]
  | corrupt rest => rw [frames_corrupt (hc.trans hy), frames_corrupt hy]
  | packet p rest => rw [frames_packet (hc.trans hy), frames_packet hy]

/-- The packets of a stream are those of its first bytes, then those of what was pending and the rest. -/
theorem frames_append (b y : List α) : F.frames (b ++ y) = match (F.frames b).2 with
    | none => F.frames b
    | some r => ((F.frames b).1 ++ (F.frames (r ++ y)).1, (F.frames (r ++ y)).2) := by
  induction hn : b.length using Nat.strongRecOn generalizing b with
  | ind n ih =>
    cases hc : F.cut b with
    | wait =>
      rw [frames_wait hc, frames_pending hc]
      rfl
    | corrupt rest =>
      rw [frames_corrupt (F.corrupt_append y hc), frames_corrupt hc]
      exact ih _ (hn ▸ F.corrupt_shorter hc) rest rfl
    | packet p rest =>
      rw [frames_packet (F.packet_append y hc), frames_packet hc]
      cases hf : F.final p with
      | true => rfl
      | false =>
        have hr := ih _ (hn ▸ F.packet_shorter hc) rest rfl
        simp only [Bool.false_eq_true, if_false, hr]
        generalize F.frames rest = first
        obtain ⟨ps, _ | r⟩ := first <;> rfl

/-- A clean buffer's packets are all handed over, and what is left goes on as the whole would. -/
theorem advance_clean (b : List α) (h : F.Clean kept b) : (F.advance kept b).1 = (F.frames b).1 ∧
    match (F.advance kept b).2 with
    | none => (F.frames b).2 = none
    | some r => ∀ y, F.frames (b ++ y) = ((F.advance kept b).1 ++ (F.frames (r ++ y)).1, (F.frames (r ++ y)).2) := by
  induction hn : b.length using Nat.strongRecOn generalizing b with
  | ind n ih =>
    cases hc : F.cut b with
    | wait =>
      rw [advance_wait hc, frames_wait hc]
      refine ⟨rfl, fun y => ?_⟩
      rw [frames_pending hc, (clean_wait hc).mp h, List.nil_append]
    | corrupt rest =>
      rw [advance_corrupt hc, frames_corrupt hc]
      refine ⟨((clean_corrupt hc).mp h).symm, fun y => ?_⟩
      rw [frames_corrupt (F.corrupt_append y hc), List.nil_append]
    | packet p rest =>
      rw [advance_packet hc, frames_packet hc]
      cases hf : F.final p with
      | true => exact ⟨rfl, rfl⟩
      | false =>
        have hclean : F.Clean kept rest := ((clean_packet hc).mp h).resolve_left (by simp [hf])
        obtain ⟨hp, hr⟩ := ih _ (hn ▸ F.packet_shorter hc) rest hclean rfl
        simp only [Bool.false_eq_true, if_false]
        refine ⟨by rw [hp], ?_⟩
        revert hr
        cases (F.advance kept rest).2 with
        | none => exact id
        | some r =>
          intro hr y
          rw [frames_packet (F.packet_append y hc), hf, hr y]
          rfl

/-- Past a buffer's own packets, or stopped at a corrupt one with the rest of it left. -/
theorem advance_split (F : Framer α) (kept : List α → List α) (b z : List α) : (F.frames b).1 <+: (F.advance kept (b ++ z)).1 ∨
    ∃ b', (F.advance kept (b ++ z)).2 = some (b' ++ z) ∧ b'.length < b.length ∧
      (F.frames b).1 = (F.advance kept (b ++ z)).1 ++ (F.frames b').1 := by
  induction hn : b.length using Nat.strongRecOn generalizing b with
  | ind n ih =>
    cases hc : F.cut b with
    | wait =>
      rw [frames_wait hc]
      exact Or.inl (List.nil_prefix)
    | corrupt rest =>
      rw [advance_corrupt (F.corrupt_append z hc), frames_corrupt hc]
      exact Or.inr ⟨rest, rfl, hn ▸ F.corrupt_shorter hc, rfl⟩
    | packet p rest =>
      rw [advance_packet (F.packet_append z hc), frames_packet hc]
      cases hf : F.final p with
      | true => exact Or.inl (List.prefix_refl _)
      | false =>
        have hlt : rest.length < n := hn ▸ F.packet_shorter hc
        simp only [Bool.false_eq_true, if_false]
        rcases ih _ hlt rest rfl with hp | ⟨b', hb, hl, hp⟩
        · exact Or.inl (List.prefix_cons_inj p |>.mpr hp)
        · exact Or.inr ⟨b', hb, Nat.lt_trans hl hlt, by rw [hp, List.cons_append]⟩

end Framer

/-- What was handed over, and the buffer; none once nothing more is read. -/
structure Received (α : Type) where
  handed : List (List α) := []
  buffer : Option (List α) := some []

section
variable {α : Type} (F : Framer α) (kept : List α → List α)

def Received.receive (s : Received α) (data : List α) : Received α :=
  match s.buffer with
  | none => s
  | some buffer =>
    let (packets, rest) := F.advance kept (buffer ++ data)
    ⟨s.handed ++ packets, rest⟩

def Received.run (s : Received α) (chunks : List (List α)) : Received α := chunks.foldl (Received.receive F kept) s

/-- Every chunk finds a clean buffer. -/
def CleanRun (s : Received α) (chunks : List (List α)) : Prop :=
  ConditionalRuns.Each (Received.receive F kept) (fun s data => ∀ buffer ∈ s.buffer, F.Clean kept (buffer ++ data)) s chunks

variable {F kept} {s : Received α} {stream : List α}

/-- The packets handed over so far are the stream's, and the buffer goes on as the stream would. -/
structure Faithful (F : Framer α) (s : Received α) (stream : List α) : Prop where
  handed : s.handed = (F.frames stream).1
  ended : s.buffer = none → (F.frames stream).2 = none
  goes : ∀ r ∈ s.buffer, ∀ y, F.frames (stream ++ y) = (s.handed ++ (F.frames (r ++ y)).1, (F.frames (r ++ y)).2)

private theorem faithful_receive (h : Faithful F s stream) (data : List α)
    (hc : ∀ buffer ∈ s.buffer, F.Clean kept (buffer ++ data)) :
    Faithful F (s.receive F kept data) (stream ++ data) := by
  obtain ⟨handed, buffer⟩ := s
  cases buffer with
  | none =>
    have hend := h.ended rfl
    have happ := Framer.frames_append (F := F) stream data
    rw [hend] at happ
    exact ⟨by rw [happ]; exact h.handed, fun _ => by rw [happ, hend], nofun⟩
  | some buffer =>
    obtain ⟨hp, hr⟩ := Framer.advance_clean (buffer ++ data) (hc buffer rfl)
    have hgo := h.goes buffer rfl data
    refine ⟨?_, ?_, ?_⟩
    · simp only [Received.receive, hgo, hp]
    · intro hnone
      have hnone : (F.advance kept (buffer ++ data)).2 = none := hnone
      rw [hnone] at hr
      rw [hgo]
      exact hr
    · intro r hmem y
      have hmem : (F.advance kept (buffer ++ data)).2 = some r := hmem
      rw [hmem] at hr
      have hy := h.goes buffer rfl (data ++ y)
      rw [← List.append_assoc, ← List.append_assoc, hr y] at hy
      rw [hy]
      simp only [Received.receive, List.append_assoc]

/-- Over clean steps the packets handed over are those of the stream, however it came in chunks. -/
theorem run_faithful (chunks : List (List α)) (h : Faithful F s stream) (hc : CleanRun F kept s chunks) :
    Faithful F (s.run F kept chunks) (stream ++ chunks.flatten) := by
  induction chunks generalizing s stream with
  | nil =>
    rw [List.flatten_nil, List.append_nil]
    exact h
  | cons data chunks ih =>
    rw [List.flatten_cons, ← List.append_assoc]
    exact ih (faithful_receive h data hc.1) hc.2

theorem faithful_start : Faithful F ({} : Received α) [] where
  handed := by rw [Framer.frames_nil]
  ended := nofun
  goes := by
    rintro r ⟨⟩ y
    rfl

theorem handed_run (F : Framer α) (kept : List α → List α) (chunks : List (List α)) (s : Received α) :
    s.handed <+: (s.run F kept chunks).handed := by
  induction chunks generalizing s with
  | nil => exact List.prefix_refl _
  | cons data chunks ih =>
    refine List.IsPrefix.trans ?_ (ih (s.receive F kept data))
    simp only [Received.receive]
    split
    · exact List.prefix_refl _
    · exact List.prefix_append _ _

/-- What a corrupt packet holds back is handed over as later chunks come. -/
theorem later_hands_over (later : List (List α)) {handed : List (List α)} {b z : List α}
    (hn : b.length ≤ later.length) :
    handed ++ (F.frames b).1 <+: ((⟨handed, some (b ++ z)⟩ : Received α).run F kept later).handed := by
  induction later generalizing handed b z with
  | nil =>
    obtain rfl : b = [] := List.eq_nil_of_length_eq_zero (Nat.le_zero.mp hn)
    rw [Framer.frames_nil, List.append_nil]
    exact List.prefix_refl _
  | cons data later ih =>
    have hstep : (⟨handed, some (b ++ z)⟩ : Received α).receive F kept data =
        ⟨handed ++ (F.advance kept (b ++ (z ++ data))).1, (F.advance kept (b ++ (z ++ data))).2⟩ := by
      simp only [Received.receive, List.append_assoc]
    show _ <+: (((⟨handed, some (b ++ z)⟩ : Received α).receive F kept data).run F kept later).handed
    rw [hstep]
    rcases F.advance_split kept b (z ++ data) with hp | ⟨b', hb, hl, hp⟩
    · have hrest := handed_run F kept later
        ⟨handed ++ (F.advance kept (b ++ (z ++ data))).1, (F.advance kept (b ++ (z ++ data))).2⟩
      exact ((List.prefix_append_right_inj handed).mpr hp).trans hrest
    · rw [hb, hp, ← List.append_assoc]
      exact ih (by rw [List.length_cons] at hn; omega)

/-- The packets of a stream are what the loop hands over of it in one chunk, once later chunks have come. -/
theorem whole_then_later (stream : List α) {later : List (List α)} (hn : stream.length ≤ later.length) :
    (F.frames stream).1 <+: (({} : Received α).run F kept (stream :: later)).handed := by
  have hrun : (({} : Received α).run F kept (stream :: later)) =
      (⟨(F.advance kept stream).1, (F.advance kept stream).2⟩ : Received α).run F kept later := rfl
  rw [hrun]
  have hsplit := F.advance_split kept stream []
  rw [List.append_nil] at hsplit
  rcases hsplit with hp | ⟨b', hb, hl, hp⟩
  · exact hp.trans (handed_run F kept later ⟨(F.advance kept stream).1, (F.advance kept stream).2⟩)
  · rw [hb, hp]
    exact later_hands_over later (by omega)

end
end Kanat.PacketStream
