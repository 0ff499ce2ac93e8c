import Kanat.DbWriter
import Mathlib.Data.List.Perm.Basic

/-! # What a writer worker has accounted for when it has exited

One flush accounts for its batch once. What a turn of the loop leaves unsettled is said relative to what was unsettled
before it, carried through the loop and the final flush, and read off where the worker has exited. -/
namespace Kanat.DbWriter

variable {Item : Type} {timestamp : Item → ℤ} {o : Settings} {sender : ℕ} {r : Record Item}
  {w : Worker Item} {b : Buffer Item} {batch rest : List Item} {writes final : Writes}

private theorem drain_zero (reads : List (Option Item)) : drain 0 reads = [] := by
  rw [drain, dif_pos rfl]

private theorem length_drain (room : ℕ) (reads : List (Option Item)) :
    (drain room reads).length ≤ room := by
  induction room, reads using drain.induct with
  | case1 reads => simp [drain_zero]
  | case2 room reads hroom rest heq => rw [drain, dif_neg hroom, heq]; exact Nat.zero_le _
  | case3 room reads hroom item items rest heq ih =>
    have hchunk : (item :: items).length ≤ min 8 room := by
      have := length_readChunk (min 8 room) reads
      rwa [heq] at this
    rw [drain, dif_neg hroom, heq]
    simp only [List.length_append, List.length_cons] at hchunk ⊢
    omega

/-- The buffer never outgrows the rented array. -/
theorem fits_readFromChannel {reads : List (Option Item)} {taken : List Item} {b' : Buffer Item}
    (h : b.items.length ≤ o.rented) (hread : readFromChannel timestamp o b reads = (taken, .ok b')) :
    b'.items.length ≤ o.rented := by
  match reads with
  | [] => cases hread; exact h
  | none :: reads => cases hread; exact h
  | some firstItem :: reads =>
    rw [readFromChannel] at hread
    split at hread
    case isTrue => cases hread
    case isFalse hroom =>
      cases hread
      have := length_drain (o.batchSize - (b.items.length + 1)) reads
      have := o.holdsBatch
      simp only [List.length_append, List.length_cons]
      omega

theorem items_readFromChannel {reads : List (Option Item)} {taken : List Item} {b' : Buffer Item}
    (hread : readFromChannel timestamp o b reads = (taken, .ok b')) :
    b'.items = b.items ++ taken := by
  match reads with
  | [] => cases hread; simp
  | none :: reads => cases hread; simp
  | some firstItem :: reads =>
    rw [readFromChannel] at hread
    split at hread
    · cases hread
    · cases hread
      rfl

private theorem readFromChannel_error {reads : List (Option Item)} {taken : List Item} {e : Exn}
    (hread : readFromChannel timestamp o b reads = (taken, .error e)) :
    e = .other ∧ taken ≠ [] := by
  match reads with
  | [] => cases hread
  | none :: reads => cases hread
  | some firstItem :: reads =>
    rw [readFromChannel] at hread
    split at hread
    · cases hread
      exact ⟨rfl, List.cons_ne_nil _ _⟩
    · cases hread

/-- Every item read is in a batch that was written or counted as failed, and once. -/
def Settled (r : Record Item) : Prop :=
  (r.flushed ++ r.failed).Perm r.read

/-- Every item read but `rest` is settled. -/
def SettledBut (rest : List Item) (r : Record Item) : Prop :=
  (r.flushed ++ r.failed ++ rest).Perm r.read

theorem settled_iff_of_settledBut (h : SettledBut rest r) : Settled r ↔ rest = [] := by
  constructor
  · intro hs
    have hlength := h.length_eq.trans hs.length_eq.symm
    rw [List.length_append, Nat.add_eq_left] at hlength
    exact List.eq_nil_of_length_eq_zero hlength
  · rintro rfl
    rwa [SettledBut, List.append_nil] at h

/-- A batch accounted for once more than it should be. -/
theorem not_settled_of_twice (h : (r.flushed ++ r.failed).Perm (r.read ++ batch))
    (hbatch : batch ≠ []) : ¬Settled r := by
  intro hs
  have hlength := h.length_eq.symm.trans hs.length_eq
  rw [List.length_append, Nat.add_eq_left] at hlength
  exact hbatch (List.eq_nil_of_length_eq_zero hlength)

/-- The write ended in an ingress error and no new sender could be made. -/
def Writes.uncounted (writes : Writes) : Bool :=
  writes.first = some .ingress && writes.recreate.isSome

def Writes.throws (writes : Writes) : Bool :=
  writes.first = some .ingress && (writes.recreate.isSome || writes.second.isSome)

/-- One flush accounts for its batch once, unless it leaves it uncounted. -/
theorem flushInternal_account (r : Record Item) (sender : ℕ) (batch : List Item) (writes : Writes) :
    (flushInternal r sender batch writes).2.read = r.read ∧
      ((flushInternal r sender batch writes).2.flushed ++
        (flushInternal r sender batch writes).2.failed).Perm
        (r.flushed ++ r.failed ++ if writes.uncounted then [] else batch) := by
  have hcomm : (r.flushed ++ batch ++ r.failed).Perm (r.flushed ++ r.failed ++ batch) := by
    rw [List.append_assoc, List.append_assoc]
    exact List.perm_append_comm.append_left _
  rw [flushInternal]
  split
  case isTrue hempty =>
    rw [List.isEmpty_iff.mp hempty]
    simp
  case isFalse =>
    match h : writes with
    | ⟨none, recreate, second⟩ => exact ⟨rfl, hcomm⟩
    | ⟨some .ingress, some e, second⟩ => exact ⟨rfl, by simp [Writes.uncounted, Record.writeBatch, Record.dispose]⟩
    | ⟨some .ingress, none, none⟩ => exact ⟨rfl, hcomm⟩
    | ⟨some .ingress, none, some e⟩ =>
      exact ⟨rfl, by simp [Writes.uncounted, Record.writeBatch, Record.dispose, Record.newSender,
        Record.recordFlushFailure]⟩
    | ⟨some .canceled, recreate, second⟩ =>
      exact ⟨rfl, by simp [Writes.uncounted, Record.writeBatch, Record.recordFlushFailure]⟩
    | ⟨some .channelClosed, recreate, second⟩ =>
      exact ⟨rfl, by simp [Writes.uncounted, Record.writeBatch, Record.recordFlushFailure]⟩
    | ⟨some .other, recreate, second⟩ =>
      exact ⟨rfl, by simp [Writes.uncounted, Record.writeBatch, Record.recordFlushFailure]⟩

theorem flushInternal_result (r : Record Item) (sender : ℕ) (writes : Writes) (hbatch : batch ≠ []) :
    (flushInternal r sender batch writes).1 =
      if writes.first = some .ingress then
        match writes.recreate, writes.second with
        | some e, _ => .error e
        | none, some e => .error e
        | none, none => .ok ()
      else .ok () := by
  rw [flushInternal, if_neg (by simpa using hbatch)]
  match writes with
  | ⟨none, recreate, second⟩ => rfl
  | ⟨some .ingress, some e, second⟩ => rfl
  | ⟨some .ingress, none, none⟩ => rfl
  | ⟨some .ingress, none, some e⟩ => rfl
  | ⟨some .canceled, recreate, second⟩ => rfl
  | ⟨some .channelClosed, recreate, second⟩ => rfl
  | ⟨some .other, recreate, second⟩ => rfl

/-- The flush of all that is left unsettled. -/
theorem settledBut_flushInternal (sender : ℕ) (writes : Writes) (h : SettledBut batch r) :
    SettledBut (if writes.uncounted then batch else [])
      (flushInternal r sender batch writes).2 := by
  obtain ⟨hread, hperm⟩ := flushInternal_account r sender batch writes
  rw [SettledBut, hread]
  refine (hperm.append_right _).trans ?_
  split
  · simpa [SettledBut] using h
  · simpa [SettledBut] using h

/-- The flush of a batch that is settled already. -/
theorem settled_flushInternal_again (h : SettledBut [] r) (hbatch : batch ≠ []) :
    Settled (flushInternal r sender batch writes).2 ↔ writes.uncounted := by
  obtain ⟨hread, hperm⟩ := flushInternal_account r sender batch writes
  rw [SettledBut, List.append_nil] at h
  split at hperm
  case isTrue huncounted =>
    rw [List.append_nil] at hperm
    exact iff_of_true (by rw [Settled, hread]; exact hperm.trans h) huncounted
  case isFalse huncounted =>
    refine iff_of_false (not_settled_of_twice ?_ hbatch) huncounted
    rw [hread]
    exact hperm.trans (h.append_right _)

/-- The buffer after a turn that does not leave the loop. -/
def goesOn (timestamp : Item → ℤ) (o : Settings) (b : Buffer Item) :
    Round Item → Option (Buffer Item)
  | .available reads now writes =>
      match readFromChannel timestamp o b reads with
      | (_, .error _) => none
      | (_, .ok b) =>
          if b.items.isEmpty || !shouldFlush o b now then some b
          else if writes.throws then none else some {}
  | .ticked writes =>
      if b.items.isEmpty then some b else if writes.throws then none else some {}
  | _ => none

/-- The turn that leaves the loop, and the buffer it finds. -/
def lastTurn (timestamp : Item → ℤ) (o : Settings) (b : Buffer Item) :
    List (Round Item) → Option (Buffer Item × Round Item)
  | [] => none
  | r :: rounds =>
      match goesOn timestamp o b r with
      | some b => lastTurn timestamp o b rounds
      | none => some (b, r)

/-- A flush that throws settles its batch: without a new sender only the final flush still can, and
once the batch is counted the final flush must not count it again. -/
def FlushSettles (writes final : Writes) : Prop :=
  match writes.recreate with
  | some e => e.ends ∧ ¬final.uncounted
  | none => ∀ e ∈ writes.second, e.ends → final.uncounted

def TurnSettles (timestamp : Item → ℤ) (o : Settings) (final : Writes) (b : Buffer Item) :
    Round Item → Prop
  | .canceled | .waitFaulted | .completed | .tickStopped => b.items = []
  | .tickFaulted e => b.items = [] ∨ e.ends ∧ ¬final.uncounted
  | .available reads _ writes =>
      match readFromChannel timestamp o b reads with
      | (_, .error _) => False
      | (_, .ok _) => FlushSettles writes final
  | .ticked writes => FlushSettles writes final

private theorem uncounted_of_not_throws (h : writes.throws = false) : writes.uncounted = false := by
  rw [Writes.throws] at h
  rw [Writes.uncounted]
  cases hfirst : decide (writes.first = some .ingress) with
  | false => rfl
  | true =>
    rw [hfirst, Bool.true_and, Bool.or_eq_false_iff] at h
    rw [Bool.true_and, h.1]

theorem flushBatch_goesOn (sender : ℕ) (h : SettledBut w.buffer.items w.record)
    (hbuffer : w.buffer.items ≠ []) (hthrows : writes.throws = false) :
    ∃ r, flushBatch sender w writes = (none, { buffer := {}, record := r }) ∧ SettledBut [] r := by
  have hsettled := settledBut_flushInternal sender writes h
  have hresult := flushInternal_result w.record sender writes hbuffer
  rw [if_neg (by rw [uncounted_of_not_throws hthrows]; exact Bool.false_ne_true)] at hsettled
  have hok : (flushInternal w.record sender w.buffer.items writes).1 = .ok () := by
    rw [hresult]
    match writes with
    | ⟨some .ingress, some e, second⟩ => cases hthrows
    | ⟨some .ingress, none, some e⟩ => cases hthrows
    | ⟨some .ingress, none, none⟩ => rfl
    | ⟨none, _, _⟩ => rfl
    | ⟨some .canceled, _, _⟩ => rfl
    | ⟨some .channelClosed, _, _⟩ => rfl
    | ⟨some .other, _, _⟩ => rfl
  refine ⟨_, ?_, hsettled⟩
  rw [flushBatch]
  generalize flushInternal w.record sender w.buffer.items writes = out at hok
  obtain ⟨result, r⟩ := out
  cases hok
  rfl

theorem settled_afterLoop_error {e : Exn} (h : SettledBut w.buffer.items w.record) :
    Settled (afterLoop sender final (some (.error e)) w).2 ↔
      w.buffer.items = [] ∨ e.ends ∧ ¬final.uncounted := by
  rw [afterLoop]
  split
  case isTrue hends =>
    have hsettled := settledBut_flushInternal sender final h
    refine (settled_iff_of_settledBut hsettled).trans ?_
    by_cases huncounted : final.uncounted
    · simp [huncounted]
    · simp [huncounted, hends]
  case isFalse hends => simp [settled_iff_of_settledBut h, hends]

/-- A flush that throws leaves the worker its whole buffer. -/
theorem flushBatch_leaves (sender : ℕ) (final : Writes) (h : SettledBut w.buffer.items w.record) (hbuffer : w.buffer.items ≠ [])
    (hthrows : writes.throws) :
    ∃ e w', flushBatch sender w writes = (some (.error e), w') ∧
      (Settled (afterLoop sender final (some (.error e)) w').2 ↔ FlushSettles writes final) := by
  have hsettled := settledBut_flushInternal sender writes h
  have hresult := flushInternal_result w.record sender writes hbuffer
  generalize hout : flushInternal w.record sender w.buffer.items writes = out at hsettled hresult
  obtain ⟨result, r⟩ := out
  match writes with
  | ⟨some .ingress, some e, second⟩ =>
    cases hresult
    refine ⟨e, { w with record := r }, by rw [flushBatch, hout], ?_⟩
    refine (settled_afterLoop_error (w := { w with record := r }) hsettled).trans ?_
    exact or_iff_right hbuffer
  | ⟨some .ingress, none, some e⟩ =>
    cases hresult
    refine ⟨e, { w with record := r }, by rw [flushBatch, hout], ?_⟩
    have hdone : Settled r := (settled_iff_of_settledBut hsettled).mpr rfl
    rw [afterLoop]
    split
    case isTrue hends =>
      refine (settled_flushInternal_again hsettled hbuffer).trans ?_
      simp [FlushSettles, hends]
    case isFalse hends =>
      exact iff_of_true hdone fun e' he' hends' => absurd (by cases he'; exact hends') hends
  | ⟨some .ingress, none, none⟩ => cases hthrows
  | ⟨none, _, _⟩ => cases hthrows
  | ⟨some .canceled, _, _⟩ => cases hthrows
  | ⟨some .channelClosed, _, _⟩ => cases hthrows
  | ⟨some .other, _, _⟩ => cases hthrows

/-- What was read is unsettled as long as it is in the buffer. -/
theorem settledBut_read (taken : List Item) (h : SettledBut b.items r) :
    SettledBut (b.items ++ taken) { r with read := r.read ++ taken } := by
  rw [SettledBut, ← List.append_assoc]
  exact h.append_right _

private theorem round_goesOn (sender : ℕ) {turn : Round Item} (h : SettledBut w.buffer.items w.record)
    (hon : goesOn timestamp o w.buffer turn = some b) :
    ∃ w', round timestamp o sender w turn = (none, w') ∧ w'.buffer = b ∧
      SettledBut w'.buffer.items w'.record := by
  cases turn with
  | available reads now writes =>
    rw [goesOn] at hon
    rw [round]
    generalize hread : readFromChannel timestamp o w.buffer reads = out at hon
    obtain ⟨taken, result⟩ := out
    cases result with
    | error e => cases hon
    | ok b' =>
      have hsettled := settledBut_read taken h
      rw [← items_readFromChannel hread] at hsettled
      dsimp only at hon ⊢
      cases hempty : b'.items.isEmpty with
      | true =>
        rw [hempty] at hon
        cases hon
        exact ⟨_, rfl, rfl, hsettled⟩
      | false =>
        have hbuffer : b'.items ≠ [] := by simpa using hempty
        rw [hempty, Bool.false_or] at hon
        cases hflush : shouldFlush o b' now with
        | false =>
          rw [hflush] at hon
          cases hon
          exact ⟨_, rfl, rfl, hsettled⟩
        | true =>
          rw [hflush] at hon
          cases hthrows : writes.throws with
          | true =>
            rw [hthrows] at hon
            cases hon
          | false =>
            rw [hthrows] at hon
            cases hon
            obtain ⟨r, hbatch, hr⟩ := flushBatch_goesOn sender
              (w := ⟨b', { w.record with
                read := w.record.read ++ taken
                channelCount := w.record.channelCount - b'.items.length }⟩) hsettled hbuffer hthrows
            exact ⟨_, hbatch, rfl, hr⟩
  | ticked writes =>
    rw [goesOn] at hon
    rw [round]
    split at hon
    case isTrue hempty =>
      cases hon
      exact ⟨w, if_pos hempty, rfl, h⟩
    case isFalse hempty =>
      cases hthrows : writes.throws with
      | true =>
        rw [hthrows] at hon
        cases hon
      | false =>
        rw [hthrows] at hon
        cases hon
        obtain ⟨r, hbatch, hr⟩ := flushBatch_goesOn sender h
          (by simpa using hempty) hthrows
        exact ⟨_, by rw [if_neg hempty, hbatch], rfl, hr⟩
  | canceled => cases hon
  | waitFaulted => cases hon
  | completed => cases hon
  | tickFaulted e => cases hon
  | tickStopped => cases hon

private theorem round_leaves (sender : ℕ) (final : Writes) {turn : Round Item} (h : SettledBut w.buffer.items w.record)
    (hon : goesOn timestamp o w.buffer turn = none) :
    ∃ left w', round timestamp o sender w turn = (some left, w') ∧
      (Settled (afterLoop sender final (some left) w').2 ↔
        TurnSettles timestamp o final w.buffer turn) := by
  cases turn with
  | available reads now writes =>
    rw [goesOn] at hon
    rw [round, TurnSettles]
    generalize hread : readFromChannel timestamp o w.buffer reads = out at hon
    obtain ⟨taken, result⟩ := out
    cases result with
    | error e =>
      have hsettled := settledBut_read taken h
      obtain ⟨rfl, htaken⟩ := readFromChannel_error hread
      refine ⟨_, _, rfl, iff_of_false (fun hs => ?_) not_false⟩
      exact htaken (List.append_eq_nil_iff.mp ((settled_iff_of_settledBut hsettled).mp hs)).2
    | ok b' =>
      have hsettled := settledBut_read taken h
      rw [← items_readFromChannel hread] at hsettled
      dsimp only at hon ⊢
      cases hempty : b'.items.isEmpty with
      | true =>
        rw [hempty] at hon
        cases hon
      | false =>
        have hbuffer : b'.items ≠ [] := by simpa using hempty
        rw [hempty, Bool.false_or] at hon
        cases hflush : shouldFlush o b' now with
        | false =>
          rw [hflush] at hon
          cases hon
        | true =>
          rw [hflush] at hon
          cases hthrows : writes.throws with
          | true =>
            obtain ⟨e, w', hbatch, hiff⟩ := flushBatch_leaves sender final
              (w := ⟨b', { w.record with
                read := w.record.read ++ taken
                channelCount := w.record.channelCount - b'.items.length }⟩) hsettled hbuffer hthrows
            exact ⟨_, w', hbatch, hiff⟩
          | false =>
            rw [hthrows] at hon
            cases hon
  | ticked writes =>
    rw [goesOn] at hon
    rw [round]
    split at hon
    case isTrue hempty => cases hon
    case isFalse hempty =>
      cases hthrows : writes.throws with
      | true =>
        obtain ⟨e, w', hbatch, hiff⟩ := flushBatch_leaves sender final
          h (by simpa using hempty) hthrows
        exact ⟨_, w', by rw [if_neg hempty, hbatch], hiff⟩
      | false =>
        rw [hthrows] at hon
        cases hon
  | canceled => exact ⟨_, w, rfl, settled_iff_of_settledBut h⟩
  | waitFaulted => exact ⟨_, w, rfl, settled_iff_of_settledBut h⟩
  | completed => exact ⟨_, w, rfl, settled_iff_of_settledBut h⟩
  | tickFaulted e => exact ⟨_, w, rfl, settled_afterLoop_error h⟩
  | tickStopped => exact ⟨_, w, rfl, settled_iff_of_settledBut h⟩

private theorem loop_settles (final : Writes) {rounds : List (Round Item)} {left : Leaving} {w' : Worker Item}
    (h : SettledBut w.buffer.items w.record)
    (hloop : loop timestamp o sender w rounds = (left, w')) (hleft : left.isSome) :
    Settled (afterLoop sender final left w').2 ↔
      ∀ last ∈ lastTurn timestamp o w.buffer rounds,
        TurnSettles timestamp o final last.1 last.2 := by
  induction rounds generalizing w with
  | nil =>
    cases hloop
    cases hleft
  | cons turn rounds ih =>
    rw [loop] at hloop
    rw [lastTurn]
    cases hon : goesOn timestamp o w.buffer turn with
    | some b =>
      obtain ⟨w₁, hround, rfl, h₁⟩ := round_goesOn sender h hon
      rw [hround] at hloop
      exact ih h₁ hloop
    | none =>
      obtain ⟨left', w₁, hround, hsettled⟩ := round_leaves sender final h hon
      rw [hround] at hloop
      cases hloop
      refine hsettled.trans ⟨?_, ?_⟩
      · rintro hturn last ⟨⟩
        exact hturn
      · exact fun hlast => hlast _ rfl

/-- The last turn of the worker settles what it has read. -/
def EndsSettled (timestamp : Item → ℤ) (o : Settings) (s : Schedule Item) : Prop :=
  s.newSender = none → ∀ last ∈ lastTurn timestamp o {} s.rounds,
    TurnSettles timestamp o s.final last.1 last.2

theorem workerLoop_eq {s : Schedule Item} (hsender : s.newSender = none) :
    workerLoop timestamp o s = disposing 0 (afterLoop 0 s.final
      (loop timestamp o 0 { record := ({} : Record Item).newSender.2 } s.rounds).1
      (loop timestamp o 0 { record := ({} : Record Item).newSender.2 } s.rounds).2) := by
  rw [workerLoop, hsender]
  rfl

/-- How a worker that has exited got there. -/
theorem workerLoop_exited {s : Schedule Item} {result : Except Exn Unit}
    (h : workerLoop timestamp o s = (some result, r)) :
    (∃ e, s.newSender = some e ∧ r = {}) ∨
      s.newSender = none ∧ ∃ left w r',
        loop timestamp o 0 { record := ({} : Record Item).newSender.2 } s.rounds = (some left, w) ∧
          afterLoop 0 s.final (some left) w = (some result, r') ∧ r = r'.dispose 0 := by
  cases hsender : s.newSender with
  | some e =>
    rw [workerLoop, hsender] at h
    cases h
    exact Or.inl ⟨e, rfl, rfl⟩
  | none =>
    refine Or.inr ⟨rfl, ?_⟩
    rw [workerLoop_eq hsender] at h
    generalize loop timestamp o 0 { record := ({} : Record Item).newSender.2 } s.rounds = out at h ⊢
    obtain ⟨left, w⟩ := out
    cases left with
    | none => cases h
    | some left =>
      generalize hafter : afterLoop 0 s.final (some left) w = out at h
      obtain ⟨result', r'⟩ := out
      cases result' with
      | none => cases h
      | some result' =>
        cases h
        exact ⟨left, w, r', rfl, hafter, rfl⟩

theorem exited_settled_iff (timestamp : Item → ℤ) (o : Settings) (s : Schedule Item)
    {result : Except Exn Unit} {r : Record Item}
    (h : workerLoop timestamp o s = (some result, r)) :
    Settled r ↔ EndsSettled timestamp o s := by
  obtain ⟨e, hsender, rfl⟩ | ⟨hsender, left, w, r', hloop, hafter, rfl⟩ := workerLoop_exited h
  · exact iff_of_true (List.Perm.refl _) fun hnone => absurd (hsender.symm.trans hnone) (Option.some_ne_none e)
  · have hsettled := loop_settles s.final (w := ⟨{}, ({} : Record Item).newSender.2⟩) (List.Perm.refl []) hloop rfl
    rw [hafter] at hsettled
    exact hsettled.trans ⟨fun hlast _ => hlast, fun hends => hends hsender⟩

/-- One item is read, and then the channel is completed. -/
def completedWhileBuffered : Schedule ℕ where
  newSender := none
  rounds := [.available [some 7] 1000 ⟨none, none, none⟩, .completed]
  final := ⟨none, none, none⟩

/-- The defaults. -/
def defaultSettings : Settings where
  batchSize := 1000
  rented := 1024
  batchTimeout := 30
  holdsBatch := by decide

private theorem workerLoop_completedWhileBuffered :
    workerLoop (fun _ => 990) defaultSettings completedWhileBuffered =
      (some (.ok ()),
        { read := [7]
          channelCount := -1
          senders := 1
          senderCalls := [.created 0, .disposed 0] }) := by
  decide +kernel

theorem completed_loses_buffer :
    ¬Settled (workerLoop (fun _ => 990) defaultSettings completedWhileBuffered).2 := by
  intro h
  rw [workerLoop_completedWhileBuffered] at h
  have hlength := h.length_eq
  cases hlength

/-- An item is read, the timer ticks, the write fails, and so does the one through a new sender. -/
def failedTwice : Schedule ℕ where
  newSender := none
  rounds := [.available [some 7, some 8] 1000 ⟨none, none, none⟩,
    .ticked ⟨some .ingress, none, some .ingress⟩]
  final := ⟨none, none, none⟩

def countedOnce : Record ℕ where
  read := [7, 8]
  failed := [7, 8]
  channelCount := -2
  senders := 2
  writes := [(0, [7, 8]), (1, [7, 8])]
  senderCalls := [.created 0, .wrote 0, .disposed 0, .created 1, .wrote 1, .disposed 0]

theorem exited_settled_iff_failedTwice :
    workerLoop (fun _ => 990) defaultSettings failedTwice = (some (.error .ingress), countedOnce) ∧
      (Settled countedOnce ↔ EndsSettled (fun _ => 990) defaultSettings failedTwice) := by
  have hrun : workerLoop (fun _ => 990) defaultSettings failedTwice =
      (some (.error .ingress), countedOnce) := by decide +kernel
  exact ⟨hrun, exited_settled_iff (fun _ => 990) defaultSettings failedTwice hrun⟩

end Kanat.DbWriter
