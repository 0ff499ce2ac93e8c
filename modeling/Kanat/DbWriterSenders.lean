import Kanat.DbWriterAccounting

/-! # The senders of a writer worker

A flush writes to the sender the worker has, and may make another. How each turn, the loop and the final flush can go
is said in turn; from that, when a sender is written to after it was disposed of. -/
namespace Kanat.DbWriter

variable {Item : Type} {timestamp : Item → ℤ} {o : Settings} {r : Record Item} {w : Worker Item}
  {batch : List Item} {writes final : Writes}

/-- No sender is written to once it has been disposed of. -/
def NoneWrittenDisposed (calls : List SenderCall) : Prop :=
  calls.Pairwise fun a b => ∀ sender, a = .disposed sender → b ≠ .wrote sender

def AllDisposed (calls : List SenderCall) : Prop :=
  ∀ sender, .created sender ∈ calls → .disposed sender ∈ calls

/-- The write ended in an ingress error and a new sender was made. -/
def Writes.replaces (writes : Writes) : Bool :=
  writes.first = some .ingress && writes.recreate.isNone

/-- The write ended in an ingress error, and no new sender could be made, which leads to the final flush. -/
def Writes.endsDisposed (writes : Writes) : Bool :=
  writes.first = some .ingress && writes.recreate.any Exn.ends

section
variable (timestamp : Item → ℤ) (o : Settings)

/-- How the flush of a turn goes, if the turn flushes anything. -/
def flushes (b : Buffer Item) : Round Item → Option Writes
  | .available reads now writes =>
      match readFromChannel timestamp o b reads with
      | (_, .error _) => none
      | (_, .ok b) => if b.items.isEmpty || !shouldFlush o b now then none else some writes
  | .ticked writes => if b.items.isEmpty then none else some writes
  | _ => none

/-- The loop's flushes each keep its sender. -/
def EachKeeps (w : Worker Item) : List (Round Item) → Prop
  | [] => True
  | turn :: rounds =>
      (∀ writes ∈ flushes timestamp o w.buffer turn, writes.replaces = false ∧ writes.endsDisposed = false) ∧
        match round timestamp o 0 w turn with
        | (none, w) => EachKeeps w rounds
        | (some _, _) => True

/-- The final flush, where there is one, makes no sender. -/
def FinalKeeps (final : Writes) (w : Worker Item) (left : Leaving) : Prop :=
  ∀ e, left = some (.error e) → e.ends = true → w.buffer.items ≠ [] → final.replaces = false

/-- Each flush of the worker keeps its sender. -/
def KeepsSender (s : Schedule Item) : Prop :=
  s.newSender = none →
    let w : Worker Item := { record := ({} : Record Item).newSender.2 }
    EachKeeps timestamp o w s.rounds ∧
      FinalKeeps s.final (loop timestamp o 0 w s.rounds).2 (loop timestamp o 0 w s.rounds).1

end

/-- What a flush calls of its sender, and of the one it makes. -/
def flushCalls (sender fresh : ℕ) (writes : Writes) : List SenderCall :=
  if writes.first = some .ingress then
    [.wrote sender, .disposed sender] ++ if writes.recreate.isSome then [] else [.created fresh, .wrote fresh]
  else [.wrote sender]

theorem flushInternal_calls (r : Record Item) (sender : ℕ) (writes : Writes) (hbatch : batch ≠ []) :
    (flushInternal r sender batch writes).2.senderCalls = r.senderCalls ++ flushCalls sender r.senders writes ∧
      (flushInternal r sender batch writes).2.senders = r.senders + writes.replaces.toNat := by
  rw [flushInternal, if_neg (by simpa using hbatch)]
  obtain ⟨first, recreate, second⟩ := writes
  cases first with
  | none => simp [flushCalls, Writes.replaces, Record.writeBatch, Record.recordFlushSuccess]
  | some e =>
    cases e with
    | ingress =>
      cases recreate with
      | some e => simp [flushCalls, Writes.replaces, Record.writeBatch, Record.dispose]
      | none =>
        cases second <;>
          simp [flushCalls, Writes.replaces, Record.writeBatch, Record.dispose, Record.newSender,
            Record.recordFlushSuccess, Record.recordFlushFailure]
    | canceled => simp [flushCalls, Writes.replaces, Record.writeBatch, Record.recordFlushFailure]
    | channelClosed => simp [flushCalls, Writes.replaces, Record.writeBatch, Record.recordFlushFailure]
    | other => simp [flushCalls, Writes.replaces, Record.writeBatch, Record.recordFlushFailure]

variable (timestamp o) in
/-- A turn that flushes hands a buffer with something in it to the worker's own sender. -/
theorem round_flushes (w : Worker Item) (turn : Round Item) :
    (flushes timestamp o w.buffer turn = none ∧
        (round timestamp o 0 w turn).2.record.senderCalls = w.record.senderCalls ∧
        (round timestamp o 0 w turn).2.record.senders = w.record.senders) ∨
      ∃ writes b r, flushes timestamp o w.buffer turn = some writes ∧ b.items ≠ [] ∧
        r.senderCalls = w.record.senderCalls ∧ r.senders = w.record.senders ∧
        round timestamp o 0 w turn = flushBatch 0 ⟨b, r⟩ writes := by
  cases turn with
  | available reads now writes =>
    rw [flushes, round]
    generalize readFromChannel timestamp o w.buffer reads = out
    obtain ⟨taken, result⟩ := out
    cases result with
    | error e => exact Or.inl ⟨rfl, rfl, rfl⟩
    | ok b =>
      dsimp only
      cases hempty : b.items.isEmpty with
      | true => exact Or.inl ⟨rfl, rfl, rfl⟩
      | false =>
        cases hflush : shouldFlush o b now with
        | false => exact Or.inl ⟨rfl, rfl, rfl⟩
        | true =>
          exact Or.inr ⟨writes, b, { w.record with
            read := w.record.read ++ taken
            channelCount := w.record.channelCount - b.items.length }, rfl, by simpa using hempty, rfl, rfl, rfl⟩
  | ticked writes =>
    rw [flushes, round]
    cases hempty : w.buffer.items.isEmpty with
    | true => exact Or.inl ⟨rfl, rfl, rfl⟩
    | false => exact Or.inr ⟨writes, w.buffer, w.record, rfl, by simpa using hempty, rfl, rfl, rfl⟩
  | canceled => exact Or.inl ⟨rfl, rfl, rfl⟩
  | waitFaulted => exact Or.inl ⟨rfl, rfl, rfl⟩
  | completed => exact Or.inl ⟨rfl, rfl, rfl⟩
  | tickFaulted e => exact Or.inl ⟨rfl, rfl, rfl⟩
  | tickStopped => exact Or.inl ⟨rfl, rfl, rfl⟩

/-- A flush that throws leaves its batch in the buffer. -/
theorem flushBatch_cases {b : Buffer Item} (hb : b.items ≠ []) (r : Record Item) (writes : Writes) :
    (flushBatch 0 ⟨b, r⟩ writes).2.record = (flushInternal r 0 b.items writes).2 ∧
      ((flushBatch 0 ⟨b, r⟩ writes).1 = none ∨
        ∃ e, (flushBatch 0 ⟨b, r⟩ writes).1 = some (.error e) ∧ (flushBatch 0 ⟨b, r⟩ writes).2.buffer = b ∧
          writes.first = some .ingress ∧ (writes.recreate = some e ∨ writes.recreate = none)) := by
  have hresult := flushInternal_result r 0 writes hb
  rw [flushBatch]
  generalize flushInternal r 0 b.items writes = out at hresult
  obtain ⟨result, r'⟩ := out
  cases result with
  | ok => exact ⟨rfl, Or.inl rfl⟩
  | error e =>
    refine ⟨rfl, Or.inr ⟨e, rfl, rfl, ?_⟩⟩
    split_ifs at hresult with hfirst
    refine ⟨hfirst, ?_⟩
    cases hrecreate : writes.recreate with
    | none => exact Or.inr rfl
    | some e' =>
      rw [hrecreate] at hresult
      cases hresult
      exact Or.inl rfl

/-- What is called of senders is added to, and only the first sender is ever disposed of. -/
structure Extends (before after : Record Item) : Prop where
  calls : before.senderCalls <+: after.senderCalls
  disposed : ∀ sender, .disposed sender ∈ after.senderCalls → .disposed sender ∈ before.senderCalls ∨ sender = 0

theorem Extends.of_eq {before after : Record Item} (h : after.senderCalls = before.senderCalls) :
    Extends before after :=
  ⟨h ▸ List.prefix_rfl, fun _ hmem => Or.inl (h ▸ hmem)⟩

theorem Extends.trans {a b c : Record Item} (hab : Extends a b) (hbc : Extends b c) : Extends a c :=
  ⟨hab.calls.trans hbc.calls, fun sender hmem => (hbc.disposed sender hmem).elim (hab.disposed sender) Or.inr⟩

theorem extends_flushInternal (r : Record Item) (batch : List Item) (writes : Writes) :
    Extends r (flushInternal r 0 batch writes).2 := by
  by_cases hbatch : batch = []
  · rw [flushInternal, hbatch]
    exact .of_eq rfl
  · have hcalls := (flushInternal_calls r 0 writes hbatch).1
    refine ⟨hcalls ▸ List.prefix_append _ _, fun sender hmem => ?_⟩
    rw [hcalls, List.mem_append] at hmem
    refine hmem.imp_right fun hmem => ?_
    rw [flushCalls] at hmem
    split_ifs at hmem <;> simp at hmem <;> exact hmem

private theorem extends_round (w : Worker Item) (turn : Round Item) :
    Extends w.record (round timestamp o 0 w turn).2.record := by
  obtain ⟨-, hcalls, -⟩ | ⟨writes, b, r, -, hb, hcalls, -, hround⟩ := round_flushes timestamp o w turn
  · exact .of_eq hcalls
  · rw [hround, (flushBatch_cases hb r writes).1]
    exact (Extends.of_eq hcalls).trans (extends_flushInternal r b.items writes)

private theorem extends_loop (w : Worker Item) (rounds : List (Round Item)) :
    Extends w.record (loop timestamp o 0 w rounds).2.record := by
  induction rounds generalizing w with
  | nil => exact .of_eq rfl
  | cons turn rounds ih =>
    have hturn : Extends w.record (round timestamp o 0 w turn).2.record := extends_round w turn
    rw [loop]
    generalize round timestamp o 0 w turn = out at hturn
    obtain ⟨left, w'⟩ := out
    cases left with
    | none => exact hturn.trans (ih w')
    | some left => exact hturn

theorem extends_afterLoop (final : Writes) (left : Leaving) (w : Worker Item) :
    Extends w.record (afterLoop 0 final left w).2 := by
  cases left with
  | none => exact .of_eq rfl
  | some result =>
    cases result with
    | ok => exact .of_eq rfl
    | error e =>
      rw [afterLoop]
      split_ifs
      · exact extends_flushInternal w.record w.buffer.items final
      · exact .of_eq rfl

variable (timestamp o) in
theorem extends_run (final : Writes) (w : Worker Item) (rounds : List (Round Item)) :
    Extends w.record
      (afterLoop 0 final (loop timestamp o 0 w rounds).1 (loop timestamp o 0 w rounds).2).2 :=
  (extends_loop w rounds).trans (extends_afterLoop final _ _)

/-- Only the first sender so far, made and written to. -/
def Held (calls : List SenderCall) : Prop :=
  .created 0 ∈ calls ∧ ∀ call ∈ calls, call = .created 0 ∨ call = .wrote 0

structure Clean (r : Record Item) : Prop where
  senders : r.senders = 1
  held : Held r.senderCalls

theorem Held.wrote {calls : List SenderCall} (h : Held calls) : Held (calls ++ [.wrote 0]) := by
  refine ⟨List.mem_append_left _ h.1, fun call hcall => ?_⟩
  rcases List.mem_append.mp hcall with hcall | hcall
  · exact h.2 call hcall
  · exact Or.inr (List.mem_singleton.mp hcall)

variable (timestamp o) in
/-- One turn of a worker that has its first sender only. -/
theorem round_cases (h : Clean w.record) (turn : Round Item) :
    (flushes timestamp o w.buffer turn = none ∧ Clean (round timestamp o 0 w turn).2.record) ∨
      ∃ writes, flushes timestamp o w.buffer turn = some writes ∧
        (writes.first ≠ some .ingress ∧ (round timestamp o 0 w turn).1 = none ∧
            Clean (round timestamp o 0 w turn).2.record ∨
          writes.replaces = true ∧ .created 1 ∈ (round timestamp o 0 w turn).2.record.senderCalls ∨
          ∃ e, writes.first = some .ingress ∧ writes.recreate = some e ∧
            (round timestamp o 0 w turn).1 = some (.error e) ∧
            (round timestamp o 0 w turn).2.buffer.items ≠ [] ∧
            ∃ calls, Held calls ∧
              (round timestamp o 0 w turn).2.record.senderCalls = calls ++ [.disposed 0]) := by
  obtain ⟨hnone, hcalls, hsenders⟩ | ⟨writes, b, r, hflush, hb, hcalls, hsenders, hround⟩ :=
    round_flushes timestamp o w turn
  · exact Or.inl ⟨hnone, hsenders.trans h.senders, hcalls ▸ h.held⟩
  · refine Or.inr ⟨writes, hflush, ?_⟩
    obtain ⟨hrecord, hleft⟩ := flushBatch_cases hb r writes
    obtain ⟨hbatch, hcount⟩ := flushInternal_calls r 0 writes hb
    rw [hcalls, hsenders, h.senders] at hbatch
    rw [hsenders, h.senders] at hcount
    rw [hround, hrecord, hbatch]
    by_cases hingress : writes.first = some .ingress
    · right
      cases hrecreate : writes.recreate with
      | none => exact Or.inl ⟨by simp [Writes.replaces, hingress, hrecreate], by simp [flushCalls, hingress, hrecreate]⟩
      | some e =>
        refine Or.inr ⟨e, hingress, rfl, ?_⟩
        have hcalls' : flushCalls 0 1 writes = [.wrote 0] ++ [.disposed 0] := by
          simp [flushCalls, hingress, hrecreate]
        have hthrows : (flushBatch 0 ⟨b, r⟩ writes).1 = some (.error e) := by
          have hresult := flushInternal_result r 0 writes hb
          rw [if_pos hingress, hrecreate] at hresult
          rw [flushBatch]
          generalize flushInternal r 0 b.items writes = out at hresult
          obtain ⟨result, r'⟩ := out
          cases hresult
          rfl
        refine ⟨hthrows, ?_, _, h.held.wrote, by rw [hcalls', List.append_assoc]⟩
        obtain hnone | ⟨e', -, hbuffer, -⟩ := hleft
        · rw [hthrows] at hnone
          cases hnone
        · rwa [hbuffer]
    · have hcalls' : flushCalls 0 1 writes = [.wrote 0] := by simp [flushCalls, hingress]
      refine Or.inl ⟨hingress, ?_, ?_, ?_⟩
      · obtain hnone | ⟨e', -, -, hfirst, -⟩ := hleft
        · exact hnone
        · exact absurd hfirst hingress
      · rw [hcount]
        simp [Writes.replaces, hingress]
      · rw [hbatch, hcalls']
        exact h.held.wrote

theorem noneWritten_append {calls rest : List SenderCall} (h : Held calls) (hrest : ∀ call ∈ rest, call = .disposed 0) :
    NoneWrittenDisposed (calls ++ rest) := by
  refine List.pairwise_append.mpr ⟨?_, ?_, ?_⟩
  · refine List.pairwise_of_forall_mem_list fun a ha b _ sender hdisposed => ?_
    rcases h.2 a ha with rfl | rfl <;> cases hdisposed
  · refine List.pairwise_of_forall_mem_list fun a _ b hb sender _ => ?_
    rw [hrest b hb]
    exact fun hwrote => by cases hwrote
  · intro a ha b _ sender hdisposed
    rcases h.2 a ha with rfl | rfl <;> cases hdisposed

theorem allDisposed_append {calls rest : List SenderCall} (h : Held calls) (hrest : ∀ call ∈ rest, call = .disposed 0) :
    AllDisposed (calls ++ rest ++ [.disposed 0]) := by
  intro sender hcreated
  have hzero : sender = 0 := by
    rcases List.mem_append.mp hcreated with hcreated | hlast
    · rcases List.mem_append.mp hcreated with hcalls | hrest'
      · rcases h.2 _ hcalls with heq | heq
        · cases heq
          rfl
        · cases heq
      · cases hrest _ hrest'
    · cases List.mem_singleton.mp hlast
  rw [hzero]
  exact List.mem_append_right _ (List.mem_singleton.mpr rfl)

/-- The loop of a worker whose flushes each keep its sender. -/
theorem loop_held {rounds : List (Round Item)} (h : Clean w.record) (hkeeps : EachKeeps timestamp o w rounds) :
    Clean (loop timestamp o 0 w rounds).2.record ∨
      ∃ e, (loop timestamp o 0 w rounds).1 = some (.error e) ∧ e.ends = false ∧
        ∃ calls, Held calls ∧ (loop timestamp o 0 w rounds).2.record.senderCalls = calls ++ [.disposed 0] := by
  induction rounds generalizing w with
  | nil => exact Or.inl h
  | cons turn rounds ih =>
    obtain ⟨hflush, hrest⟩ := hkeeps
    have hcases := round_cases timestamp o h turn
    rw [loop]
    generalize round timestamp o 0 w turn = out at hcases hrest
    obtain ⟨left, w'⟩ := out
    obtain ⟨-, hclean⟩ | ⟨writes, hwrites, hsent⟩ := hcases
    · cases left with
      | none => exact ih hclean hrest
      | some left => exact Or.inl hclean
    · obtain ⟨hreplaces, hends⟩ := hflush writes hwrites
      obtain ⟨-, hleft, hclean⟩ | ⟨hnew, -⟩ | ⟨e, hfirst, hrecreate, hleft, -, hcalls⟩ := hsent
      · cases hleft
        exact ih hclean hrest
      · rw [hreplaces] at hnew
        cases hnew
      · cases hleft
        refine Or.inr ⟨e, rfl, ?_, hcalls⟩
        simpa [Writes.endsDisposed, hfirst, hrecreate] using hends

private theorem new_of_replaces (h : r.senders = 1) (hbatch : batch ≠ []) (hreplaces : writes.replaces = true) :
    .created 1 ∈ (flushInternal r 0 batch writes).2.senderCalls := by
  obtain ⟨hfirst, hrecreate⟩ := Bool.and_eq_true_iff.mp hreplaces
  rw [(flushInternal_calls r 0 writes hbatch).1, h]
  simp_all [flushCalls]

/-- The final flush writes to the sender that the flush before it has disposed of. -/
theorem written_of_final {calls : List SenderCall} {e : Exn} (hends : e.ends = true) (hbuffer : w.buffer.items ≠ [])
    (hcalls : w.record.senderCalls = calls ++ [.disposed 0]) :
    ¬NoneWrittenDisposed (afterLoop 0 final (some (.error e)) w).2.senderCalls := by
  intro hnone
  have hflush := (flushInternal_calls w.record 0 final hbuffer).1
  rw [afterLoop, if_pos hends] at hnone
  change NoneWrittenDisposed (flushInternal w.record 0 w.buffer.items final).2.senderCalls at hnone
  rw [hflush, hcalls] at hnone
  have hpair := (List.pairwise_append.mp hnone).2.2
  refine hpair (.disposed 0) (by simp) (.wrote 0) ?_ 0 rfl rfl
  rw [flushCalls]
  split_ifs <;> simp

/-- A worker that has written to no sender disposed of, and made no second one, kept its sender through every flush. -/
theorem keeps_of_held {rounds : List (Round Item)} (h : Clean w.record)
    (hwritten : NoneWrittenDisposed (afterLoop 0 final (loop timestamp o 0 w rounds).1
      (loop timestamp o 0 w rounds).2).2.senderCalls)
    (hnew : .created 1 ∉ (afterLoop 0 final (loop timestamp o 0 w rounds).1
      (loop timestamp o 0 w rounds).2).2.senderCalls) :
    EachKeeps timestamp o w rounds ∧
      FinalKeeps final (loop timestamp o 0 w rounds).2 (loop timestamp o 0 w rounds).1 := by
  induction rounds generalizing w with
  | nil => exact ⟨trivial, fun e hleft => by cases hleft⟩
  | cons turn rounds ih =>
    have hcases := round_cases timestamp o h turn
    rw [EachKeeps]
    rw [loop] at hwritten hnew ⊢
    generalize round timestamp o 0 w turn = out at hcases hwritten hnew ⊢
    obtain ⟨left, w'⟩ := out
    obtain ⟨hnone, hclean⟩ | ⟨writes, hwrites, hsent⟩ := hcases
    · rw [hnone]
      cases left with
      | none =>
        obtain ⟨heach, hfinal⟩ := ih hclean hwritten hnew
        exact ⟨⟨fun _ hmem => (by cases hmem), heach⟩, hfinal⟩
      | some left =>
        refine ⟨⟨fun _ hmem => (by cases hmem), trivial⟩, fun e hleft hends hbuffer => ?_⟩
        cases hleft
        rw [Bool.eq_false_iff]
        intro hreplaces
        rw [afterLoop, if_pos hends] at hnew
        exact hnew (new_of_replaces hclean.senders hbuffer hreplaces)
    · rw [hwrites]
      obtain ⟨hfirst, hleft, hclean⟩ | ⟨-, hcreated⟩ | ⟨e, hfirst, hrecreate, hleft, hbuffer, calls, -, hcalls⟩ := hsent
      · cases hleft
        obtain ⟨heach, hfinal⟩ := ih hclean hwritten hnew
        refine ⟨⟨?_, heach⟩, hfinal⟩
        rintro _ ⟨⟩
        exact ⟨by simp [Writes.replaces, hfirst], by simp [Writes.endsDisposed, hfirst]⟩
      · refine absurd ?_ hnew
        cases left with
        | none => exact (extends_run timestamp o final w' rounds).calls.subset hcreated
        | some left => exact (extends_afterLoop final (some left) w').calls.subset hcreated
      · cases hleft
        have hends : e.ends = false := by
          rw [Bool.eq_false_iff]
          exact fun hends => written_of_final hends hbuffer hcalls hwritten
        refine ⟨⟨?_, trivial⟩, fun e' hleft hends' _ => ?_⟩
        · rintro _ ⟨⟩
          exact ⟨by simp [Writes.replaces, hrecreate], by simp [Writes.endsDisposed, hrecreate, hends]⟩
        · cases hleft
          rw [hends] at hends'
          cases hends'

/-- The final flush of a worker whose flushes each keep its sender. -/
theorem afterLoop_held {left : Leaving}
    (h : Clean w.record ∨ ∃ e, left = some (.error e) ∧ e.ends = false ∧
      ∃ calls, Held calls ∧ w.record.senderCalls = calls ++ [.disposed 0])
    (hfinal : FinalKeeps final w left) :
    ∃ calls rest, Held calls ∧ (∀ call ∈ rest, call = .disposed 0) ∧
      (afterLoop 0 final left w).2.senderCalls = calls ++ rest := by
  obtain hclean | ⟨e, rfl, hends, calls, hheld, hcalls⟩ := h
  · have hsame : ∃ calls rest, Held calls ∧ (∀ call ∈ rest, call = SenderCall.disposed 0) ∧
        w.record.senderCalls = calls ++ rest :=
      ⟨_, [], hclean.held, by simp, (List.append_nil _).symm⟩
    cases left with
    | none => exact hsame
    | some result =>
      cases result with
      | ok => exact hsame
      | error e =>
        rw [afterLoop]
        split_ifs with hends
        · change ∃ calls rest, _ ∧ _ ∧ (flushInternal w.record 0 w.buffer.items final).2.senderCalls = _
          by_cases hbuffer : w.buffer.items = []
          · rw [flushInternal, hbuffer]
            exact hsame
          · have hkeeps := hfinal e rfl hends hbuffer
            have hflush := (flushInternal_calls w.record 0 final hbuffer).1
            rw [hflush]
            by_cases hfirst : final.first = some .ingress
            · have hrecreate : final.recreate.isSome = true := by
                simpa [Writes.replaces, hfirst, Option.isSome_iff_ne_none] using hkeeps
              refine ⟨_, [.disposed 0], hclean.held.wrote, by simp, ?_⟩
              simp [flushCalls, hfirst, hrecreate]
            · exact ⟨_, [], hclean.held.wrote, by simp, by simp [flushCalls, hfirst]⟩
        · exact hsame
  · rw [afterLoop, if_neg (by simp [hends])]
    exact ⟨calls, [.disposed 0], hheld, by simp, hcalls⟩

theorem clean_opened : Clean ({} : Record Item).newSender.2 :=
  ⟨rfl, List.mem_singleton.mpr rfl, fun _ hcall => Or.inl (List.mem_singleton.mp hcall)⟩

/-- What a worker has called of senders where its flushes each keep its own. -/
theorem held_of_keeps {s : Schedule Item} (hsender : s.newSender = none) (h : KeepsSender timestamp o s) :
    let w : Worker Item := { record := ({} : Record Item).newSender.2 }
    ∃ calls rest, Held calls ∧ (∀ call ∈ rest, call = .disposed 0) ∧
      (afterLoop 0 s.final (loop timestamp o 0 w s.rounds).1 (loop timestamp o 0 w s.rounds).2).2.senderCalls =
        calls ++ rest := by
  obtain ⟨heach, hfinal⟩ := h hsender
  exact afterLoop_held (loop_held clean_opened heach) hfinal

private theorem disposing_calls (out : Leaving × Record Item) :
    (disposing 0 out).1 = out.1 ∧
      (disposing 0 out).2.senderCalls = out.2.senderCalls ++ if out.1.isSome then [.disposed 0] else [] := by
  obtain ⟨left, r⟩ := out
  cases left with
  | none => exact ⟨rfl, (List.append_nil _).symm⟩
  | some result => exact ⟨rfl, rfl⟩

/-- A worker's flushes each keep its sender exactly where none is written to once disposed of, and all are disposed of
by the time the worker has exited. -/
theorem senders_iff (timestamp : Item → ℤ) (o : Settings) (s : Schedule Item) :
    let left := (workerLoop timestamp o s).1
    let calls := (workerLoop timestamp o s).2.senderCalls
    (left.isSome → (NoneWrittenDisposed calls ∧ AllDisposed calls ↔ KeepsSender timestamp o s)) ∧
      (KeepsSender timestamp o s → NoneWrittenDisposed calls) := by
  intro left calls
  cases hsender : s.newSender with
  | some e =>
    have hcalls : calls = [] := by simp only [calls, workerLoop, hsender]
    have hkeeps : KeepsSender timestamp o s := fun hnone => absurd (hsender.symm.trans hnone) (Option.some_ne_none e)
    rw [hcalls]
    refine ⟨fun _ => iff_of_true ⟨List.Pairwise.nil, fun sender hmem => ?_⟩ hkeeps, fun _ => List.Pairwise.nil⟩
    cases hmem
  | none =>
    have hopened : Clean (⟨{}, ({} : Record Item).newSender.2⟩ : Worker Item).record := clean_opened
    obtain ⟨hleft, hcalls⟩ := disposing_calls (afterLoop 0 s.final
      (loop timestamp o 0 { record := ({} : Record Item).newSender.2 } s.rounds).1
      (loop timestamp o 0 { record := ({} : Record Item).newSender.2 } s.rounds).2)
    simp only [left, calls, workerLoop_eq hsender, hleft, hcalls]
    have hnone (hkeeps : KeepsSender timestamp o s) (exited : Bool) : NoneWrittenDisposed
        ((afterLoop 0 s.final (loop timestamp o 0 { record := ({} : Record Item).newSender.2 } s.rounds).1
          (loop timestamp o 0 { record := ({} : Record Item).newSender.2 } s.rounds).2).2.senderCalls ++
          if exited then [.disposed 0] else []) := by
      obtain ⟨calls, rest, hheld, hrest, hsame⟩ := held_of_keeps hsender hkeeps
      rw [hsame, List.append_assoc]
      refine noneWritten_append hheld fun call hcall => ?_
      rcases List.mem_append.mp hcall with hcall | hlast
      · exact hrest call hcall
      · cases exited
        · cases hlast
        · exact List.mem_singleton.mp hlast
    refine ⟨fun hexited => ⟨?_, fun hkeeps => ⟨hnone hkeeps _, ?_⟩⟩, fun hkeeps => hnone hkeeps _⟩
    · rw [if_pos hexited]
      rintro ⟨hwritten, hall⟩ -
      refine keeps_of_held hopened (hwritten.sublist (List.sublist_append_left _ _)) fun hcreated => ?_
      have hextends := extends_run timestamp o s.final { record := ({} : Record Item).newSender.2 } s.rounds
      rcases List.mem_append.mp (hall 1 (List.mem_append_left _ hcreated)) with hdisposed | hlast
      · rcases hextends.disposed 1 hdisposed with hopened | hzero
        · cases List.mem_singleton.mp hopened
        · cases hzero
      · cases List.mem_singleton.mp hlast
    · rw [if_pos hexited]
      obtain ⟨calls, rest, hheld, hrest, hsame⟩ := held_of_keeps hsender hkeeps
      rw [hsame]
      exact allDisposed_append hheld hrest

/-- The write of the first packet fails, a new sender writes it, and the timer ticks again on the next packet. -/
def replacedOnce : Schedule ℕ where
  newSender := none
  rounds := [.available [some 7] 1000 ⟨none, none, none⟩, .ticked ⟨some .ingress, none, none⟩,
    .available [some 8] 1000 ⟨none, none, none⟩, .ticked ⟨some .other, none, none⟩, .completed]
  final := ⟨none, none, none⟩

theorem senders_replacedOnce :
    ¬(NoneWrittenDisposed (workerLoop (fun _ => 990) defaultSettings replacedOnce).2.senderCalls ∧
      AllDisposed (workerLoop (fun _ => 990) defaultSettings replacedOnce).2.senderCalls) := by
  have hcalls : (workerLoop (fun _ => 990) defaultSettings replacedOnce).2.senderCalls =
      [.created 0, .wrote 0, .disposed 0, .created 1, .wrote 1, .wrote 0, .disposed 0] := by decide +kernel
  rw [hcalls]
  rintro ⟨hwritten, -⟩
  have hpair := (List.pairwise_cons.mp (List.pairwise_cons.mp (List.pairwise_cons.mp hwritten).2).2).1
  exact hpair (.wrote 0) (by simp) 0 rfl rfl

end Kanat.DbWriter
