import Kanat.DbWriterAccounting
import Kanat.ListUpdates
import Kanat.ParsedChannel
import Mathlib.Algebra.GroupWithZero.Nat
import Mathlib.Algebra.Order.Ring.Nat
import Mathlib.Algebra.Order.BigOperators.Group.List

/-! # What the gauge of the parsed channels counts

`Balanced` relates the gauge to what the channels hold, corrected by what each thread has yet to count; each step of a
handler or a writer keeps it, and where no thread is between two of its steps the corrections are gone. -/
namespace Kanat.ParsedChannel
open DbWriter ListUpdates

variable {Kind Item : Type} {timestamp : Item → ℤ} {o : Settings}

/-- The items in all the channels. -/
def total [Fintype Kind] (parsed : Kind → List Item) : ℕ := ∑ kind, (parsed kind).length

theorem total_update [Fintype Kind] [DecidableEq Kind] (parsed : Kind → List Item) (kind : Kind) (items : List Item) :
    total (Function.update parsed kind items) + (parsed kind).length = total parsed + items.length := by
  have hupdate : (fun k => (Function.update parsed kind items k).length) =
      Function.update (fun k => (parsed k).length) kind items.length := by
    funext k
    by_cases hk : k = kind
    · rw [hk, Function.update_self, Function.update_self]
    · rw [Function.update_of_ne hk, Function.update_of_ne hk]
  have hsplit := Finset.add_sum_erase Finset.univ (fun k => (parsed k).length) (Finset.mem_univ kind)
  rw [total, total, hupdate, Finset.sum_update_of_mem (Finset.mem_univ kind), ← hsplit, Finset.sdiff_singleton_eq_erase]
  omega

/-- Put into the channel and not counted yet. -/
def Forwarding.pending : Forwarding Item → ℕ
  | .written => 1
  | _ => 0

namespace Writer

/-- Taken from the channel and not counted yet. -/
def uncounted (w : Writer Kind Item) : ℕ :=
  match w.phase with
  | .reading startIndex _ | .counting startIndex => w.buffer.items.length - startIndex
  | .crashed => 1
  | .waiting | .counted | .exited => 0

/-- What is where in a writer's buffer: a chunk has room for all it may read. -/
def Sound (o : Settings) (w : Writer Kind Item) : Prop :=
  let bufferCount := w.buffer.items.length
  match w.phase with
  | .waiting => bufferCount = 0 ∨ bufferCount < o.batchSize
  | .reading startIndex .first => bufferCount = startIndex ∧ (startIndex = 0 ∨ startIndex < o.batchSize)
  | .reading startIndex (.chunk itemsToRead itemsRead) =>
    startIndex ≤ bufferCount ∧ itemsRead < itemsToRead ∧ bufferCount + (itemsToRead - itemsRead) ≤ o.batchSize ∧
      (startIndex = 0 ∨ startIndex < o.batchSize)
  | .counting startIndex => startIndex ≤ bufferCount ∧ (startIndex = 0 ∨ startIndex < o.batchSize)
  | .counted | .exited => True
  | .crashed => o.rented = 0

theorem nextChunk_spec {w : Writer Kind Item} {startIndex : ℕ} (hle : startIndex ≤ w.buffer.items.length)
    (hstart : startIndex = 0 ∨ startIndex < o.batchSize) :
    (w.nextChunk o startIndex).Sound o ∧
      (w.nextChunk o startIndex).uncounted = w.buffer.items.length - startIndex := by
  rw [nextChunk]
  split_ifs with hroom
  · exact ⟨⟨hle, by omega, by dsimp only; omega, hstart⟩, rfl⟩
  · exact ⟨⟨hle, hstart⟩, rfl⟩

variable (timestamp) in
theorem length_put (w : Writer Kind Item) (item : Item) :
    (w.put timestamp item).buffer.items.length = w.buffer.items.length + 1 := by
  simp [put]

variable (timestamp) in
/-- A `TryRead` takes the item it is answered with. -/
theorem tryRead_spec {w : Writer Kind Item} {startIndex : ℕ} {reading : Reading}
    (hphase : w.phase = .reading startIndex reading) (h : w.Sound o) (answer : Option Item) :
    (w.tryRead timestamp o startIndex reading answer).Sound o ∧
      (w.tryRead timestamp o startIndex reading answer).uncounted = w.uncounted + answer.toList.length := by
  have huncounted : w.uncounted = w.buffer.items.length - startIndex := by rw [uncounted, hphase]
  rw [Sound, hphase] at h
  rw [huncounted]
  cases reading with
  | first =>
    obtain ⟨hlength, hstart⟩ := h
    cases answer with
    | none => exact ⟨⟨hlength.ge, hstart⟩, rfl⟩
    | some item =>
      rw [tryRead]
      split_ifs with hfull
      · have hbatch := o.holdsBatch
        refine ⟨?_, ?_⟩
        · change o.rented = 0
          omega
        · change 1 = _
          simp only [Option.toList_some, List.length_singleton]
          omega
      · have hput := length_put timestamp w item
        have hle : startIndex ≤ (w.put timestamp item).buffer.items.length := by omega
        obtain ⟨hsound, hcount⟩ := nextChunk_spec (o := o) hle hstart
        refine ⟨hsound, hcount.trans ?_⟩
        rw [hput]
        simp only [Option.toList_some, List.length_singleton]
        omega
  | chunk itemsToRead itemsRead =>
    obtain ⟨hle, hread, hroom, hstart⟩ := h
    cases answer with
    | none =>
      rw [tryRead]
      split_ifs
      · exact ⟨⟨hle, hstart⟩, rfl⟩
      · obtain ⟨hsound, hcount⟩ := nextChunk_spec (o := o) hle hstart
        exact ⟨hsound, hcount⟩
    | some item =>
      have hlength := length_put timestamp w item
      have hle' : startIndex ≤ (w.put timestamp item).buffer.items.length := by omega
      have hone : (some item).toList.length = 1 := rfl
      rw [tryRead]
      split_ifs with hmore
      · refine ⟨⟨hle', hmore, ?_, hstart⟩, ?_⟩
        · dsimp only
          omega
        · change (w.put timestamp item).buffer.items.length - startIndex = _
          omega
      · obtain ⟨hsound, hcount⟩ := nextChunk_spec (o := o) hle' hstart
        refine ⟨hsound, hcount.trans ?_⟩
        omega

theorem sound_flush (w : Writer Kind Item) (throws : Bool) : (w.flush throws).Sound o := by
  cases throws with
  | true => exact trivial
  | false => exact Or.inl rfl

theorem uncounted_flush (w : Writer Kind Item) (throws : Bool) : (w.flush throws).uncounted = 0 := by
  cases throws <;> rfl

/-- A full buffer is flushed. -/
theorem length_lt_of_not_shouldFlush {b : Buffer Item} {now : ℤ} (h : ¬shouldFlush o b now = true) :
    b.items.length < o.batchSize := by
  rw [shouldFlush] at h
  split at h
  · split_ifs at h with hbetween
    · exact hbetween.1
    · simpa using h
  · simpa using h

end Writer

section
variable [Fintype Kind]

/-- The gauge, in any state of a run: short of what was counted twice, of what is written and not counted yet, and ahead
of what is read and not counted yet. -/
structure Balanced (o : Settings) (w : World Kind Item) (again : ℕ) : Prop where
  sound : ∀ writer ∈ w.writers, writer.Sound o
  balance : w.channelCount + again + ((w.handlers.map fun handler => handler.forwarding.pending).sum : ℕ) =
    total w.parsed + ((w.writers.map Writer.uncounted).sum : ℕ)
  taken : total w.parsed + w.read = w.written

variable {w w' : World Kind Item} {again more : ℕ} {i : ℕ}

theorem Balanced.handler (h : Balanced o w again) {handler : Handler Kind Item} {forwarding : Forwarding Item}
    (hi : w.handlers[i]? = some handler) (hhandlers : w'.handlers = w.handlers.set i { handler with forwarding })
    (hwriters : w'.writers = w.writers)
    (hcount : w'.channelCount + forwarding.pending + total w.parsed =
      w.channelCount + handler.forwarding.pending + total w'.parsed)
    (htaken : total w'.parsed + w'.read + w.written = total w.parsed + w.read + w'.written) :
    Balanced o w' again := by
  have hsum := sum_map_set (fun handler : Handler Kind Item => handler.forwarding.pending) hi { handler with forwarding }
  have hbalance := h.balance
  have hbefore := h.taken
  refine ⟨hwriters ▸ h.sound, ?_, by omega⟩
  rw [hwriters, hhandlers]
  dsimp only at hsum
  omega

theorem Balanced.writer (h : Balanced o w again) {writer writer' : Writer Kind Item}
    (hi : w.writers[i]? = some writer) (hwriters : w'.writers = w.writers.set i writer')
    (hhandlers : w'.handlers = w.handlers) (hsound : writer'.Sound o)
    (hcount : w'.channelCount + more + total w.parsed + writer.uncounted =
      w.channelCount + total w'.parsed + writer'.uncounted)
    (htaken : total w'.parsed + w'.read + w.written = total w.parsed + w.read + w'.written) :
    Balanced o w' (again + more) := by
  have hsum := sum_map_set Writer.uncounted hi writer'
  have hbalance := h.balance
  have hbefore := h.taken
  refine ⟨?_, ?_, by omega⟩
  · rw [hwriters]
    intro other hother
    rcases List.mem_or_eq_of_mem_set hother with hmem | rfl
    · exact h.sound other hmem
    · exact hsound
  · rw [hwriters, hhandlers]
    omega

/-- A handler that goes on without having written anything. -/
theorem Balanced.kept (h : Balanced o w again) {handler : Handler Kind Item} {forwarding : Forwarding Item}
    (hi : w.handlers[i]? = some handler) (hpending : handler.forwarding.pending = 0) (hnext : forwarding.pending = 0)
    (backpressure : ℕ) : Balanced o ({ w with backpressure }.setHandler i handler forwarding) again := by
  refine h.handler hi rfl rfl ?_ rfl
  rw [hpending, hnext]
  rfl

/-- A writer that goes on with its own buffer only. -/
theorem Balanced.moved (h : Balanced o w again) {writer writer' : Writer Kind Item} (hi : w.writers[i]? = some writer)
    (hsound : writer'.Sound o) (hcount : writer'.uncounted = writer.uncounted) :
    Balanced o (w.setWriter i writer') again := by
  rw [← Nat.add_zero again]
  refine h.writer hi rfl rfl hsound ?_ rfl
  change w.channelCount + (0 : ℕ) + total w.parsed + writer.uncounted = w.channelCount + total w.parsed + writer'.uncounted
  omega

variable [DecidableEq Kind]

private theorem total_enqueue (w : World Kind Item) (kind : Kind) (item : Item) :
    total (w.enqueue kind item).parsed = total w.parsed + 1 := by
  have hupdate := total_update w.parsed kind (w.parsed kind ++ [item])
  rw [List.length_append, List.length_singleton] at hupdate
  change total (Function.update w.parsed kind (w.parsed kind ++ [item])) = _
  omega

/-- An item put into a channel is pending until it is counted. -/
theorem Balanced.written (h : Balanced o w again) {handler : Handler Kind Item} (hi : w.handlers[i]? = some handler)
    (hpending : handler.forwarding.pending = 0) (parsed : Item) :
    Balanced o ((w.enqueue handler.kind parsed).setHandler i handler .written) again := by
  have htotal := total_enqueue w handler.kind parsed
  refine h.handler hi rfl rfl ?_ ?_
  · change w.channelCount + (1 : ℕ) + total w.parsed =
      w.channelCount + handler.forwarding.pending + total (w.enqueue handler.kind parsed).parsed
    omega
  · change total (w.enqueue handler.kind parsed).parsed + w.read + w.written =
      total w.parsed + w.read + (w.written + 1)
    omega

theorem Balanced.handlerStep (h : Balanced o w again) {handler : Handler Kind Item} {e : Event Kind Item}
    (hi : w.handlers[i]? = some handler) (hstep : w.handlerStep i handler e = some w') : Balanced o w' again := by
  cases e with
  | tryWrite j parsed =>
    rw [World.handlerStep] at hstep
    cases hforwarding : handler.forwarding with
    | idle =>
      have hpending : handler.forwarding.pending = 0 := by rw [hforwarding]; rfl
      simp only [hforwarding] at hstep
      split_ifs at hstep
      · cases hstep
        exact h.written hi hpending parsed
      · cases hstep
        exact h.kept hi hpending rfl _
    | waiting => simp [hforwarding] at hstep
    | written => simp [hforwarding] at hstep
  | write j =>
    rw [World.handlerStep] at hstep
    cases hforwarding : handler.forwarding with
    | waiting parsed =>
      have hpending : handler.forwarding.pending = 0 := by rw [hforwarding]; rfl
      simp only [hforwarding] at hstep
      split_ifs at hstep
      · cases hstep
        exact h.written hi hpending parsed
      · cases hstep
        exact h.kept hi hpending rfl w.backpressure
    | idle => simp [hforwarding] at hstep
    | written => simp [hforwarding] at hstep
  | cancelWrite j =>
    rw [World.handlerStep] at hstep
    cases hforwarding : handler.forwarding with
    | waiting parsed =>
      simp only [hforwarding, Option.some.injEq] at hstep
      rw [← hstep]
      exact h.kept hi (by rw [hforwarding]; rfl) rfl w.backpressure
    | idle => simp [hforwarding] at hstep
    | written => simp [hforwarding] at hstep
  | incrementChannelCount j =>
    rw [World.handlerStep] at hstep
    cases hforwarding : handler.forwarding with
    | written =>
      simp only [hforwarding, Option.some.injEq] at hstep
      rw [← hstep]
      refine h.handler hi rfl rfl ?_ rfl
      rw [hforwarding]
      change w.channelCount + 1 + (0 : ℕ) + total w.parsed = w.channelCount + (1 : ℕ) + total w.parsed
      omega
    | idle => simp [hforwarding] at hstep
    | waiting => simp [hforwarding] at hstep
  | complete => cases hstep
  | available => cases hstep
  | tryRead => cases hstep
  | addChannelCount => cases hstep
  | afterCount => cases hstep
  | tick => cases hstep
  | leave => cases hstep

theorem Balanced.tryRead (h : Balanced o w again) {writer : Writer Kind Item} {startIndex : ℕ} {reading : Reading}
    {item : Item} {items : List Item} (hi : w.writers[i]? = some writer) (hphase : writer.phase = .reading startIndex reading)
    (hparsed : w.parsed writer.kind = item :: items) :
    Balanced o ({ w with parsed := Function.update w.parsed writer.kind items, read := w.read + 1 }.setWriter i
      (writer.tryRead timestamp o startIndex reading (some item))) again := by
  have hsound := h.sound writer (List.mem_of_getElem? hi)
  obtain ⟨hnext, hcount⟩ := Writer.tryRead_spec timestamp hphase hsound (some item)
  have htotal := total_update w.parsed writer.kind items
  rw [hparsed, List.length_cons] at htotal
  have hone : (some item).toList.length = 1 := rfl
  rw [← Nat.add_zero again]
  refine h.writer hi rfl rfl hnext ?_ ?_
  · change w.channelCount + (0 : ℕ) + total w.parsed + writer.uncounted =
      w.channelCount + total (Function.update w.parsed writer.kind items) + _
    omega
  · change total (Function.update w.parsed writer.kind items) + (w.read + 1) + w.written = total w.parsed + w.read + w.written
    omega

theorem Balanced.writerStep (h : Balanced o w again) {writer : Writer Kind Item} {e : Event Kind Item}
    (hi : w.writers[i]? = some writer) (hworker : ∀ j, e = .addChannelCount j → j = i)
    (hstep : w.writerStep timestamp o i writer e = some w') :
    Balanced o w' (again + w.countedAgain e) := by
  have hsound := h.sound writer (List.mem_of_getElem? hi)
  cases e with
  | available j =>
    rw [World.writerStep] at hstep
    cases hphase : writer.phase with
    | waiting =>
      simp only [hphase] at hstep
      split_ifs at hstep
      cases hstep
      rw [Writer.Sound, hphase] at hsound
      refine h.moved hi ⟨rfl, hsound⟩ ?_
      rw [Writer.uncounted, Writer.uncounted, hphase]
      exact Nat.sub_self _
    | _ => simp [hphase] at hstep
  | tryRead j =>
    rw [World.writerStep] at hstep
    cases hphase : writer.phase with
    | reading startIndex reading =>
      simp only [hphase] at hstep
      cases hparsed : w.parsed writer.kind with
      | nil =>
        simp only [hparsed, Option.some.injEq] at hstep
        obtain ⟨hnext, hcount⟩ := Writer.tryRead_spec timestamp hphase hsound none
        exact hstep ▸ h.moved hi hnext hcount
      | cons item items =>
        simp only [hparsed, Option.some.injEq] at hstep
        exact hstep ▸ h.tryRead hi hphase hparsed
    | _ => simp [hphase] at hstep
  | addChannelCount j =>
    obtain rfl := hworker j rfl
    rw [World.writerStep] at hstep
    cases hphase : writer.phase with
    | counting startIndex =>
      simp only [hphase] at hstep
      rw [Writer.Sound, hphase] at hsound
      obtain ⟨hle, hstart⟩ := hsound
      have hagain : w.countedAgain (.addChannelCount j) = startIndex := by
        simp [World.countedAgain, hi, hphase]
      have huncounted : writer.uncounted = writer.buffer.items.length - startIndex := by rw [Writer.uncounted, hphase]
      rw [hagain]
      split_ifs at hstep with hempty
      · cases hstep
        have hnil : writer.buffer.items.length = 0 := by simpa using hempty
        have hzero : startIndex = 0 := by omega
        rw [hzero]
        refine h.moved hi (Or.inl hnil) ?_
        rw [huncounted, hnil, Nat.zero_sub]
        rfl
      · cases hstep
        refine h.writer hi rfl rfl trivial ?_ rfl
        change w.channelCount - (writer.buffer.items.length : ℕ) + startIndex + total w.parsed + writer.uncounted =
          w.channelCount + total w.parsed + (0 : ℕ)
        omega
    | _ => simp [hphase] at hstep
  | afterCount j now throws =>
    rw [World.writerStep] at hstep
    cases hphase : writer.phase with
    | counted =>
      simp only [hphase, Option.some.injEq] at hstep
      have huncounted : writer.uncounted = 0 := by rw [Writer.uncounted, hphase]
      rw [← hstep]
      split_ifs with hflush
      · exact h.moved hi (writer.sound_flush throws) ((writer.uncounted_flush throws).trans huncounted.symm)
      · exact h.moved hi (Or.inr (Writer.length_lt_of_not_shouldFlush hflush)) huncounted.symm
    | _ => simp [hphase] at hstep
  | tick j throws =>
    rw [World.writerStep] at hstep
    cases hphase : writer.phase with
    | waiting =>
      simp only [hphase, Option.some.injEq] at hstep
      have huncounted : writer.uncounted = 0 := by rw [Writer.uncounted, hphase]
      rw [← hstep]
      split_ifs
      · exact h.moved hi hsound rfl
      · exact h.moved hi (writer.sound_flush throws) ((writer.uncounted_flush throws).trans huncounted.symm)
    | _ => simp [hphase] at hstep
  | leave j =>
    rw [World.writerStep] at hstep
    cases hphase : writer.phase with
    | waiting =>
      simp only [hphase, Option.some.injEq] at hstep
      rw [← hstep]
      refine h.moved hi trivial ?_
      rw [Writer.uncounted, Writer.uncounted, hphase]
    | _ => simp [hphase] at hstep
  | complete => cases hstep
  | tryWrite => cases hstep
  | write => cases hstep
  | cancelWrite => cases hstep
  | incrementChannelCount => cases hstep

theorem Balanced.step (h : Balanced o w again) {e : Event Kind Item} (hstep : w.step timestamp o e = some w') :
    Balanced o w' (again + w.countedAgain e) := by
  cases e with
  | complete kind =>
    cases hstep
    exact ⟨h.sound, h.balance, h.taken⟩
  | tryWrite j parsed =>
    obtain ⟨handler, hi, hstep⟩ := Option.bind_eq_some_iff.mp hstep
    exact h.handlerStep hi hstep
  | write j =>
    obtain ⟨handler, hi, hstep⟩ := Option.bind_eq_some_iff.mp hstep
    exact h.handlerStep hi hstep
  | cancelWrite j =>
    obtain ⟨handler, hi, hstep⟩ := Option.bind_eq_some_iff.mp hstep
    exact h.handlerStep hi hstep
  | incrementChannelCount j =>
    obtain ⟨handler, hi, hstep⟩ := Option.bind_eq_some_iff.mp hstep
    exact h.handlerStep hi hstep
  | available j =>
    obtain ⟨writer, hi, hstep⟩ := Option.bind_eq_some_iff.mp hstep
    exact h.writerStep hi (fun k hk => by cases hk) hstep
  | tryRead j =>
    obtain ⟨writer, hi, hstep⟩ := Option.bind_eq_some_iff.mp hstep
    exact h.writerStep hi (fun k hk => by cases hk) hstep
  | addChannelCount j =>
    obtain ⟨writer, hi, hstep⟩ := Option.bind_eq_some_iff.mp hstep
    exact h.writerStep hi (fun k hk => by cases hk; rfl) hstep
  | afterCount j now throws =>
    obtain ⟨writer, hi, hstep⟩ := Option.bind_eq_some_iff.mp hstep
    exact h.writerStep hi (fun k hk => by cases hk) hstep
  | tick j throws =>
    obtain ⟨writer, hi, hstep⟩ := Option.bind_eq_some_iff.mp hstep
    exact h.writerStep hi (fun k hk => by cases hk) hstep
  | leave j =>
    obtain ⟨writer, hi, hstep⟩ := Option.bind_eq_some_iff.mp hstep
    exact h.writerStep hi (fun k hk => by cases hk) hstep

theorem Balanced.run {events : List (Event Kind Item)} (h : Balanced o w again)
    (hrun : w.run timestamp o events = some w') : Balanced o w' (again + w.recounts timestamp o events) := by
  induction events generalizing w again with
  | nil =>
    cases hrun
    exact h
  | cons e events ih =>
    obtain ⟨next, hstep, hrun⟩ := Option.bind_eq_some_iff.mp hrun
    have hrest := ih (h.step hstep) hrun
    rw [World.recounts, hstep, Option.map_some, Option.getD_some, ← Nat.add_assoc]
    exact hrest

omit [DecidableEq Kind] in
private theorem balanced_idle (o : Settings) (capacity : Kind → ℕ) (handlers writers : List Kind) :
    Balanced o (idle capacity handlers writers : World Kind Item) 0 := by
  refine ⟨fun writer hwriter => ?_, ?_, ?_⟩
  · obtain ⟨kind, -, rfl⟩ := List.mem_map.mp hwriter
    exact Or.inl rfl
  · have hpending : (handlers.map fun kind => (⟨kind, .idle⟩ : Handler Kind Item).forwarding.pending).sum = 0 :=
      List.sum_eq_zero fun n hn => by
        obtain ⟨kind, -, rfl⟩ := List.mem_map.mp hn
        rfl
    have huncounted : (writers.map fun kind => (⟨kind, {}, .waiting⟩ : Writer Kind Item).uncounted).sum = 0 :=
      List.sum_eq_zero fun n hn => by
        obtain ⟨kind, -, rfl⟩ := List.mem_map.mp hn
        rfl
    simp only [idle, List.map_map]
    change (0 : ℤ) + (0 : ℕ) + ((handlers.map fun kind => (⟨kind, .idle⟩ : Handler Kind Item).forwarding.pending).sum : ℕ) =
      (total fun _ : Kind => ([] : List Item)) +
        ((writers.map fun kind => (⟨kind, {}, .waiting⟩ : Writer Kind Item).uncounted).sum : ℕ)
    rw [hpending, huncounted]
    simp [total]
  · simp [idle, total]

omit [Fintype Kind] [DecidableEq Kind] in
/-- Between two counts, only a crashed writer has taken an item that is not counted. -/
theorem sum_uncounted {writers : List (Writer Kind Item)} (h : ∀ writer ∈ writers, ∀ startIndex,
    writer.phase ≠ .counting startIndex ∧ ∀ reading, writer.phase ≠ .reading startIndex reading) :
    (writers.map Writer.uncounted).sum = writers.countP fun writer => writer.phase = .crashed := by
  induction writers with
  | nil => rfl
  | cons writer writers ih =>
    obtain ⟨hwriter, hrest⟩ := List.forall_mem_cons.mp h
    have hone : writer.uncounted = if writer.phase = .crashed then 1 else 0 := by
      rw [Writer.uncounted]
      cases hphase : writer.phase with
      | reading startIndex reading => exact absurd hphase ((hwriter startIndex).2 reading)
      | counting startIndex => exact absurd hphase (hwriter startIndex).1
      | _ => rfl
    rw [List.map_cons, List.sum_cons, ih hrest, hone, List.countP_cons, Nat.add_comm]
    simp only [decide_eq_true_eq]

omit [DecidableEq Kind] in
/-- In a quiescent state the count is off by what was counted twice, and by what the crashed writers have taken. -/
theorem Balanced.quiescent (h : Balanced o w again) (hquiet : w.Quiescent) :
    w.channelCount + again = total w.parsed + w.crashed := by
  obtain ⟨hhandlers, hwriters⟩ := hquiet
  have hbalance := h.balance
  have hpending : (w.handlers.map fun handler => handler.forwarding.pending).sum = 0 :=
    List.sum_eq_zero fun n hn => by
      obtain ⟨handler, hhandler, rfl⟩ := List.mem_map.mp hn
      have hwritten := hhandlers handler hhandler
      cases hforwarding : handler.forwarding with
      | idle => rfl
      | waiting => rfl
      | written => exact absurd hforwarding hwritten
  have huncounted : (w.writers.map Writer.uncounted).sum = w.crashed := sum_uncounted hwriters
  omega

/-- What a gauge of 32 bits, with its floor at 0, shows of `n` items when it is `off` by so many. -/
theorem max_bmod_eq_iff (n : ℕ) (off : ℤ) :
    max 0 ((n - off).bmod (2 ^ 32)) = n ↔ n < 2 ^ 31 ∧ 2 ^ 32 ∣ off ∨ n = 0 ∧ off % 2 ^ 32 ≤ 2 ^ 31 := by
  rw [Int.bmod_def]
  split <;> omega

/-- At a quiescent point the gauge shows the items in the channels exactly where the items counted twice are as many as
the writers that crashed, to a multiple of 2 ^ 32, and the items are within its 32 bits, or there are none and the 32
bits of the count come to no more than 0. -/
theorem getChannelCount_iff (timestamp : Item → ℤ) (o : Settings) (capacity : Kind → ℕ) (handlers writers : List Kind)
    (events : List (Event Kind Item)) {w : World Kind Item}
    (hrun : (idle capacity handlers writers).run timestamp o events = some w) (hquiet : w.Quiescent) :
    w.read + total w.parsed = w.written ∧
      let off : ℤ := (idle capacity handlers writers).recounts timestamp o events - w.crashed
      (w.getChannelCount = total w.parsed ↔
        total w.parsed < 2 ^ 31 ∧ 2 ^ 32 ∣ off ∨ total w.parsed = 0 ∧ off % 2 ^ 32 ≤ 2 ^ 31) := by
  have hbalanced := (balanced_idle o capacity handlers writers).run hrun
  rw [Nat.zero_add] at hbalanced
  refine ⟨(Nat.add_comm _ _).trans hbalanced.taken, ?_⟩
  intro off
  have hcount : w.channelCount = total w.parsed - off := by
    have hquiescent := hbalanced.quiescent hquiet
    omega
  rw [World.getChannelCount, hcount]
  exact max_bmod_eq_iff _ _

end

/-- An item is read and buffered, then another, and a third is written. -/
def bufferedTwice : List (Event Unit ℕ) :=
  [.tryWrite 0 7, .incrementChannelCount 0, .available 0, .tryRead 0, .tryRead 0, .addChannelCount 0,
    .afterCount 0 1000 false, .tryWrite 0 8, .incrementChannelCount 0, .available 0, .tryRead 0, .tryRead 0,
    .addChannelCount 0, .afterCount 0 1001 false, .tryWrite 0 9, .incrementChannelCount 0]

/-- The handler and the writer after it. -/
def bufferedTwiceEnd : World Unit ℕ where
  parsed _ := [9]
  capacity _ := 1000000
  completed _ := false
  channelCount := 0
  backpressure := 0
  handlers := [⟨(), .idle⟩]
  writers := [⟨(), ⟨[7, 8], some 990⟩, .waiting⟩]
  written := 3
  read := 2

theorem run_bufferedTwice :
    (idle (fun _ => 1000000) [()] [()]).run (fun _ => 990) defaultSettings bufferedTwice = some bufferedTwiceEnd := by
  rfl

theorem quiescent_bufferedTwice : bufferedTwiceEnd.Quiescent := by
  constructor
  · intro handler hhandler
    cases List.mem_singleton.mp hhandler
    exact fun h => by cases h
  · intro writer hwriter startIndex
    cases List.mem_singleton.mp hwriter
    exact ⟨fun h => (by cases h), fun reading h => (by cases h)⟩

theorem gauge_bufferedTwice :
    (idle (fun _ => 1000000) [()] [()]).run (fun _ => 990) defaultSettings bufferedTwice = some bufferedTwiceEnd ∧
      bufferedTwiceEnd.Quiescent ∧ bufferedTwiceEnd.getChannelCount = 0 ∧ total bufferedTwiceEnd.parsed = 1 :=
  ⟨run_bufferedTwice, quiescent_bufferedTwice, rfl, rfl⟩

theorem getChannelCount_iff_bufferedTwice :
    2 + total bufferedTwiceEnd.parsed = 3 ∧
      (bufferedTwiceEnd.getChannelCount = total bufferedTwiceEnd.parsed ↔
        total bufferedTwiceEnd.parsed < 2 ^ 31 ∧ (2 : ℤ) ^ 32 ∣ 1 - bufferedTwiceEnd.crashed ∨
          total bufferedTwiceEnd.parsed = 0 ∧ (1 - bufferedTwiceEnd.crashed : ℤ) % 2 ^ 32 ≤ 2 ^ 31) :=
  getChannelCount_iff (fun _ => 990) defaultSettings (fun _ => 1000000) [()] [()] bufferedTwice run_bufferedTwice
    quiescent_bufferedTwice

end Kanat.ParsedChannel
