import Kanat.ListUpdates
import Kanat.TelemetryPushes
import Mathlib.Algebra.Order.BigOperators.Group.List

/-! # What the windows are told one push after another

Two invariants over the steps of the broadcaster: when a push was begun, and between which counts each number pushed
lies. The second rests on what one call adds. -/
namespace Kanat.Telemetry
open ListUpdates

/-- A call that takes no counter back. -/
def Call.raises : Call → Bool
  | .increment _ count => 0 ≤ count
  | .updateLatency _ | .updateChannelStats _ _ => true
  | .reset | .setTestData => false

def Op.raises : Op → Bool
  | .add _ count => 0 ≤ count
  | .exchange _ _ => false
  | _ => true

private theorem raises_of_mem {c : Call} (h : c.raises) : ∀ op ∈ c.ops, op.raises := by
  cases c with
  | increment c count =>
    refine List.forall_mem_cons.mpr ⟨h, ?_⟩
    decide
  | updateLatency latency => exact List.forall_mem_cons.mpr ⟨rfl, by decide⟩
  | updateChannelStats name stats => exact List.forall_mem_cons.mpr ⟨rfl, by decide⟩
  | reset => cases h
  | setTestData => cases h

/-- What a step adds to a counter. -/
def Op.adds (c : Counter) : Op → ℤ
  | .add c' count => if c' = c then count else 0
  | _ => 0

def Thread.adds (c : Counter) (t : Thread) : ℤ := (t.left.map (Op.adds c)).sum

/-- What is asked to be added to a counter. -/
def Act.adds (c : Counter) : Act → ℤ
  | .call (.increment c' count) => if c' = c then count else 0
  | _ => 0

theorem adds_nonneg {op : Op} (h : op.raises) (c : Counter) : 0 ≤ op.adds c := by
  cases op with
  | add c' count =>
    have hcount : 0 ≤ count := of_decide_eq_true h
    rw [Op.adds]
    split_ifs
    · exact hcount
    · exact le_rfl
  | _ => exact le_rfl

theorem thread_adds_nonneg {t : Thread} (h : ∀ op ∈ t.left, op.raises) (c : Counter) : 0 ≤ t.adds c := by
  refine List.sum_nonneg fun n hn => ?_
  obtain ⟨op, hop, rfl⟩ := List.mem_map.mp hn
  exact adds_nonneg (h op hop) c

theorem act_adds_nonneg {a : Act} (h : ∀ c, a = .call c → c.raises) (c : Counter) : 0 ≤ a.adds c := by
  unfold Act.adds
  split
  · next c' count =>
    have hcount : 0 ≤ count := of_decide_eq_true (h _ rfl)
    split_ifs
    · exact hcount
    · exact le_rfl
  · exact le_rfl

/-- A call adds what it is asked to. -/
theorem adds_ops (call : Call) (c : Counter) : (call.ops.map (Op.adds c)).sum = (Act.call call).adds c := by
  cases call with
  | increment c' count => simp [Call.ops, Op.adds, Act.adds]
  | updateLatency latency => simp [Call.ops, Op.adds, Act.adds]
  | updateChannelStats name stats => simp [Call.ops, Op.adds, Act.adds]
  | reset => simp [Call.ops, Counter.all, Op.adds, Act.adds]
  | setTestData => simp [Call.ops, Op.adds, Act.adds]

/-- Within its 64 bits a counter is added to as it is asked. -/
theorem counter_perform {op : Op} (h : op.raises) {s : TelemetryService} {c : Counter} (hlow : 0 ≤ s.counter c)
    (hfits : s.counter c + op.adds c < 2 ^ 63) (t : Thread) :
    (s.perform t op).counter c = s.counter c + op.adds c := by
  cases op with
  | add c' count =>
    have hcount : 0 ≤ count := of_decide_eq_true h
    change Function.update s.counter c' (wrap (s.counter c' + count)) c = s.counter c + if c' = c then count else 0
    by_cases hc : c' = c
    · subst hc
      rw [Op.adds, if_pos rfl] at hfits
      rw [Function.update_self, if_pos rfl, wrap]
      exact Int.bmod_eq_of_le (by omega) (by omega)
    · rw [Function.update_of_ne (Ne.symm hc), if_neg hc, add_zero]
  | exchange c' value => cases h
  | setAverage =>
    rw [TelemetryService.perform]
    split_ifs <;> exact (add_zero _).symm
  | _ => exact (add_zero _).symm

namespace World
variable {o : TelemetryBroadcasterOptions} {late : ℚ} {w w' : World} {a : Act} {acts : List Act} {now : ℚ}

/-- When the last push that reached the windows started. -/
def lastStarted (w : World) : Option ℚ :=
  match w.stage with
  | .marking started => some started
  | _ => w.lastPushTime

/-- One push under way starts no sooner than the rate allows. -/
structure Spaced (o : TelemetryBroadcasterOptions) (w : World) : Prop where
  last : w.pushed.getLast?.map Prod.fst = w.lastStarted
  next : ∀ started, w.stage.started = some started →
    ∀ last, w.lastPushTime = some last → last + o.minInterval ≤ started

def Apart (o : TelemetryBroadcasterOptions) (w : World) : Prop :=
  w.pushed.IsChain (fun push later => push.1 + o.minInterval ≤ later.1) ∧ (w.stage.isStopped = false → Spaced o w)

/-- No push is under way. -/
theorem none_started {stage : Stage} {P : ℚ → Prop} (hstage : stage.started = none) :
    ∀ started, stage.started = some started → P started := by
  intro started hst
  rw [hstage] at hst
  cases hst

theorem Apart.step (h : Apart o w) (hmoves : Moves o late w a w') : Apart o w' := by
  have hkeep : ∀ {w' : World}, w'.pushed = w.pushed → w'.lastPushTime = w.lastPushTime →
      w'.lastStarted = w.lastStarted → w.stage.isStopped = false →
      (∀ started, w'.stage.started = some started →
        w.stage.started = some started ∨ ∀ last, w.lastPushTime = some last → last + o.minInterval ≤ started) →
      Apart o w' := by
    intro w' hpushed hlast hstarted hlive hnext
    have hspaced := h.2 hlive
    refine ⟨hpushed ▸ h.1, fun _ => ⟨?_, fun started hst last hl => ?_⟩⟩
    · rw [hpushed, hstarted]
      exact hspaced.last
    · rw [hlast] at hl
      exact (hnext started hst).elim (fun hsame => hspaced.next started hsame last hl) fun hle => hle last hl
  cases hmoves with
  | tick hd htick => exact ⟨h.1, fun hlive => ⟨(h.2 hlive).last, (h.2 hlive).next⟩⟩
  | call c => exact ⟨h.1, fun hlive => ⟨(h.2 hlive).last, (h.2 hlive).next⟩⟩
  | @goes i op left total count ht =>
    obtain ⟨_, _, hgo⟩ := go_eq (o := o) w i ⟨op :: left, total, count⟩ left op
    rw [hgo]
    exact ⟨h.1, fun hlive => ⟨(h.2 hlive).last, (h.2 hlive).next⟩⟩
  | wakes hs hn => exact hkeep rfl rfl (by rw [lastStarted, lastStarted, hs]) (hs ▸ rfl) (none_started rfl)
  | timesOut hs hu => exact hkeep rfl rfl (by rw [lastStarted, lastStarted, hs]) (hs ▸ rfl) (none_started rfl)
  | drains hs hn => exact hkeep rfl rfl rfl (hs ▸ rfl) fun started hst => .inl hst
  | drained hs hn => exact hkeep rfl rfl (by rw [lastStarted, lastStarted, hs]) (hs ▸ rfl) (none_started rfl)
  | limited hs hlast hl => exact hkeep rfl rfl (by rw [lastStarted, lastStarted, hs]; rfl) (hs ▸ rfl) (none_started rfl)
  | starts hs hl =>
    refine hkeep rfl rfl (by rw [lastStarted, lastStarted, hs]) (hs ▸ rfl) fun started hst => .inr fun last hlast => ?_
    have hle := hl last hlast
    obtain rfl := Option.some_inj.mp hst
    linarith
  | unchanged hs => exact hkeep rfl rfl (by rw [lastStarted, lastStarted, hs]; rfl) (hs ▸ rfl) (none_started rfl)
  | checks hs =>
    exact hkeep rfl rfl (by rw [lastStarted, lastStarted, hs]) (hs ▸ rfl) fun started hst => .inl (hs ▸ hst)
  | reads hs =>
    exact hkeep rfl rfl (by rw [lastStarted, lastStarted, hs]) (hs ▸ rfl) fun started hst => .inl (hs ▸ hst)
  | readAll hs =>
    exact hkeep rfl rfl (by rw [lastStarted, lastStarted, hs]) (hs ▸ rfl) fun started hst => .inl (hs ▸ hst)
  | @sent started dto hs =>
    have hspaced := h.2 (hs ▸ rfl)
    have hlast : w.pushed.getLast?.map Prod.fst = w.lastPushTime := by
      rw [hspaced.last, lastStarted, hs]
    have hnext := hspaced.next started (by rw [hs, Stage.started])
    refine ⟨List.isChain_append.mpr ⟨h.1, List.isChain_singleton _, fun push hpush later hlater => ?_⟩, fun _ => ?_⟩
    · obtain rfl := Option.some_inj.mp hlater
      refine hnext push.1 ?_
      rw [← hlast, Option.mem_def.mp hpush, Option.map_some]
    · refine ⟨?_, fun started' hst last hl => ?_⟩
      · rw [lastStarted]
        dsimp only
        rw [List.getLast?_concat, Option.map_some]
      · obtain rfl := Option.some_inj.mp hst
        exact hnext last hl
  | failed hs => exact hkeep rfl rfl (by rw [lastStarted, lastStarted, hs]; rfl) (hs ▸ rfl) (none_started rfl)
  | marks hs =>
    have hspaced := h.2 (hs ▸ rfl)
    refine ⟨h.1, fun _ => ⟨?_, none_started rfl⟩⟩
    have hlast := hspaced.last
    rw [lastStarted, hs] at hlast
    exact hlast
  | stop => exact ⟨h.1, fun hlive => Bool.noConfusion hlive⟩

private theorem apart_start : Apart o (start o now) := by
  refine ⟨List.isChain_nil, fun _ => ⟨?_, nofun⟩⟩
  rw [lastStarted, start]
  split_ifs <;> rfl

/-- What the last push told of a counter. -/
def counterPushed (w : World) (c : Counter) : Option ℤ := w.pushed.getLast?.map fun push => push.2.counter c

/-- A snapshot being taken tells of each counter it has read what lies between the last push and now. -/
def Between (w : World) : Stage → Prop
  | .reading _ left dto => ∀ c, .counter c ∉ left →
      (∀ n, w.counterPushed c = some n → n ≤ dto.counter c) ∧ dto.counter c ≤ w.service.counter c
  | .sending _ dto => ∀ c, (∀ n, w.counterPushed c = some n → n ≤ dto.counter c) ∧ dto.counter c ≤ w.service.counter c
  | _ => True

structure Rising (w : World) : Prop where
  calls : ∀ t ∈ w.threads, ∀ op ∈ t.left, op.raises
  nonneg : ∀ c, 0 ≤ w.service.counter c
  chain : w.pushed.IsChain fun push later => ∀ c, push.2.counter c ≤ later.2.counter c
  current : ∀ c n, w.counterPushed c = some n → n ≤ w.service.counter c
  between : Between w w.stage

/-- What a counter comes to once the calls under way are through. -/
def toCome (w : World) (c : Counter) : ℤ := w.service.counter c + (w.threads.map (Thread.adds c)).sum

/-- A counter that rises is still told of as it may be. -/
theorem Between.mono {stage : Stage} (h : Between w stage) (hpushed : w'.pushed = w.pushed)
    (hle : ∀ c, w.service.counter c ≤ w'.service.counter c) : Between w' stage := by
  have htold : ∀ c, w'.counterPushed c = w.counterPushed c := fun c => by rw [counterPushed, counterPushed, hpushed]
  cases stage with
  | reading started left dto =>
    intro c hc
    rw [htold]
    exact ⟨(h c hc).1, (h c hc).2.trans (hle c)⟩
  | sending started dto =>
    intro c
    rw [htold]
    exact ⟨(h c).1, (h c).2.trans (hle c)⟩
  | _ => trivial

theorem counter_read_of_ne {dto : TelemetryDto} {s : TelemetryService} {f : Field} {c : Counter} (h : .counter c ≠ f) :
    (dto.read s f).counter c = dto.counter c := by
  cases f with
  | counter c' => exact Function.update_of_ne (fun hc => h (congrArg Field.counter hc)) _ _
  | avgLatency => rfl
  | channel c' => rfl

theorem Between.reads {started : ℚ} {f : Field} {left : List Field} {dto : TelemetryDto}
    (h : Between w (.reading started (f :: left) dto)) (hcurrent : ∀ c n, w.counterPushed c = some n → n ≤ w.service.counter c) :
    Between w (.reading started left (dto.read w.service f)) := by
  intro c hc
  by_cases hf : .counter c = f
  · have hread : (dto.read w.service f).counter c = w.service.counter c := by
      rw [← hf]
      exact Function.update_self c _ _
    rw [hread]
    exact ⟨hcurrent c, le_rfl⟩
  · rw [counter_read_of_ne hf]
    refine h c fun hmem => ?_
    exact hc (List.mem_of_ne_of_mem hf hmem)

theorem Rising.go (h : Rising w) {i : ℕ} {op : Op} {left : List Op} {total count : ℤ}
    (ht : w.threads[i]? = some ⟨op :: left, total, count⟩) (hfits : ∀ c, w.toCome c < 2 ^ 63) :
    Rising (w.go o i ⟨op :: left, total, count⟩ left op) ∧
      ∀ c, (w.go o i ⟨op :: left, total, count⟩ left op).toCome c = w.toCome c := by
  obtain ⟨hop, hleft⟩ := List.forall_mem_cons.mp (h.calls _ (List.mem_of_getElem? ht))
  have hset := fun c => sum_map_set (Thread.adds c) ht (Thread.perform ⟨op :: left, total, count⟩ w.service left op)
  have hbefore : ∀ c, Thread.adds c ⟨op :: left, total, count⟩ = op.adds c + (left.map (Op.adds c)).sum :=
    fun c => List.sum_cons
  have hafter : ∀ c, (Thread.perform ⟨op :: left, total, count⟩ w.service left op).adds c =
      (left.map (Op.adds c)).sum := fun c => by cases op <;> rfl
  have hothers : ∀ c, Thread.adds c ⟨op :: left, total, count⟩ ≤ (w.threads.map (Thread.adds c)).sum := by
    intro c
    refine List.single_le_sum (fun n hn => ?_) _ (List.mem_map_of_mem (List.mem_of_getElem? ht))
    obtain ⟨t, htm, rfl⟩ := List.mem_map.mp hn
    exact thread_adds_nonneg (h.calls t htm) c
  have hcounter : ∀ c, (w.service.perform ⟨op :: left, total, count⟩ op).counter c =
      w.service.counter c + op.adds c := by
    intro c
    have hrest : 0 ≤ (left.map (Op.adds c)).sum := thread_adds_nonneg (t := ⟨left, total, count⟩) hleft c
    refine counter_perform hop (h.nonneg c) ?_ _
    have hroom := hfits c
    have hwhole := hothers c
    rw [toCome] at hroom
    rw [hbefore] at hwhole
    omega
  have hle : ∀ c, w.service.counter c ≤ (w.service.perform ⟨op :: left, total, count⟩ op).counter c := by
    intro c
    have hadds := adds_nonneg hop c
    rw [hcounter]
    omega
  obtain ⟨_, _, hgo⟩ := go_eq (o := o) w i ⟨op :: left, total, count⟩ left op
  rw [hgo]
  refine ⟨⟨fun t htm => ?_, fun c => (h.nonneg c).trans (hle c), h.chain, fun c n hn => (h.current c n hn).trans (hle c),
    h.between.mono rfl hle⟩, fun c => ?_⟩
  · rcases List.mem_or_eq_of_mem_set htm with hold | rfl
    · exact h.calls t hold
    · cases op <;> exact hleft
  · have hsum := hset c
    rw [hbefore, hafter] at hsum
    rw [toCome, toCome, hcounter]
    dsimp only
    omega

private theorem toCome_call (w : World) (call : Call) (c : Counter) :
    toCome { w with threads := w.threads ++ [⟨call.ops, 0, 0⟩] } c = w.toCome c + (Act.call call).adds c := by
  have hcall : Thread.adds c ⟨call.ops, 0, 0⟩ = (Act.call call).adds c := adds_ops call c
  rw [toCome, toCome, List.map_append, List.sum_append, List.map_singleton, List.sum_singleton, hcall, add_assoc]

theorem Rising.step (h : Rising w) (ha : ∀ c, a = .call c → c.raises) (hfits : ∀ c, w.toCome c < 2 ^ 63)
    (hmoves : Moves o late w a w') : Rising w' ∧ ∀ c, w'.toCome c = w.toCome c + a.adds c := by
  have hstill : ∀ {w' : World}, Rising w' → w'.service.counter = w.service.counter → w'.threads = w.threads →
      Rising w' ∧ ∀ c, w'.toCome c = w.toCome c + 0 := by
    intro w' hrising hcounter hthreads
    refine ⟨hrising, fun c => ?_⟩
    rw [toCome, toCome, hcounter, hthreads, add_zero]
  cases hmoves with
  | tick hd htick => exact hstill ⟨h.calls, h.nonneg, h.chain, h.current, h.between.mono rfl fun _ => le_rfl⟩ rfl rfl
  | call call =>
    refine ⟨⟨fun t ht => ?_, h.nonneg, h.chain, h.current, h.between.mono rfl fun _ => le_rfl⟩, toCome_call w call⟩
    rcases List.mem_append.mp ht with hold | hnew
    · exact h.calls t hold
    · obtain rfl := List.mem_singleton.mp hnew
      exact raises_of_mem (ha call rfl)
  | goes ht =>
    obtain ⟨hrising, hsame⟩ := h.go (o := o) ht hfits
    exact ⟨hrising, fun c => (hsame c).trans (add_zero _).symm⟩
  | wakes hs hn => exact hstill ⟨h.calls, h.nonneg, h.chain, h.current, trivial⟩ rfl rfl
  | timesOut hs hu => exact hstill ⟨h.calls, h.nonneg, h.chain, h.current, trivial⟩ rfl rfl
  | drains hs hn => exact hstill ⟨h.calls, h.nonneg, h.chain, h.current, h.between.mono rfl fun _ => le_rfl⟩ rfl rfl
  | drained hs hn => exact hstill ⟨h.calls, h.nonneg, h.chain, h.current, trivial⟩ rfl rfl
  | limited hs hlast hl => exact hstill ⟨h.calls, h.nonneg, h.chain, h.current, trivial⟩ rfl rfl
  | starts hs hl => exact hstill ⟨h.calls, h.nonneg, h.chain, h.current, trivial⟩ rfl rfl
  | unchanged hs => exact hstill ⟨h.calls, h.nonneg, h.chain, h.current, trivial⟩ rfl rfl
  | checks hs => exact hstill ⟨h.calls, h.nonneg, h.chain, h.current, fun c hc => absurd (mem_all _) hc⟩ rfl rfl
  | reads hs =>
    have hbetween := h.between
    rw [hs] at hbetween
    exact hstill ⟨h.calls, h.nonneg, h.chain, h.current, hbetween.reads h.current⟩ rfl rfl
  | readAll hs =>
    have hbetween := h.between
    rw [hs] at hbetween
    exact hstill ⟨h.calls, h.nonneg, h.chain, h.current, fun c => hbetween c List.not_mem_nil⟩ rfl rfl
  | @sent started dto hs =>
    have hbetween := h.between
    rw [hs] at hbetween
    refine hstill ⟨h.calls, h.nonneg,
      List.isChain_append.mpr ⟨h.chain, List.isChain_singleton _, fun push hpush later hlater c => ?_⟩,
      fun c n hn => ?_, trivial⟩ rfl rfl
    · obtain rfl := Option.some_inj.mp hlater
      refine (hbetween c).1 _ ?_
      rw [counterPushed, Option.mem_def.mp hpush, Option.map_some]
    · rw [counterPushed] at hn
      dsimp only at hn
      rw [List.getLast?_concat, Option.map_some] at hn
      obtain rfl := Option.some_inj.mp hn
      exact (hbetween c).2
  | failed hs => exact hstill ⟨h.calls, h.nonneg, h.chain, h.current, trivial⟩ rfl rfl
  | marks hs => exact hstill ⟨h.calls, h.nonneg, h.chain, h.current, trivial⟩ rfl rfl
  | stop => exact hstill ⟨h.calls, h.nonneg, h.chain, h.current, trivial⟩ rfl rfl

theorem Rising.run (h : Rising w) (hraises : ∀ c, .call c ∈ acts → c.raises)
    (hfits : ∀ c, w.toCome c + (acts.map (Act.adds c)).sum < 2 ^ 63) (hrun : w.run o late acts = some w') :
    Rising w' := by
  induction acts generalizing w with
  | nil =>
    cases hrun
    exact h
  | cons a acts ih =>
    obtain ⟨w₁, hw₁, hrun⟩ := Option.bind_eq_some_iff.mp hrun
    have hlater : ∀ c, 0 ≤ (acts.map (Act.adds c)).sum := by
      intro c
      refine List.sum_nonneg fun n hn => ?_
      obtain ⟨b, hb, rfl⟩ := List.mem_map.mp hn
      exact act_adds_nonneg (fun call hcall => hraises call (hcall ▸ List.mem_cons_of_mem _ hb)) c
    have hthis := act_adds_nonneg fun call (hcall : a = .call call) => hraises call (hcall ▸ List.mem_cons_self)
    have hroom : ∀ c, w.toCome c + (a.adds c + (acts.map (Act.adds c)).sum) < 2 ^ 63 := hfits
    obtain ⟨hrising, hcome⟩ := h.step (fun call hcall => hraises call (hcall ▸ List.mem_cons_self))
      (fun c => by linarith [hroom c, hthis c, hlater c]) (moves_of_step hw₁)
    refine ih hrising (fun call hcall => hraises call (List.mem_cons_of_mem _ hcall)) (fun c => ?_) hrun
    rw [hcome, add_assoc]
    exact hroom c

private theorem rising_start : Rising (start o now) where
  calls := nofun
  nonneg _ := le_rfl
  chain := List.isChain_nil
  current := nofun
  between := by
    rw [start]
    dsimp only
    split_ifs <;> trivial

/-- The windows are told no oftener than the rate allows; and of counters that are only ever raised, and not past what
64 bits hold, they are told of none that fell, nor of more than there is, whatever is counted while a snapshot is
read. -/
theorem pushes_in_order (hrun : (start o now).run o late acts = some w) :
    w.pushed.IsChain (fun push later => push.1 + o.minInterval ≤ later.1) ∧
      ((∀ c, .call c ∈ acts → c.raises) → (∀ c, (acts.map (Act.adds c)).sum < 2 ^ 63) →
        w.pushed.IsChain (fun push later => ∀ c, push.2.counter c ≤ later.2.counter c) ∧
          ∀ push ∈ w.pushed.getLast?, ∀ c, push.2.counter c ≤ w.service.counter c) := by
  have hapart : Apart o w := run_induction (fun _ _ _ h _ hmoves => h.step hmoves) apart_start hrun
  refine ⟨hapart.1, fun hraises hfits => ?_⟩
  have hcome : ∀ c, (start o now).toCome c = 0 := fun c => rfl
  have hrising : Rising w := rising_start.run hraises (fun c => by rw [hcome, zero_add]; exact hfits c) hrun
  refine ⟨hrising.chain, fun push hpush c => hrising.current c _ ?_⟩
  rw [counterPushed, Option.mem_def.mp hpush, Option.map_some]

theorem pushes_in_order_overtaken : ∃ w, (start .default 0).run .default 0 (countedWhileRead ++ pushedTwiceMore) = some w ∧
    w.pushed.map (fun push => (push.1, push.2.counter .captured)) = [(0, 0), (100, 5), (200, 5)] ∧
    w.pushed.IsChain (fun push later => push.1 + TelemetryBroadcasterOptions.default.minInterval ≤ later.1) ∧
      w.pushed.IsChain (fun push later => ∀ c, push.2.counter c ≤ later.2.counter c) := by
  have hruns : ((start .default 0).run .default 0 (countedWhileRead ++ pushedTwiceMore)).isSome := by decide +kernel
  obtain ⟨w, hw⟩ := Option.isSome_iff_exists.mp hruns
  have hpushed : ∀ w ∈ (start .default 0).run .default 0 (countedWhileRead ++ pushedTwiceMore),
      w.pushed.map (fun push => (push.1, push.2.counter .captured)) = [(0, 0), (100, 5), (200, 5)] := by
    decide +kernel
  obtain ⟨hapart, hrising⟩ := pushes_in_order hw
  have hfits : ∀ c, ((countedWhileRead ++ pushedTwiceMore).map (Act.adds c)).sum < 2 ^ 63 := by
    intro c
    cases c <;> decide +kernel
  refine ⟨w, hw, hpushed w hw, hapart, (hrising (fun c hc => ?_) hfits).1⟩
  have hcall : c = .increment .captured 5 := by
    simpa [countedWhileRead, pushedTwiceMore, pushAgain] using hc
  rw [hcall]
  rfl

end World
end Kanat.Telemetry
