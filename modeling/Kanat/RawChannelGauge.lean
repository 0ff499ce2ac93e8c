import Kanat.HandlerService
import Kanat.ScheduledPrograms
import Kanat.ThreadLogs
import Mathlib.Algebra.Group.Int.Defs
import Mathlib.Algebra.Group.Nat.Defs

/-! # What a handler's raw channel count counts

Each move of a packet into or out of the raw channel is counted apart, after it; unsubscribing sets the
count back. -/
namespace Kanat.RawChannelGauge
open ResumptionPrograms ScheduledPrograms InterleavedThreads ThreadLogs
open HandlerService (Op Ans Exn Packet World Choice idle answer onNext drain readBatchFromChannelAsync
  forwardToParsedChannelAsync parseAndForward processBatchAsync workerTurn workerLoopAsync RAW_READ_BURST)

variable {Handler Data Entity : Type}

/-- The counters that `Reset` sets back, one after the other. -/
inductive Counter where
  | captured | parsed | dropped | backpressure

/-- The calls of unsubscribing and of resetting. -/
inductive StatsOp (Handler : Type) where
  | unsubscribeDevice (h : Handler)
  | exchangeCounter (counter : Counter)
  | exchangeRawChannelCount (h : Handler)

abbrev StatsAns (Handler : Type) : StatsOp Handler → Type
  | .unsubscribeDevice _ => Except Exn Unit
  | _ => Unit

abbrev GaugeAns (Handler Data Entity : Type) : Op Handler Data Entity ⊕ StatsOp Handler → Type :=
  Either (Ans Handler Data Entity) (StatsAns Handler)

abbrev M (Handler Data Entity α : Type) :=
  Prog (GaugeAns Handler Data Entity) Exn α

def perform (o : StatsOp Handler) : M Handler Data Entity (StatsAns Handler o) :=
  @Prog.perform _ (GaugeAns Handler Data Entity) Exn (.inr o)

/-- `Handler.Reset` -/
def reset : M Handler Data Entity Unit :=
  [.captured, .parsed, .dropped, .backpressure].forM fun counter => perform (.exchangeCounter counter)

def unsubscribeAsync (h : Handler) : M Handler Data Entity Unit := do
  perform (.unsubscribeDevice h) >>= Prog.ofExcept
  reset
  perform (.exchangeRawChannelCount h)

/-- The raw channel count is left. -/
def resetStats : M Handler Data Entity Unit :=
  reset

inductive Request (Handler Data : Type) where
  | handle (r : HandlerService.Request Handler Data)
  | unsubscribe (h : Handler)
  | resetStats

def program : Request Handler Data → M Handler Data Entity (Option (Request Handler Data))
  | .handle r => Option.map .handle <$> (HandlerService.program r).widen
  | .unsubscribe h => do
      unsubscribeAsync h
      return none
  | .resetStats => do
      resetStats
      return none

def exchange (w : World Handler Data) : Counter → World Handler Data
  | .captured => { w with captured := 0 }
  | .parsed => { w with parsed := 0 }
  | .dropped => { w with dropped := 0 }
  | .backpressure => { w with backpressure := 0 }

section
variable [DecidableEq Handler]

def gaugeAnswer (w : World Handler Data) : (o : Op Handler Data Entity ⊕ StatsOp Handler) →
    Choice Entity → Option (GaugeAns Handler Data Entity o × World Handler Data)
  | .inl o, choice => answer w o choice
  | .inr (.unsubscribeDevice _), .done => some (.ok (), w)
  | .inr (.unsubscribeDevice _), .raises e => some (.error e, w)
  | .inr (.exchangeCounter counter), .done => some ((), exchange w counter)
  | .inr (.exchangeRawChannelCount h), .done =>
      some ((), { w with rawChannelCount := Function.update w.rawChannelCount h 0 })
  | _, _ => none

/-- The handlers, with unsubscribing and resetting at any time. -/
def gauged (Handler Data Entity : Type) [DecidableEq Handler] :
    System (GaugeAns Handler Data Entity) Exn (World Handler Data) (Request Handler Data) (Choice Entity) where
  program := program
  answer := gaugeAnswer
  drift w _ := some { w with cancellationRequested := true }

end

/-- `GetRawChannelCount`: the count as a 32-bit number, or 0. -/
def getRawChannelCount (w : World Handler Data) (h : Handler) : ℤ :=
  if w.rawChannelCount h ≥ 0 then (w.rawChannelCount h).bmod (2 ^ 32) else 0

/-- The thread has moved no packet that it has not counted. -/
def counts : Thread (GaugeAns Handler Data Entity) Exn (Request Handler Data) → Bool
  | ⟨_, .call (.inl (.addRawChannelCount ..)) _⟩ => false
  | _ => true

abbrev GaugeCall (Handler Data Entity : Type) :=
  Call (GaugeAns Handler Data Entity) (World Handler Data) (Request Handler Data)

section
variable [DecidableEq Handler]

/-- What the call takes from the count by setting it back to 0. -/
def taken (h : Handler) (w : World Handler Data) : Op Handler Data Entity ⊕ StatsOp Handler → ℤ
  | .inr (.exchangeRawChannelCount h') => if h' = h then w.rawChannelCount h else 0
  | _ => 0

/-- What all unsubscribing so far has taken from the count. -/
def zeroed (h : Handler) : List (GaugeCall Handler Data Entity) → ℤ
  | [] => 0
  | call :: trace => taken h call.before call.op + zeroed h trace

/-- What these moves, or counts, come to for one handler. -/
@[grind =] def total (h : Handler) : List (Handler × ℤ) → ℤ
  | [] => 0
  | move :: moves => (if move.1 = h then move.2 else 0) + total h moves

end

/-- Packets put into a raw channel and taken out of it. -/
def moved : Pick (GaugeAns Handler Data Entity) (Handler × ℤ)
  | .inl (.tryWriteRaw x), true => some (x.handler, 1)
  | .inl (.writeRaw x), .ok () => some (x.handler, 1)
  | .inl (.readRaw h), .ok _ => some (h, -1)
  | .inl (.tryReadRaw h), some _ => some (h, -1)
  | _, _ => none

def counted : Pick (GaugeAns Handler Data Entity) (Handler × ℤ)
  | .inl (.addRawChannelCount h d), _ => some (h, d)
  | _, _ => none

/-- What a thread has moved and not counted yet. -/
def next (l : Option (Handler × ℤ)) (o : Op Handler Data Entity ⊕ StatsOp Handler)
    (r : GaugeAns Handler Data Entity o) : Option (Handler × ℤ) :=
  if (counted o r).isSome then none else (moved o r).or l

/-- A count is of the last move, and comes before any other call. -/
def Allows (l : Option (Handler × ℤ)) : Op Handler Data Entity ⊕ StatsOp Handler → Prop
  | .inl (.addRawChannelCount h d) => l = some (h, d)
  | _ => l = none

/-- A captured packet is its handler's. -/
def Possible : (o : Op Handler Data Entity ⊕ StatsOp Handler) → GaugeAns Handler Data Entity o → Prop
  | .inl (.incrementCaptured h _), x => x.handler = h
  | _, _ => True

def counting (Handler Data Entity : Type) :
    Contract (GaugeAns Handler Data Entity) (Request Handler Data) (Option (Handler × ℤ)) where
  allowed := Allows
  possible := Possible
  next := next
  start _ := none
  Ready l _ := l = none
  Returned l := l = none
  Raised l := l = none

section
variable {l : Option (Handler × ℤ)} {h : Handler} {data : Data} {α : Type}
  {E : Option (Handler × ℤ) → Exn → Prop}

/-- The calls that move nothing and count nothing. -/
def Still : Op Handler Data Entity → Prop
  | .tryWriteRaw _ | .writeRaw _ | .readRaw _ | .tryReadRaw _ | .addRawChannelCount .. => False
  | _ => True

private theorem still_spec {o : Op Handler Data Entity} (ho : Still o) :
    (counting Handler Data Entity).toMonitor.left.allowed none o ∧
      ∀ r, (counting Handler Data Entity).toMonitor.left.next none o r = none := by
  cases o with
  | tryWriteRaw x => exact ho.elim
  | writeRaw x => exact ho.elim
  | readRaw h => exact ho.elim
  | tryReadRaw h => exact ho.elim
  | addRawChannelCount h d => exact ho.elim
  | _ => exact ⟨rfl, fun _ => rfl⟩

theorem obeys_still {p : HandlerService.M Handler Data Entity α} (hp : Watched Still p) :
    Obeys (counting Handler Data Entity).toMonitor.left (fun l _ => l = none) (fun l _ => l = none) p none :=
  hp.obeys fun _ ho => still_spec ho

theorem obeys_op {o : Op Handler Data Entity}
    {Q : Option (Handler × ℤ) → Ans Handler Data Entity o → Prop} (hallowed : Allows l (.inl o))
    (h : ∀ r, Possible (.inl o) r → Q (next l (.inl o) r) r) :
    Obeys (counting Handler Data Entity).toMonitor.left Q E (HandlerService.perform o) l :=
  obeys_perform.mpr ⟨hallowed, h⟩

theorem obeys_onNext :
    Obeys (counting Handler Data Entity).toMonitor.left (fun l _ => l = none) (fun l _ => l = none)
      (onNext h data) none := by
  refine obeys_bind.mpr (obeys_op rfl fun x hx => ?_)
  have hmoved : some (x.handler, (1 : ℤ)) = some (h, 1) := by rw [show x.handler = h from hx]
  refine obeys_bind.mpr (obeys_op rfl fun queued _ => ?_)
  cases queued with
  | true => exact obeys_op hmoved fun _ _ => rfl
  | false =>
    refine obeys_bind.mpr (obeys_op rfl fun _ _ => ?_)
    refine obeys_bind.mpr (obeys_bind.mpr (obeys_op rfl fun r _ => ?_))
    cases r with
    | ok u => exact obeys_op hmoved fun _ _ => rfl
    | error e => rfl

theorem obeys_drain {n : ℕ} {batch : List (Packet Handler Data)} :
    Obeys (counting Handler Data Entity).toMonitor.left (fun l _ => l = none) E (drain h n batch) none := by
  induction n generalizing batch with
  | zero => rfl
  | succ n ih =>
    refine obeys_bind.mpr (obeys_op rfl fun r _ => ?_)
    cases r with
    | none => rfl
    | some more => exact obeys_bind.mpr (obeys_op rfl fun _ _ => ih)

theorem obeys_readBatch :
    Obeys (counting Handler Data Entity).toMonitor.left (fun l _ => l = none) (fun l _ => l = none)
      (readBatchFromChannelAsync h) none := by
  refine obeys_bind.mpr (obeys_op rfl fun r _ => ?_)
  cases r with
  | ok first =>
    refine obeys_bind.mpr (obeys_op rfl fun _ _ => ?_)
    exact obeys_bind.mpr (obeys_drain.mono (fun _ _ hl => hl) fun _ _ hE => hE)
  | error e => cases e <;> rfl

private theorem watched_processBatch {batch : List (Packet Handler Data)} :
    Watched (Still : Op Handler Data Entity → Prop) (processBatchAsync batch) := by
  have hfailure : ∀ x : Packet Handler Data, Watched (Still : Op Handler Data Entity → Prop)
      (HandlerService.perform (.recordParseFailure x)) := fun _ => watched_perform trivial
  refine watched_forM fun x _ => watched_tryCatch (watched_bind ?_ fun parsed => ?_) fun _ => hfailure x
  · exact watched_bind (watched_perform trivial) fun _ => watched_ofExcept
  · cases parsed with
    | none => exact hfailure x
    | some entity =>
      apply watched_bind
      · exact watched_bind (watched_perform trivial) fun _ => watched_ofExcept
      intro _
      apply watched_bind
      · refine watched_bind (watched_perform trivial) fun written => ?_
        cases written with
        | true => exact watched_perform trivial
        | false =>
          refine watched_bind (watched_perform trivial) fun _ => watched_bind ?_ fun _ => watched_perform trivial
          exact watched_bind (watched_perform trivial) fun _ => watched_ofExcept
      · exact fun _ => watched_perform trivial

theorem obeys_worker :
    Obeys (counting Handler Data Entity).toMonitor.left (fun l _ => l = none) (fun l _ => l = none)
      (workerLoopAsync h) none := by
  refine obeys_tryCatch.mpr (obeys_bind.mpr (obeys_op rfl fun canceled _ => ?_))
  cases canceled with
  | true => rfl
  | false =>
    refine obeys_bind.mpr (obeys_readBatch.mono (fun l r hl => ?_) fun l e hl => ?_)
    · rw [hl]
      cases r with
      | none => rfl
      | some batch =>
        refine obeys_bind.mpr ((obeys_still watched_processBatch).mono (fun _ _ hl => hl) fun l e hl => ?_)
        cases e <;> exact hl
    · cases e <;> exact hl

/-- A thread moves when it has nothing to count, and counts what it has moved. -/
theorem pending_next {o : Op Handler Data Entity ⊕ StatsOp Handler} {r : GaugeAns Handler Data Entity o}
    (hallowed : Allows l o) :
    (moved o r).toList ++ l.toList = (next l o r).toList ++ (counted o r).toList := by
  cases o with
  | inr o =>
    rw [show l = none from hallowed]
    rfl
  | inl o =>
    cases o with
    | addRawChannelCount h d =>
      rw [show l = some (h, d) from hallowed]
      rfl
    | _ =>
      rw [show l = none from hallowed, next]
      change _ = ((moved _ r).or none).toList ++ []
      rw [Option.or_none, List.append_nil]
      exact List.append_nil _

/-- A thread that has counted its moves owes none. -/
theorem none_of_counts {l : Option (Handler × ℤ)}
    {t : Thread (GaugeAns Handler Data Entity) Exn (Request Handler Data)}
    (hholds : (counting Handler Data Entity).Holds t.rest l) (hcounts : counts t = true) : l = none := by
  obtain ⟨request, rest⟩ := t
  cases rest with
  | ret next =>
    cases next with
    | none => exact hholds.2 rfl
    | some r => exact hholds.1 r rfl
  | raise e => exact hholds
  | call o k =>
    have hallowed : Allows l o := hholds.1
    cases o with
    | inr o => exact hallowed
    | inl o =>
      cases o with
      | addRawChannelCount h d => cases hcounts
      | _ => exact hallowed

private theorem obeys_handle (r : HandlerService.Request Handler Data) :
    Obeys (counting Handler Data Entity).toMonitor.left (fun l _ => l = none) (fun l _ => l = none)
      (HandlerService.program r) none := by
  cases r with
  | onNext h data => exact obeys_bind.mpr (obeys_onNext.mono (fun _ _ hl => hl) fun _ _ hE => hE)
  | onCompleted h =>
    apply obeys_still
    exact watched_bind (watched_bind (watched_perform trivial) fun _ => watched_ofExcept) fun _ => watched_ret
  | worker h => exact obeys_worker

theorem obeys_stats {o : StatsOp Handler}
    {Q : Option (Handler × ℤ) → StatsAns Handler o → Prop} (h : ∀ r, Q none r) :
    Obeys (counting Handler Data Entity).toMonitor Q E (perform o) none :=
  obeys_call rfl h

theorem obeys_reset :
    Obeys (counting Handler Data Entity).toMonitor (fun l _ => l = none) E reset none := by
  refine obeys_forM (fun counter _ l hl => ?_) (show (none : Option (Handler × ℤ)) = none from rfl)
  rw [hl]
  exact obeys_stats fun _ => rfl

private theorem obeys_unsubscribe :
    Obeys (counting Handler Data Entity).toMonitor (fun l _ => l = none) (fun l _ => l = none)
      (unsubscribeAsync h) none := by
  refine obeys_bind.mpr (obeys_bind.mpr (obeys_stats fun r => ?_))
  refine obeys_ofExcept.mpr ⟨fun _ _ => ?_, fun _ _ => rfl⟩
  refine obeys_bind.mpr (obeys_reset.mono (fun l _ hl => ?_) fun _ _ hE => hE)
  rw [hl]
  exact obeys_stats fun _ => rfl

theorem follows_gauged [DecidableEq Handler] :
    Follows (gauged Handler Data Entity) (counting Handler Data Entity) where
  ready _ := rfl
  holds l request hl := by
    rw [show l = none from hl]
    cases request with
    | handle r =>
      refine obeys_bind.mpr (obeys_widen.mpr ((obeys_handle r).mono (fun l _ hl => ?_) fun _ _ hE => hE))
      exact ⟨fun _ _ => hl, fun _ => hl⟩
    | unsubscribe h =>
      refine obeys_bind.mpr (obeys_unsubscribe.mono (fun l _ hl => ?_) fun _ _ hE => hE)
      exact ⟨fun _ _ => hl, fun _ => hl⟩
    | resetStats =>
      refine obeys_bind.mpr (obeys_reset.mono (fun l _ hl => ?_) fun _ _ hE => hE)
      exact ⟨fun _ _ => hl, fun _ => hl⟩
  possible w o choice r w' ha := by
    cases o with
    | inr o => trivial
    | inl o =>
      cases o with
      | incrementCaptured h data =>
        cases choice with
        | done =>
          cases ha
          rfl
        | _ => cases ha
      | _ => trivial

end

section
variable [DecidableEq Handler] {h : Handler} {w w' : World Handler Data}
  {o : Op Handler Data Entity ⊕ StatsOp Handler} {r : GaugeAns Handler Data Entity o}
  {trace : List (GaugeCall Handler Data Entity)}

theorem total_append (moves moves' : List (Handler × ℤ)) :
    total h (moves ++ moves') = total h moves + total h moves' := by
  induction moves with
  | nil => exact (Int.zero_add _).symm
  | cons move moves ih =>
    rw [List.cons_append, total, total, ih]
    omega

theorem total_self (d : ℤ) : total h [(h, d)] = d := by
  rw [total, if_pos rfl]
  exact Int.add_zero d

theorem total_of_ne {h' : Handler} (hne : h' ≠ h) (d : ℤ) : total h [(h', d)] = 0 := by
  rw [total, if_neg hne]
  rfl

private theorem total_perm {moves moves' : List (Handler × ℤ)} (hperm : moves.Perm moves') :
    total h moves = total h moves' := by
  induction hperm with
  | nil => rfl
  | cons move _ ih => rw [total, total, ih]
  | swap move move' moves =>
    simp only [total]
    omega
  | trans _ _ ih ih' => exact ih.trans ih'

/-- What one answered call does to the queues and to the counts. -/
structure Effect (w : World Handler Data) (o : Op Handler Data Entity ⊕ StatsOp Handler)
    (r : GaugeAns Handler Data Entity o) (w' : World Handler Data) : Prop where
  queue : ∀ h, ((w'.raw h).length : ℤ) = total h (moved o r).toList + (w.raw h).length
  count : ∀ h, w'.rawChannelCount h + taken h w o = total h (counted o r).toList + w.rawChannelCount h
  capacity : w'.rawCapacity = w.rawCapacity
  bounded : (∀ h, (w.raw h).length ≤ w.rawCapacity h) → ∀ h, (w'.raw h).length ≤ w.rawCapacity h

/-- The queues and the counts are left. -/
theorem effect_of_same (hraw : w'.raw = w.raw) (hcapacity : w'.rawCapacity = w.rawCapacity)
    (hcount : w'.rawChannelCount = w.rawChannelCount) (hmoved : moved o r = none)
    (hcounted : counted o r = none) (htaken : ∀ h, taken h w o = 0) : Effect w o r w' := by
  refine ⟨fun h => ?_, fun h => ?_, hcapacity, fun hbounded => ?_⟩
  · rw [hmoved, hraw]
    exact (Int.zero_add _).symm
  · rw [hcounted, hcount, htaken h]
    exact Int.add_comm _ _
  · rwa [hraw]

/-- A queue is changed and the rest is left. -/
theorem effect_of_update {d : ℤ} {raw : List (Packet Handler Data)} (hmoved : moved o r = some (h, d))
    (hcounted : counted o r = none) (htaken : ∀ h, taken h w o = 0)
    (hlength : (raw.length : ℤ) = d + (w.raw h).length)
    (hroom : (w.raw h).length ≤ w.rawCapacity h → raw.length ≤ w.rawCapacity h) :
    Effect w o r { w with raw := Function.update w.raw h raw } := by
  refine ⟨fun k => ?_, fun k => ?_, rfl, fun hbounded k => ?_⟩
  · rw [hmoved, Option.toList_some]
    dsimp only
    by_cases hk : h = k
    · subst hk
      rw [total_self, Function.update_self]
      exact hlength
    · rw [total_of_ne hk, Function.update_of_ne (Ne.symm hk)]
      exact (Int.zero_add _).symm
  · rw [hcounted, htaken k]
    exact Int.add_comm _ _
  · dsimp only
    by_cases hk : k = h
    · subst hk
      rw [Function.update_self]
      exact hroom (hbounded k)
    · rw [Function.update_of_ne hk]
      exact hbounded k

theorem effect_of_enqueue {x : Packet Handler Data} (hmoved : moved o r = some (x.handler, 1))
    (hcounted : counted o r = none) (htaken : ∀ h, taken h w o = 0)
    (hroom : (w.raw x.handler).length < w.rawCapacity x.handler) : Effect w o r (w.enqueue x) := by
  refine effect_of_update hmoved hcounted htaken ?_ fun _ => ?_
  · rw [List.length_append, List.length_singleton]
    omega
  · rw [List.length_append, List.length_singleton]
    exact hroom

theorem effect_of_dequeue {x : Packet Handler Data} {raw : List (Packet Handler Data)}
    (hraw : w.raw h = x :: raw) (hmoved : moved o r = some (h, -1)) (hcounted : counted o r = none)
    (htaken : ∀ h, taken h w o = 0) : Effect w o r { w with raw := Function.update w.raw h raw } := by
  refine effect_of_update hmoved hcounted htaken ?_ fun hle => ?_
  · rw [hraw, List.length_cons]
    omega
  · rw [hraw, List.length_cons] at hle
    omega

private theorem effect_of_handle {o : Op Handler Data Entity} {r : Ans Handler Data Entity o}
    {choice : Choice Entity} (ha : answer w o choice = some (r, w')) : Effect w (.inl o) r w' := by
  cases o with
  | addRawChannelCount h d =>
    cases choice with
    | done =>
      cases ha
      refine ⟨fun _ => (Int.zero_add _).symm, fun k => ?_, rfl, fun hbounded => hbounded⟩
      change Function.update w.rawChannelCount h (w.rawChannelCount h + d) k + 0 = total k [(h, d)] + _
      by_cases hk : h = k
      · subst hk
        rw [Function.update_self, total_self]
        omega
      · rw [Function.update_of_ne (Ne.symm hk), total_of_ne hk]
        omega
    | _ => cases ha
  | tryWriteRaw x =>
    cases choice with
    | done =>
      rw [answer] at ha
      split_ifs at ha with hroom
      · cases ha
        exact effect_of_enqueue rfl rfl (fun _ => rfl) (of_decide_eq_true (Bool.and_eq_true_iff.mp hroom).2)
      · cases ha
        exact effect_of_same rfl rfl rfl rfl rfl fun _ => rfl
    | _ => cases ha
  | writeRaw x =>
    cases choice with
    | done =>
      rw [answer] at ha
      split_ifs at ha with _ hroom
      · cases ha
        exact effect_of_same rfl rfl rfl rfl rfl fun _ => rfl
      · cases ha
        exact effect_of_enqueue rfl rfl (fun _ => rfl) hroom
    | _ => cases ha
  | readRaw h =>
    cases choice with
    | done =>
      rw [answer] at ha
      split at ha
      · next x raw hraw =>
        cases ha
        exact effect_of_dequeue hraw rfl rfl fun _ => rfl
      · split_ifs at ha
        cases ha
        exact effect_of_same rfl rfl rfl rfl rfl fun _ => rfl
    | refused =>
      rw [answer] at ha
      split_ifs at ha
      cases ha
      exact effect_of_same rfl rfl rfl rfl rfl fun _ => rfl
    | _ => cases ha
  | tryReadRaw h =>
    cases choice with
    | done =>
      rw [answer] at ha
      split at ha
      · next x raw hraw =>
        cases ha
        exact effect_of_dequeue hraw rfl rfl fun _ => rfl
      · cases ha
        exact effect_of_same rfl rfl rfl rfl rfl fun _ => rfl
    | _ => cases ha
  | complete h =>
    cases choice with
    | done =>
      rw [answer] at ha
      split_ifs at ha <;> cases ha <;> exact effect_of_same rfl rfl rfl rfl rfl fun _ => rfl
    | _ => cases ha
  | _ => cases choice <;> cases ha <;> exact effect_of_same rfl rfl rfl rfl rfl fun _ => rfl

theorem effect_of_answer {choice : Choice Entity} (ha : gaugeAnswer w o choice = some (r, w')) :
    Effect w o r w' := by
  cases o with
  | inl o => exact effect_of_handle ha
  | inr o =>
    cases o with
    | unsubscribeDevice h =>
      cases choice <;> cases ha <;> exact effect_of_same rfl rfl rfl rfl rfl fun _ => rfl
    | exchangeCounter counter =>
      cases choice with
      | done =>
        cases ha
        cases counter <;> exact effect_of_same rfl rfl rfl rfl rfl fun _ => rfl
      | _ => cases ha
    | exchangeRawChannelCount h =>
      cases choice with
      | done =>
        cases ha
        refine ⟨fun _ => (Int.zero_add _).symm, fun k => ?_, rfl, fun hbounded => hbounded⟩
        change Function.update w.rawChannelCount h 0 k + (if h = k then w.rawChannelCount k else 0) =
          0 + w.rawChannelCount k
        by_cases hk : h = k
        · subst hk
          rw [Function.update_self, if_pos rfl]
        · rw [Function.update_of_ne (Ne.symm hk), if_neg hk, Int.add_comm]
      | _ => cases ha

/-- The moves make up the queues, the counts what the handlers' counters and unsubscribing have, and
each thread has counted its moves, but for the last. -/
structure Books (rawCapacity : Handler → ℕ) (w : World Handler Data)
    (trace : List (GaugeCall Handler Data Entity)) : Prop where
  queue : ∀ h, ((w.raw h).length : ℤ) = total h (logged moved trace)
  count : ∀ h, w.rawChannelCount h + zeroed h trace = total h (logged counted trace)
  capacity : w.rawCapacity = rawCapacity
  bounded : ∀ h, (w.raw h).length ≤ w.rawCapacity h
  pending : ∀ i, ∃ l, (∀ request, standing (counting Handler Data Entity) i request trace = l) ∧
    loggedBy moved i trace = l.toList ++ loggedBy counted i trace

private theorem books_idle (rawCapacity : Handler → ℕ) :
    Books rawCapacity (idle rawCapacity : World Handler Data) ([] : List (GaugeCall Handler Data Entity)) where
  queue _ := rfl
  count _ := rfl
  capacity := rfl
  bounded _ := Nat.zero_le _
  pending _ := ⟨none, fun _ => rfl, rfl⟩

variable {i : ℕ} {request : Request Handler Data}

private theorem books_answered {rawCapacity : Handler → ℕ} (h : Books rawCapacity w trace)
    (ha : Answered (gauged Handler Data Entity) (counting Handler Data Entity) w trace i request o r w') :
    Books rawCapacity w' (⟨i, request, o, r, w, w'⟩ :: trace) := by
  obtain ⟨choice, hanswer⟩ := ha.answer
  have heffect : Effect w o r w' := effect_of_answer hanswer
  refine ⟨fun k => ?_, fun k => ?_, heffect.capacity.trans h.capacity, fun k => ?_, fun j => ?_⟩
  · rw [heffect.queue k, logged_cons, total_append, h.queue k]
  · have hcount := heffect.count k
    have hold := h.count k
    rw [logged_cons, total_append, zeroed]
    dsimp only
    omega
  · rw [heffect.capacity]
    exact heffect.bounded h.bounded k
  · obtain ⟨l, hl, hpending⟩ := h.pending j
    by_cases hj : i = j
    · subst hj
      refine ⟨next l o r, fun request' => ?_, ?_⟩
      · rw [standing]
        dsimp only
        rw [if_pos rfl, hl]
        rfl
      · have hallowed : Allows l o := hl request ▸ ha.allowed
        have hcons : ∀ pick : Pick (GaugeAns Handler Data Entity) (Handler × ℤ),
            loggedBy pick i (⟨i, request, o, r, w, w'⟩ :: trace) =
              (pick o r).toList ++ loggedBy pick i trace := fun _ => loggedBy_cons_self rfl
        rw [hcons, hcons, hpending, ← List.append_assoc, pending_next hallowed, List.append_assoc]
    · refine ⟨l, fun request' => ?_, ?_⟩
      · rw [standing_cons_of_ne hj]
        exact hl request'
      · rw [loggedBy_cons_of_ne hj, loggedBy_cons_of_ne hj]
        exact hpending

/-- Where a count, `taken` of it gone, stands for a channel of this length. -/
theorem reported_eq_iff {count taken length : ℤ} (hcount : count + taken = length) (hpos : 0 ≤ length)
    (hlength : length < 2 ^ 31) : (if count ≥ 0 then count.bmod (2 ^ 32) else 0) = length ↔
      taken = 0 ∨ taken < 0 ∧ 2 ^ 32 ∣ taken ∨ 0 < taken ∧ length = 0 := by
  split_ifs with hsign
  · rw [Int.bmod_def]
    split_ifs with hlow
    · omega
    · omega
  · omega

private theorem counted_of_counts {rawCapacity : Handler → ℕ}
    {c : Config (GaugeAns Handler Data Entity) Exn (World Handler Data) (Request Handler Data)}
    (hbooks : Books rawCapacity c.world c.trace) (hkept : Kept (counting Handler Data Entity) c)
    (hcounts : ∀ t ∈ c.threads, counts t = true) :
    (logged moved c.trace).Perm (logged counted c.trace) := by
  apply logged_perm
  intro i
  cases ht : c.threads[i]? with
  | none =>
    rw [loggedBy_of_forall_ne (hkept.no_call ht), loggedBy_of_forall_ne (hkept.no_call ht)]
  | some t =>
    obtain ⟨l, hl, hpending⟩ := hbooks.pending i
    have hholds := hkept.holds i t ht
    rw [hl] at hholds
    rw [hpending, none_of_counts hholds (hcounts t (List.mem_of_getElem? ht))]
    exact List.Perm.refl _

theorem run_books {rawCapacity : Handler → ℕ}
    {events : List (Event (Request Handler Data) (Choice Entity))}
    {c : Config (GaugeAns Handler Data Entity) Exn (World Handler Data) (Request Handler Data)}
    (hrun : (gauged Handler Data Entity).run ((gauged Handler Data Entity).initial (idle rawCapacity) [])
      events = some c) : Books rawCapacity c.world c.trace ∧ Kept (counting Handler Data Entity) c := by
  refine run_keeps (A := fun _ _ => True) follows_gauged (fun w trace choice w' hI hdrift => ?_)
    (fun w trace i request o r w' hI _ ha => books_answered hI ha) (fun _ _ _ _ => trivial)
    (kept_initial follows_gauged _ _) (fun _ _ _ => trivial) (books_idle rawCapacity) hrun
  cases hdrift
  exact ⟨hI.queue, hI.count, hI.capacity, hI.bounded, hI.pending⟩

/-- Any captures, reads, unsubscribes and resets, in any order, where no move is left uncounted. -/
theorem gauge_iff {rawCapacity : Handler → ℕ} (hcapacity : ∀ h, rawCapacity h < 2 ^ 31)
    {events : List (Event (Request Handler Data) (Choice Entity))}
    {c : Config (GaugeAns Handler Data Entity) Exn (World Handler Data) (Request Handler Data)}
    (hrun : (gauged Handler Data Entity).run ((gauged Handler Data Entity).initial (idle rawCapacity) [])
      events = some c) (hcounts : ∀ t ∈ c.threads, counts t = true) (h : Handler) :
    getRawChannelCount c.world h = (c.world.raw h).length ↔
      zeroed h c.trace = 0 ∨ zeroed h c.trace < 0 ∧ 2 ^ 32 ∣ zeroed h c.trace ∨
        0 < zeroed h c.trace ∧ c.world.raw h = [] := by
  obtain ⟨hbooks, hkept⟩ := run_books hrun
  have hcount : c.world.rawChannelCount h + zeroed h c.trace = (c.world.raw h).length := by
    rw [hbooks.count h, hbooks.queue h]
    exact (total_perm (counted_of_counts hbooks hkept hcounts)).symm
  have hlength : (c.world.raw h).length < 2 ^ 31 := by
    have hbounded := hbooks.bounded h
    rw [hbooks.capacity] at hbounded
    have := hcapacity h
    omega
  rw [← List.length_eq_zero_iff, ← Int.natCast_eq_zero]
  apply reported_eq_iff hcount
  · exact Int.natCast_nonneg _
  · omega

end

/-- A packet is captured and read, another captured; unsubscribing when the channel is empty. -/
def unsubscribedEmpty : List (Event (Request Unit ℕ) (Choice ℕ)) :=
  [.arrive (.handle (.onNext () 10)), .arrive (.handle (.worker ())), .arrive (.unsubscribe ()),
    .arrive (.handle (.onNext () 11)), .arrive .resetStats,
    .answer 0 .done, .answer 0 .done, .answer 0 .done,
    .answer 1 .done, .answer 1 .done, .answer 1 .done, .answer 1 .done, .answer 1 (.entity 5),
    .answer 1 .done, .answer 1 .done, .answer 1 .done, .answer 1 .done,
    .answer 2 .done, .answer 2 .done, .answer 2 .done, .answer 2 .done, .answer 2 .done, .answer 2 .done,
    .answer 3 .done, .answer 3 .done, .answer 3 .done,
    .answer 4 .done, .answer 4 .done, .answer 4 .done, .answer 4 .done]

theorem gauge_unsubscribedEmpty :
    ∃ c, (gauged Unit ℕ ℕ).run ((gauged Unit ℕ ℕ).initial (idle fun _ => 8) []) unsubscribedEmpty = some c ∧
      (getRawChannelCount c.world () = (c.world.raw ()).length ↔ zeroed () c.trace = 0 ∨
        zeroed () c.trace < 0 ∧ 2 ^ 32 ∣ zeroed () c.trace ∨ 0 < zeroed () c.trace ∧ c.world.raw () = []) ∧
      zeroed () c.trace = 0 ∧ (c.world.raw ()).length = 1 := by
  obtain ⟨c, hrun, hcounts, hzeroed, hlength⟩ : ∃ c, (gauged Unit ℕ ℕ).run
      ((gauged Unit ℕ ℕ).initial (idle fun _ => 8) []) unsubscribedEmpty = some c ∧
      (∀ t ∈ c.threads, counts t = true) ∧ zeroed () c.trace = 0 ∧ (c.world.raw ()).length = 1 :=
    System.exists_run _ (by decide) (by decide)
  exact ⟨c, hrun, gauge_iff (fun _ => by decide) hrun hcounts (), hzeroed, hlength⟩

/-- Two packets wait when the handler is unsubscribed. -/
def unsubscribedQueued : List (Event (Request Unit ℕ) (Choice ℕ)) :=
  [.arrive (.handle (.onNext () 10)), .arrive (.handle (.onNext () 11)), .arrive (.unsubscribe ()),
    .answer 0 .done, .answer 0 .done, .answer 0 .done, .answer 1 .done, .answer 1 .done, .answer 1 .done,
    .answer 2 .done, .answer 2 .done, .answer 2 .done, .answer 2 .done, .answer 2 .done, .answer 2 .done]

theorem gauge_unsubscribedQueued :
    ∃ c, (gauged Unit ℕ ℕ).run ((gauged Unit ℕ ℕ).initial (idle fun _ => 8) []) unsubscribedQueued = some c ∧
      (∀ t ∈ c.threads, t.Finished) ∧ getRawChannelCount c.world () = 0 ∧ (c.world.raw ()).length = 2 :=
  System.exists_run _ (by decide) (by decide)

end Kanat.RawChannelGauge
