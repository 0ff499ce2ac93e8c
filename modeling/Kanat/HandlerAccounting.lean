import Kanat.HandlerThreads
import Kanat.ThreadLogs
import Mathlib.Algebra.BigOperators.Fin
import Mathlib.Data.Fintype.Basic

/-! # What becomes of the packets a handler captures

`Books` lists where a captured packet can be: queued, in a thread's hands, written, parsed or dropped. One effect
lemma for each call keeps them over every run, and at rest no thread has anything in its hands. -/
namespace Kanat.HandlerService
open ResumptionPrograms InterleavedThreads ThreadLogs

variable {Handler Data Entity : Type}

abbrev PacketPick (Handler Data Entity : Type) :=
  Pick (Ans Handler Data Entity) (Packet Handler Data)

def captures : PacketPick Handler Data Entity
  | .incrementCaptured .., x => some x
  | _, _ => none

/-- Packets put into their raw channel. -/
def queues : PacketPick Handler Data Entity
  | .tryWriteRaw x, true => some x
  | .writeRaw x, .ok () => some x
  | _, _ => none

def reads : PacketPick Handler Data Entity
  | .readRaw _, .ok x => some x
  | .tryReadRaw _, some x => some x
  | _, _ => none

/-- Packets whose entity was written to the parsed channel. -/
def writes : PacketPick Handler Data Entity
  | .tryWriteParsed x _, true => some x
  | .writeParsed x _, .ok () => some x
  | _, _ => none

def parses : PacketPick Handler Data Entity
  | .recordParseSuccess x, _ => some x
  | _, _ => none

def drops : PacketPick Handler Data Entity
  | .recordParseFailure x, _ => some x
  | _, _ => none

abbrev Trace (Handler Data Entity : Type) :=
  List (Call (Ans Handler Data Entity) (World Handler Data) (Request Handler Data))

theorem apart_parses_drops : Apart (parses : PacketPick Handler Data Entity) drops := by
  intro o r
  cases o with
  | recordParseFailure x => exact .inl rfl
  | _ => exact .inr rfl

theorem apart_writes_drops : Apart (writes : PacketPick Handler Data Entity) drops := by
  intro o r
  cases o with
  | recordParseFailure x => exact .inl rfl
  | _ => exact .inr rfl

/-- A thread's own calls, as far as its hands tell. -/
structure Hands (l : Local Handler Data) (i : ℕ) (trace : Trace Handler Data Entity) : Prop where
  captured : loggedBy captures i trace = l.pending.toList ++ loggedBy queues i trace
  read : (loggedBy reads i trace).Perm (l.hand ++
    (loggedBy parses i trace ++ loggedBy drops i trace))
  written : (loggedBy writes i trace).Perm
    ((if l.written then l.hand.head?.toList else []) ++ loggedBy parses i trace)

private theorem hands_other {l : Local Handler Data} {i : ℕ} {trace : Trace Handler Data Entity}
    {c : Call (Ans Handler Data Entity) (World Handler Data) (Request Handler Data)}
    (h : Hands l i trace) (hi : c.thread ≠ i) : Hands l i (c :: trace) := by
  constructor
  · rw [loggedBy_cons_of_ne hi, loggedBy_cons_of_ne hi]
    exact h.captured
  · rw [loggedBy_cons_of_ne hi, loggedBy_cons_of_ne hi, loggedBy_cons_of_ne hi]
    exact h.read
  · rw [loggedBy_cons_of_ne hi, loggedBy_cons_of_ne hi]
    exact h.written

private theorem hands_self {l : Local Handler Data} {i : ℕ} {request : Request Handler Data}
    {trace : Trace Handler Data Entity} {o : Op Handler Data Entity}
    {r : Ans Handler Data Entity o} {w w' : World Handler Data} (h : Hands l i trace)
    (hallowed : l.Allows o) : Hands (l.next o r) i (⟨i, request, o, r, w, w'⟩ :: trace) := by
  have hcons : ∀ pick : PacketPick Handler Data Entity,
      loggedBy pick i (⟨i, request, o, r, w, w'⟩ :: trace) = (pick o r).toList ++ loggedBy pick i trace :=
    fun pick => loggedBy_cons_self rfl
  obtain ⟨hcaptured, hread, hwritten⟩ := h
  refine ⟨?_, ?_, ?_⟩
  · rw [hcons, hcons, hcaptured]
    cases o with
    | incrementCaptured h data =>
      rw [show l.pending = none from hallowed.1]
      rfl
    | tryWriteRaw x =>
      rw [show l.pending = some x from hallowed]
      cases r with
      | true => rfl
      | false => exact congrArg (·.toList ++ _) (Eq.symm hallowed)
    | writeRaw x =>
      rw [show l.pending = some x from hallowed]
      cases r with
      | ok u => rfl
      | error e => exact congrArg (·.toList ++ _) (Eq.symm hallowed)
    | readRaw h => cases r <;> rfl
    | tryReadRaw h => cases r <;> rfl
    | tryWriteParsed x e => cases r <;> rfl
    | writeParsed x e => cases r <;> rfl
    | _ => rfl
  · rw [hcons, hcons, hcons]
    cases o with
    | readRaw h =>
      cases r with
      | ok x =>
        rw [show l.hand = [] from hallowed.2.1] at hread
        exact List.Perm.cons x hread
      | error e => exact hread
    | tryReadRaw h =>
      cases r with
      | none => exact hread
      | some x =>
        refine (List.Perm.cons x hread).trans (List.perm_middle.symm.trans ?_)
        rw [Local.next, List.append_assoc]
        exact List.Perm.refl _
    | recordParseSuccess x =>
      rw [List.eq_cons_of_mem_head? hallowed.1] at hread
      exact hread.trans List.perm_middle.symm
    | recordParseFailure x =>
      rw [List.eq_cons_of_mem_head? hallowed.1, List.cons_append, ← List.append_assoc] at hread
      refine hread.trans (List.perm_middle.symm.trans ?_)
      rw [List.append_assoc]
      exact List.Perm.refl _
    | tryWriteRaw x => cases r <;> exact hread
    | writeRaw x => cases r <;> exact hread
    | tryWriteParsed x e => cases r <;> exact hread
    | writeParsed x e => cases r <;> exact hread
    | _ => exact hread
  · rw [hcons, hcons]
    cases o with
    | readRaw h =>
      have hunwritten : l.written = false := hallowed.2.2
      cases r with
      | ok x => simpa [Local.next, writes, parses, hunwritten] using hwritten
      | error e => exact hwritten
    | tryReadRaw h =>
      have hunwritten : l.written = false := hallowed.2
      cases r with
      | none => exact hwritten
      | some x => simpa [Local.next, writes, parses, hunwritten] using hwritten
    | recordParseSuccess x =>
      have hhead : l.hand.head? = some x := hallowed.1
      have hdone : l.written = true := hallowed.2
      simpa [Local.next, writes, parses, hhead, hdone] using hwritten
    | recordParseFailure x =>
      have hunwritten : l.written = false := hallowed.2
      simpa [Local.next, writes, parses, hunwritten] using hwritten
    | tryWriteParsed x e =>
      have hhead : l.hand.head? = some x := hallowed.1
      have hunwritten : l.written = false := hallowed.2
      cases r with
      | true => simpa [Local.next, writes, parses, hhead, hunwritten] using hwritten
      | false => exact hwritten
    | writeParsed x e =>
      have hhead : l.hand.head? = some x := hallowed.1
      have hunwritten : l.written = false := hallowed.2
      cases r with
      | ok u => simpa [Local.next, writes, parses, hhead, hunwritten] using hwritten
      | error e => exact hwritten
    | tryWriteRaw x => cases r <;> exact hwritten
    | writeRaw x => cases r <;> exact hwritten
    | _ => exact hwritten

/-- What every run keeps. -/
structure Books [DecidableEq Handler] (w : World Handler Data) (trace : Trace Handler Data Entity) :
    Prop where
  captured : (logged captures trace).length = w.captured
  numbered : ∀ x ∈ logged captures trace, x.number < w.captured
  distinct : (logged captures trace).Nodup
  parsed : (logged parses trace).length = w.parsed
  dropped : (logged drops trace).length = w.dropped
  queued : ∀ h, ((logged queues trace).filter (·.handler = h)).Perm
    ((logged reads trace).filter (·.handler = h) ++ w.raw h)
  placed : ∀ h, ∀ x ∈ w.raw h, x.handler = h
  hands : ∀ i, ∃ l, (∀ request, standing (contract Handler Data Entity) i request trace = l) ∧
    Hands l i trace

variable [DecidableEq Handler] {w w' : World Handler Data} {trace : Trace Handler Data Entity}
  {i : ℕ} {request : Request Handler Data} {o : Op Handler Data Entity}
  {r : Ans Handler Data Entity o}

/-- What one answer changes of the world, by what it says. -/
structure Effect (w : World Handler Data) (o : Op Handler Data Entity)
    (r : Ans Handler Data Entity o) (w' : World Handler Data) : Prop where
  captured : w'.captured = (captures o r).toList.length + w.captured
  numbered : ∀ x ∈ captures o r, x.number = w.captured
  parsed : w'.parsed = (parses o r).toList.length + w.parsed
  dropped : w'.dropped = (drops o r).toList.length + w.dropped
  queued : ∀ h, ((queues o r).toList.filter (·.handler = h) ++ w.raw h).Perm
    ((reads o r).toList.filter (·.handler = h) ++ w'.raw h)
  placed : ∀ h, ∀ x ∈ w'.raw h, x.handler = h

/-- Nothing that counts here. -/
theorem effect_of_same (hplaced : ∀ h, ∀ x ∈ w.raw h, x.handler = h) (hraw : w'.raw = w.raw)
    (hcaptured : w'.captured = w.captured) (hparsed : w'.parsed = w.parsed)
    (hdropped : w'.dropped = w.dropped) (hcaptures : captures o r = none)
    (hqueues : queues o r = none) (hreads : reads o r = none) (hparses : parses o r = none)
    (hdrops : drops o r = none) : Effect w o r w' := by
  constructor
  · rw [hcaptures, hcaptured]
    exact (Nat.zero_add _).symm
  · rw [hcaptures]
    nofun
  · rw [hparses, hparsed]
    exact (Nat.zero_add _).symm
  · rw [hdrops, hdropped]
    exact (Nat.zero_add _).symm
  · rw [hqueues, hreads, hraw]
    exact fun h => List.Perm.refl _
  · rwa [hraw]

/-- A packet goes to the end of its handler's queue. -/
theorem effect_of_enqueue {x : Packet Handler Data} (hplaced : ∀ h, ∀ x ∈ w.raw h, x.handler = h)
    (hcaptures : captures o r = none) (hqueues : queues o r = some x) (hreads : reads o r = none)
    (hparses : parses o r = none) (hdrops : drops o r = none) : Effect w o r (w.enqueue x) := by
  constructor
  · rw [hcaptures]
    exact (Nat.zero_add _).symm
  · rw [hcaptures]
    nofun
  · rw [hparses]
    exact (Nat.zero_add _).symm
  · rw [hdrops]
    exact (Nat.zero_add _).symm
  · intro h
    rw [hqueues, hreads]
    dsimp only [World.enqueue]
    by_cases hx : x.handler = h
    · subst hx
      rw [Function.update_self, Option.toList_some, List.filter_singleton, decide_eq_true rfl]
      exact List.perm_append_comm
    · rw [Function.update_of_ne (Ne.symm hx), Option.toList_some, List.filter_singleton,
        decide_eq_false hx]
      exact List.Perm.refl _
  · intro h y hy
    dsimp only [World.enqueue] at hy
    by_cases hx : x.handler = h
    · subst hx
      rw [Function.update_self, List.mem_append, List.mem_singleton] at hy
      rcases hy with hy | rfl
      · exact hplaced _ y hy
      · rfl
    · rw [Function.update_of_ne (Ne.symm hx)] at hy
      exact hplaced h y hy

/-- The first of a handler's queue is taken. -/
theorem effect_of_dequeue {h : Handler} {x : Packet Handler Data} {raw : List (Packet Handler Data)}
    (hplaced : ∀ h, ∀ x ∈ w.raw h, x.handler = h) (hraw : w.raw h = x :: raw)
    (hcaptures : captures o r = none) (hqueues : queues o r = none) (hreads : reads o r = some x)
    (hparses : parses o r = none) (hdrops : drops o r = none) :
    Effect w o r { w with raw := Function.update w.raw h raw } := by
  have hx : x.handler = h := hplaced h x (hraw ▸ List.mem_cons_self)
  constructor
  · rw [hcaptures]
    exact (Nat.zero_add _).symm
  · rw [hcaptures]
    nofun
  · rw [hparses]
    exact (Nat.zero_add _).symm
  · rw [hdrops]
    exact (Nat.zero_add _).symm
  · intro k
    rw [hqueues, hreads, Option.toList_some, List.filter_singleton]
    dsimp only
    by_cases hk : k = h
    · subst hk
      rw [Function.update_self, hraw, decide_eq_true hx]
      exact List.Perm.refl _
    · rw [Function.update_of_ne hk, decide_eq_false fun hxk => hk (hxk.symm.trans hx)]
      exact List.Perm.refl _
  · intro k y hy
    dsimp only at hy
    by_cases hk : k = h
    · subst hk
      rw [Function.update_self] at hy
      exact hplaced k y (hraw ▸ List.mem_cons_of_mem x hy)
    · rw [Function.update_of_ne hk] at hy
      exact hplaced k y hy

theorem effect_of_answer (hplaced : ∀ h, ∀ x ∈ w.raw h, x.handler = h) {choice : Choice Entity}
    (ha : answer w o choice = some (r, w')) : Effect w o r w' := by
  cases o with
  | incrementCaptured h data =>
    cases choice <;> cases ha
    refine ⟨Nat.add_comm .., fun x hx => ?_, (Nat.zero_add _).symm, (Nat.zero_add _).symm,
      fun k => List.Perm.refl _, hplaced⟩
    cases hx
    rfl
  | recordParseSuccess x =>
    cases choice <;> cases ha
    exact ⟨(Nat.zero_add _).symm, nofun, Nat.add_comm .., (Nat.zero_add _).symm,
      fun k => List.Perm.refl _, hplaced⟩
  | recordParseFailure x =>
    cases choice <;> cases ha
    exact ⟨(Nat.zero_add _).symm, nofun, (Nat.zero_add _).symm, Nat.add_comm ..,
      fun k => List.Perm.refl _, hplaced⟩
  | tryWriteRaw x =>
    cases choice with
    | done =>
      rw [answer] at ha
      split_ifs at ha
      · cases ha
        exact effect_of_enqueue hplaced rfl rfl rfl rfl rfl
      · cases ha
        exact effect_of_same hplaced rfl rfl rfl rfl rfl rfl rfl rfl rfl
    | _ => cases ha
  | writeRaw x =>
    cases choice with
    | done =>
      rw [answer] at ha
      split_ifs at ha
      · cases ha
        exact effect_of_same hplaced rfl rfl rfl rfl rfl rfl rfl rfl rfl
      · cases ha
        exact effect_of_enqueue hplaced rfl rfl rfl rfl rfl
    | _ => cases ha
  | complete h =>
    cases choice with
    | done =>
      rw [answer] at ha
      split_ifs at ha <;> cases ha <;>
        exact effect_of_same hplaced rfl rfl rfl rfl rfl rfl rfl rfl rfl
    | _ => cases ha
  | readRaw h =>
    cases choice with
    | done =>
      rw [answer] at ha
      split at ha
      · next x raw hraw =>
        cases ha
        exact effect_of_dequeue hplaced hraw rfl rfl rfl rfl rfl
      · split_ifs at ha
        cases ha
        exact effect_of_same hplaced rfl rfl rfl rfl rfl rfl rfl rfl rfl
    | refused =>
      rw [answer] at ha
      split_ifs at ha
      cases ha
      exact effect_of_same hplaced rfl rfl rfl rfl rfl rfl rfl rfl rfl
    | _ => cases ha
  | tryReadRaw h =>
    cases choice with
    | done =>
      rw [answer] at ha
      split at ha
      · next x raw hraw =>
        cases ha
        exact effect_of_dequeue hplaced hraw rfl rfl rfl rfl rfl
      · cases ha
        exact effect_of_same hplaced rfl rfl rfl rfl rfl rfl rfl rfl rfl
    | _ => cases ha
  | _ =>
    cases choice <;> cases ha <;> exact effect_of_same hplaced rfl rfl rfl rfl rfl rfl rfl rfl rfl

private theorem books_step (h : Books w trace)
    (ha : Answered (handlers Handler Data Entity) (contract Handler Data Entity) w trace i request o
      r w') : Books w' (⟨i, request, o, r, w, w'⟩ :: trace) := by
  have hcons : ∀ pick : PacketPick Handler Data Entity,
      logged pick (⟨i, request, o, r, w, w'⟩ :: trace) = (pick o r).toList ++ logged pick trace :=
    fun pick => logged_cons
  obtain ⟨choice, hchoice⟩ : ∃ choice, answer w o choice = some (r, w') := ha.answer
  have heffect := effect_of_answer h.placed hchoice
  constructor
  · rw [hcons, List.length_append, h.captured, heffect.captured]
  · intro x hx
    rw [heffect.captured]
    rw [hcons, List.mem_append] at hx
    rcases hx with hx | hx
    · have hx := Option.mem_toList.mp hx
      rw [heffect.numbered x hx, Option.mem_def.mp hx]
      exact Nat.lt_add_of_pos_left Nat.one_pos
    · exact Nat.lt_of_lt_of_le (h.numbered x hx) (Nat.le_add_left ..)
  · rw [hcons, List.nodup_append]
    refine ⟨?_, h.distinct, fun x hx y hy hxy => ?_⟩
    · cases captures o r with
      | none => exact List.nodup_nil
      | some x => exact List.nodup_singleton x
    · subst hxy
      have := h.numbered x hy
      rw [heffect.numbered x (Option.mem_toList.mp hx)] at this
      exact Nat.lt_irrefl _ this
  · rw [hcons, List.length_append, h.parsed, heffect.parsed]
  · rw [hcons, List.length_append, h.dropped, heffect.dropped]
  · intro k
    rw [hcons, hcons, List.filter_append, List.filter_append, List.append_assoc]
    refine ((h.queued k).append_left _).trans ?_
    rw [← List.append_assoc]
    refine (List.perm_append_comm.append_right _).trans ?_
    rw [List.append_assoc]
    refine ((heffect.queued k).append_left _).trans ?_
    rw [← List.append_assoc, ← List.append_assoc]
    exact List.perm_append_comm.append_right _
  · exact heffect.placed
  · intro j
    obtain ⟨l, hl, hhands⟩ := h.hands j
    by_cases hij : i = j
    · subst hij
      refine ⟨l.next o r, fun request' => ?_, hands_self hhands (hl request ▸ ha.allowed)⟩
      rw [standing_cons_self, hl]
      rfl
    · refine ⟨l, fun request' => ?_, hands_other hhands hij⟩
      rw [standing_cons_of_ne hij, hl]

def completions : Pick (Ans Handler Data Entity) Handler
  | .complete h, .ok () => some h
  | _, _ => none

/-- The handler a call captures for. -/
def Op.captureOf : Op Handler Data Entity → Option Handler
  | .incrementCaptured h _ => some h
  | .tryWriteRaw x | .writeRaw x => some x.handler
  | _ => none

/-- No capture goes on after its handler's `OnCompleted`. -/
def BeforeCompletion (c : Call (Ans Handler Data Entity) (World Handler Data) (Request Handler Data))
    (earlier : Trace Handler Data Entity) : Prop :=
  ∀ h ∈ c.op.captureOf, h ∉ logged completions earlier

instance (c : Call (Ans Handler Data Entity) (World Handler Data) (Request Handler Data))
    (earlier : Trace Handler Data Entity) : Decidable (BeforeCompletion c earlier) :=
  match hc : c.op.captureOf with
  | none => .isTrue fun h hh => nomatch hc ▸ hh
  | some h => decidable_of_iff (h ∉ logged completions earlier) <| by
      rw [BeforeCompletion, hc]
      exact ⟨fun hh k hk => Option.mem_some.mp hk ▸ hh, fun hh => hh h rfl⟩

/-- Only `OnCompleted` closes a channel, and no capture has met a closed one. -/
structure Open (w : World Handler Data) (trace : Trace Handler Data Entity) : Prop where
  completed : ∀ h, w.completed h = true → h ∈ logged completions trace
  unrefused : ∀ i request, (standing (contract Handler Data Entity) i request trace).refused = false

private theorem completed_of_answer {choice : Choice Entity} (ha : answer w o choice = some (r, w'))
    (h : Handler) (hcompleted : w'.completed h = true) :
    h ∈ completions o r ∨ w.completed h = true := by
  cases o with
  | complete k =>
    cases choice with
    | done =>
      rw [answer] at ha
      split_ifs at ha
      · cases ha
        exact .inr hcompleted
      · cases ha
        dsimp only at hcompleted
        by_cases hk : h = k
        · exact .inl (hk ▸ rfl)
        · rw [Function.update_of_ne hk] at hcompleted
          exact .inr hcompleted
    | _ => cases ha
  | tryWriteRaw x =>
    cases choice with
    | done =>
      rw [answer] at ha
      split_ifs at ha <;> cases ha <;> exact .inr hcompleted
    | _ => cases ha
  | writeRaw x =>
    cases choice with
    | done =>
      rw [answer] at ha
      split_ifs at ha <;> cases ha <;> exact .inr hcompleted
    | _ => cases ha
  | readRaw k =>
    cases choice with
    | done =>
      rw [answer] at ha
      split at ha
      · cases ha
        exact .inr hcompleted
      · split_ifs at ha
        cases ha
        exact .inr hcompleted
    | refused =>
      rw [answer] at ha
      split_ifs at ha
      cases ha
      exact .inr hcompleted
    | _ => cases ha
  | tryReadRaw k =>
    cases choice with
    | done =>
      rw [answer] at ha
      split at ha <;> cases ha <;> exact .inr hcompleted
    | _ => cases ha
  | _ => cases choice <;> cases ha <;> exact .inr hcompleted

/-- A write waits for room; only a completed channel refuses it. -/
theorem completed_of_refused {x : Packet Handler Data} {e : Exn} {choice : Choice Entity}
    (ha : answer w (.writeRaw x : Op Handler Data Entity) choice = some (.error e, w')) :
    w.completed x.handler = true := by
  cases choice with
  | done =>
    rw [answer] at ha
    split_ifs at ha with hcompleted
    · exact hcompleted
    · cases ha
  | _ => cases ha

omit [DecidableEq Handler] in
private theorem refused_next {l : Local Handler Data} (hl : l.refused = false)
    (hr : ∀ x e, ¬(⟨o, r⟩ : Σ o, Ans Handler Data Entity o) = ⟨.writeRaw x, .error e⟩) :
    (l.next o r).refused = false := by
  cases o with
  | writeRaw x =>
    cases r with
    | ok u => exact hl
    | error e => exact absurd rfl (hr x e)
  | tryWriteRaw x => cases r <;> exact hl
  | readRaw h => cases r <;> exact hl
  | tryReadRaw h => cases r <;> exact hl
  | tryWriteParsed x e => cases r <;> exact hl
  | writeParsed x e => cases r <;> exact hl
  | _ => exact hl

private theorem open_step (h : Open w trace)
    (hbefore : BeforeCompletion ⟨i, request, o, r, w, w'⟩ trace)
    (ha : Answered (handlers Handler Data Entity) (contract Handler Data Entity) w trace i request o
      r w') : Open w' (⟨i, request, o, r, w, w'⟩ :: trace) := by
  obtain ⟨choice, hchoice⟩ : ∃ choice, answer w o choice = some (r, w') := ha.answer
  constructor
  · intro k hk
    rw [logged_cons, List.mem_append, Option.mem_toList]
    exact (completed_of_answer hchoice k hk).imp_right (h.completed k)
  · intro j request'
    by_cases hij : i = j
    · subst hij
      rw [standing_cons_self]
      refine refused_next (h.unrefused i request') fun x e heq => ?_
      cases heq
      exact hbefore x.handler rfl (h.completed _ (completed_of_refused hchoice))
    · rw [standing_cons_of_ne hij]
      exact h.unrefused j request'

theorem run_books {rawCapacity : Handler → ℕ} {events : List (Event (Request Handler Data) (Choice Entity))}
    {c : Config (Ans Handler Data Entity) Exn (World Handler Data) (Request Handler Data)}
    (hrun : (handlers Handler Data Entity).run
      ((handlers Handler Data Entity).initial (idle rawCapacity) []) events = some c) :
    (Books c.world c.trace ∧ (EachCall BeforeCompletion c.trace → Open c.world c.trace)) ∧
      Kept (contract Handler Data Entity) c := by
  refine run_keeps follows (A := fun _ _ => True)
    (I := fun w trace => Books w trace ∧ (EachCall BeforeCompletion trace → Open w trace))
    (fun w trace choice w' h hdrift => ?_) (fun w trace i request o r w' h _ ha => ?_)
    (fun _ _ _ _ => trivial) (kept_initial follows _ _) (fun _ _ _ => trivial) ?_ hrun
  · cases hdrift
    obtain ⟨hbooks, hopen⟩ := h
    exact ⟨⟨hbooks.captured, hbooks.numbered, hbooks.distinct, hbooks.parsed, hbooks.dropped,
      hbooks.queued, hbooks.placed, hbooks.hands⟩,
      fun hbefore => ⟨(hopen hbefore).completed, (hopen hbefore).unrefused⟩⟩
  · exact ⟨books_step h.1 ha, fun hbefore => open_step (h.2 hbefore.2) hbefore.1 ha⟩
  · refine ⟨⟨rfl, nofun, List.nodup_nil, rfl, rfl, fun h => List.Perm.refl _, nofun, fun i =>
      ⟨{}, fun _ => rfl, rfl, List.Perm.refl _, List.Perm.refl _⟩⟩, fun _ => ⟨nofun, fun i request => rfl⟩⟩

/-- What holds handler by handler holds altogether. -/
theorem subperm_of_filter {l l' : List (Packet Handler Data)}
    (h : ∀ k, (l.filter (·.handler = k)).Subperm (l'.filter (·.handler = k))) : l.Subperm l' := by
  classical
  rw [List.subperm_ext_iff]
  intro x _
  have hx := (h x.handler).count_le x
  rwa [List.count_filter (by simp), List.count_filter (by simp)] at hx

theorem sum_length_filter [Fintype Handler] (l : List (Packet Handler Data)) :
    ∑ h, (l.filter (·.handler = h)).length = l.length := by
  induction l with
  | nil => exact Finset.sum_const_zero
  | cons x l ih =>
    have hcons : ∀ h, ((x :: l).filter (·.handler = h)).length =
        (if x.handler = h then 1 else 0) + (l.filter (·.handler = h)).length := by
      intro h
      rw [List.filter_cons]
      by_cases hx : x.handler = h
      · rw [if_pos (decide_eq_true hx), if_pos hx, List.length_cons, Nat.add_comm]
      · rw [if_neg (by simpa using hx), if_neg hx, Nat.zero_add]
    rw [Finset.sum_congr rfl fun h _ => hcons h, Finset.sum_add_distrib, ih, Finset.sum_ite_eq,
      if_pos (Finset.mem_univ _), List.length_cons, Nat.add_comm]

/-- What is so at every point: packets are told apart, each is parsed or dropped at most once, what is
parsed was written before, and nothing is written twice or both written and dropped. -/
structure Accounted (w : World Handler Data) (trace : Trace Handler Data Entity) : Prop where
  captured : w.captured = (logged captures trace).length
  parsed : w.parsed = (logged parses trace).length
  dropped : w.dropped = (logged drops trace).length
  distinct : (logged captures trace).Nodup
  settled : (logged parses trace ++ logged drops trace).Subperm (logged captures trace)
  forwarded : (logged writes trace ++ logged drops trace).Subperm (logged captures trace)
  written : (logged parses trace).Subperm (logged writes trace)

/-- What is so where no thread is in the middle of its work. -/
structure Settled [Fintype Handler] (w : World Handler Data) (trace : Trace Handler Data Entity) :
    Prop where
  captured : ∀ h, ((logged captures trace).filter (·.handler = h)).Perm
    ((logged parses trace ++ logged drops trace).filter (·.handler = h) ++ w.raw h)
  written : (logged writes trace).Perm (logged parses trace)
  balance : w.captured = w.parsed + w.dropped + ∑ h, (w.raw h).length
  forwarded : w.parsed = (logged writes trace).length

/-- The thread has ended, or is about to begin a capture, a completion or a turn of its loop, or waits
for a packet. -/
def Resting (t : Thread (Ans Handler Data Entity) Exn (Request Handler Data)) : Prop :=
  match t.rest with
  | .ret _ | .raise _ => True
  | .call o _ => match o with
    | .incrementCaptured .. | .complete _ | .isCancellationRequested | .readRaw _ => True
    | _ => False

instance (t : Thread (Ans Handler Data Entity) Exn (Request Handler Data)) :
    Decidable (Resting t) :=
  match t with
  | ⟨_, .ret _⟩ | ⟨_, .raise _⟩ => .isTrue trivial
  | ⟨_, .call (.incrementCaptured ..) _⟩ | ⟨_, .call (.complete _) _⟩
  | ⟨_, .call .isCancellationRequested _⟩ | ⟨_, .call (.readRaw _) _⟩ => .isTrue trivial
  | ⟨_, .call (.tryWriteRaw _) _⟩ | ⟨_, .call .incrementBackpressure _⟩
  | ⟨_, .call (.writeRaw _) _⟩ | ⟨_, .call (.addRawChannelCount ..) _⟩
  | ⟨_, .call (.tryReadRaw _) _⟩ | ⟨_, .call (.parse _) _⟩ | ⟨_, .call (.transmit ..) _⟩
  | ⟨_, .call (.tryWriteParsed ..) _⟩ | ⟨_, .call (.writeParsed ..) _⟩
  | ⟨_, .call .incrementParsedChannelCount _⟩ | ⟨_, .call (.recordParseSuccess _) _⟩
  | ⟨_, .call (.recordParseFailure _) _⟩ => .isFalse id

theorem reads_subperm (h : Books w trace) : (logged reads trace).Subperm (logged captures trace) := by
  have hqueued : (logged reads trace).Subperm (logged queues trace) :=
    subperm_of_filter fun k =>
      ((List.sublist_append_left _ _).subperm).trans (h.queued k).symm.subperm
  refine hqueued.trans (logged_subperm fun i => ?_)
  obtain ⟨l, _, hhands⟩ := h.hands i
  rw [hhands.captured]
  exact (List.sublist_append_right _ _).subperm

private theorem accounted_of_books (h : Books w trace) : Accounted w trace where
  captured := h.captured.symm
  parsed := h.parsed.symm
  dropped := h.dropped.symm
  distinct := h.distinct
  settled := by
    refine (logged_either apart_parses_drops).symm.subperm.trans
      ((logged_subperm fun i => ?_).trans (reads_subperm h))
    obtain ⟨l, _, hhands⟩ := h.hands i
    refine (loggedBy_either apart_parses_drops).subperm.trans ?_
    exact (List.sublist_append_right _ _).subperm.trans hhands.read.symm.subperm
  forwarded := by
    refine (logged_either apart_writes_drops).symm.subperm.trans
      ((logged_subperm fun i => ?_).trans (reads_subperm h))
    obtain ⟨l, _, hhands⟩ := h.hands i
    refine (loggedBy_either apart_writes_drops).subperm.trans ?_
    refine (hhands.written.append_right _).subperm.trans ?_
    rw [List.append_assoc]
    refine List.Subperm.trans ?_ hhands.read.symm.subperm
    refine List.Sublist.subperm (List.Sublist.append_right ?_ _)
    split_ifs
    · cases l.hand with
      | nil => exact List.nil_sublist _
      | cons x hand => exact List.singleton_sublist.mpr List.mem_cons_self
    · exact List.nil_sublist _
  written := by
    refine logged_subperm fun i => ?_
    obtain ⟨l, _, hhands⟩ := h.hands i
    exact (List.sublist_append_right _ _).subperm.trans hhands.written.symm.subperm

omit [DecidableEq Handler] in
/-- A thread that rests has nothing in its hands. -/
theorem rests {l : Local Handler Data} {t : Thread (Ans Handler Data Entity) Exn (Request Handler Data)}
    (hholds : (contract Handler Data Entity).Holds t.rest l) (hrests : Resting t)
    (hunrefused : l.refused = false) : l.pending = none ∧ l.hand = [] := by
  obtain ⟨request, rest⟩ := t
  cases rest with
  | ret next =>
    cases next with
    | none => exact ⟨(hholds.2 rfl).1, (hholds.2 rfl).2.1⟩
    | some r => exact ⟨(hholds.1 r rfl).1, (hholds.1 r rfl).2.1⟩
  | raise e => exact ⟨hholds.2 hunrefused, hholds.1⟩
  | call o k =>
    have hallowed := hholds.1
    cases o with
    | incrementCaptured h data => exact ⟨hallowed.1, hallowed.2.1⟩
    | complete h => exact ⟨hallowed.1, hallowed.2.1⟩
    | isCancellationRequested => exact ⟨hallowed.1, hallowed.2.1⟩
    | readRaw h => exact ⟨hallowed.1, hallowed.2.1⟩
    | _ => cases hrests

/-- Where every thread rests, no thread has anything in its hands. -/
theorem hands_of_resting {c : Config (Ans Handler Data Entity) Exn (World Handler Data) (Request Handler Data)}
    (hbooks : Books c.world c.trace) (hopen : Open c.world c.trace)
    (hkept : Kept (contract Handler Data Entity) c) (hresting : ∀ t ∈ c.threads, Resting t) (i : ℕ) :
    ∃ l, l.pending = none ∧ l.hand = [] ∧ Hands l i c.trace := by
  obtain ⟨l, hl, hhands⟩ := hbooks.hands i
  cases ht : c.threads[i]? with
  | none =>
    have hnil : ∀ pick : PacketPick Handler Data Entity, loggedBy pick i c.trace = [] :=
      fun pick => loggedBy_of_forall_ne (hkept.no_call ht)
    refine ⟨{}, rfl, rfl, ?_, ?_, ?_⟩
    · rw [hnil, hnil]
      rfl
    · rw [hnil, hnil, hnil]
      exact List.Perm.refl _
    · rw [hnil, hnil]
      exact List.Perm.refl _
  | some t =>
    have hrests := rests (hkept.holds i t ht) (hresting t (List.mem_of_getElem? ht))
      (hopen.unrefused i t.request)
    rw [hl] at hrests
    exact ⟨l, hrests.1, hrests.2, hhands⟩

private theorem settled_of_resting [Fintype Handler]
    {c : Config (Ans Handler Data Entity) Exn (World Handler Data) (Request Handler Data)}
    (hbooks : Books c.world c.trace) (hopen : Open c.world c.trace)
    (hkept : Kept (contract Handler Data Entity) c) (hresting : ∀ t ∈ c.threads, Resting t) :
    Settled c.world c.trace := by
  have hhands := hands_of_resting hbooks hopen hkept hresting
  have hqueues : (logged captures c.trace).Perm (logged queues c.trace) := by
    refine logged_perm fun i => ?_
    obtain ⟨l, hpending, _, hhands⟩ := hhands i
    rw [hhands.captured, hpending]
    exact List.Perm.refl _
  have hreads : (logged reads c.trace).Perm (logged parses c.trace ++ logged drops c.trace) := by
    refine (logged_perm fun i => ?_).trans (logged_either apart_parses_drops)
    obtain ⟨l, _, hhand, hhands⟩ := hhands i
    have hread := hhands.read
    rw [hhand] at hread
    exact hread.trans (loggedBy_either apart_parses_drops).symm
  have hwritten : (logged writes c.trace).Perm (logged parses c.trace) := by
    refine logged_perm fun i => ?_
    obtain ⟨l, _, hhand, hhands⟩ := hhands i
    have hwritten := hhands.written
    rw [hhand] at hwritten
    split_ifs at hwritten <;> exact hwritten
  have hcaptured : ∀ h, ((logged captures c.trace).filter (·.handler = h)).Perm
      ((logged parses c.trace ++ logged drops c.trace).filter (·.handler = h) ++ c.world.raw h) :=
    fun h => (hqueues.filter _).trans ((hbooks.queued h).trans ((hreads.filter _).append_right _))
  refine ⟨hcaptured, hwritten, ?_, ?_⟩
  · calc c.world.captured
        = ∑ h, ((logged captures c.trace).filter (·.handler = h)).length := by
          rw [sum_length_filter, hbooks.captured]
      _ = ∑ h, (((logged parses c.trace ++ logged drops c.trace).filter (·.handler = h)).length +
            (c.world.raw h).length) :=
          Finset.sum_congr rfl fun h _ => by rw [(hcaptured h).length_eq, List.length_append]
      _ = c.world.parsed + c.world.dropped + ∑ h, (c.world.raw h).length := by
          rw [Finset.sum_add_distrib, sum_length_filter, List.length_append, hbooks.parsed,
            hbooks.dropped]
  · rw [hwritten.length_eq, hbooks.parsed]

/-- Any captures, workers, parses, forwards and cancellation, in any order. -/
theorem packets_accounted [Fintype Handler] {rawCapacity : Handler → ℕ}
    {events : List (Event (Request Handler Data) (Choice Entity))}
    {c : Config (Ans Handler Data Entity) Exn (World Handler Data) (Request Handler Data)}
    (hrun : (handlers Handler Data Entity).run
      ((handlers Handler Data Entity).initial (idle rawCapacity) []) events = some c)
    (hbefore : EachCall BeforeCompletion c.trace) :
    Accounted c.world c.trace ∧
      ((∀ t ∈ c.threads, Resting t) → Settled c.world c.trace) := by
  obtain ⟨⟨hbooks, hopen⟩, hkept⟩ := run_books hrun
  exact ⟨accounted_of_books hbooks, settled_of_resting hbooks (hopen hbefore) hkept⟩

/-- Thread 0 captures a packet, the worker reads and forwards it; the worker is cancelled while it
forwards the packet of thread 2, and another one, captured before completion, is never read. -/
def cancelledForward : List (Event (Request Unit ℕ) (Choice ℕ)) :=
  [.arrive (.onNext () 10), .arrive (.worker ()), .arrive (.onNext () 11), .arrive (.onNext () 12),
    .arrive (.onCompleted ()),
    .answer 0 .done, .answer 0 .done, .answer 0 .done,
    .answer 1 .done, .answer 1 .done, .answer 1 .done, .answer 1 .done, .answer 1 (.entity 5),
    .answer 1 .done, .answer 1 .done, .answer 1 .done, .answer 1 .done, .again 1,
    .answer 2 .done, .answer 2 .done, .answer 2 .done,
    .answer 1 .done, .answer 1 .done, .answer 1 .done, .answer 1 .done,
    .answer 3 .done, .answer 3 .done, .answer 3 .done, .answer 4 .done, .drift .done,
    .answer 1 (.entity 6), .answer 1 .done, .answer 1 .refused, .answer 1 .done,
    .answer 1 (.raises .canceled), .answer 1 .done, .again 1, .answer 1 .done]

theorem packets_accounted_cancelledForward :
    ∃ c, (handlers Unit ℕ ℕ).run ((handlers Unit ℕ ℕ).initial (idle fun _ => 1) [])
      cancelledForward = some c ∧ Accounted c.world c.trace ∧ Settled c.world c.trace ∧
      (c.world.captured, c.world.parsed, c.world.dropped, (c.world.raw ()).length) = (3, 1, 1, 1) := by
  obtain ⟨c, hrun, hbefore, hresting, hcounts⟩ : ∃ c, (handlers Unit ℕ ℕ).run
      ((handlers Unit ℕ ℕ).initial (idle fun _ => 1) []) cancelledForward = some c ∧
      EachCall BeforeCompletion c.trace ∧ (∀ t ∈ c.threads, Resting t) ∧
      (c.world.captured, c.world.parsed, c.world.dropped, (c.world.raw ()).length) = (3, 1, 1, 1) :=
    System.exists_run _ (by decide) (by decide)
  obtain ⟨haccounted, hsettled⟩ := packets_accounted hrun hbefore
  exact ⟨c, hrun, haccounted, hsettled hresting, hcounts⟩

end Kanat.HandlerService