import Kanat.DetectionService

/-! # What each thread of the Detection Service may do, and when

What a thread has called so far is summed up in a `Local`, and what that allows it next is its contract. The calls and
the worker are shown to keep to it by their programs' structure. -/
namespace Kanat.DetectionService
open ResumptionPrograms InterleavedThreads

variable {Id View : Type}

/-- What one thread's calls so far tell of it. -/
structure Local (Id View : Type) where
  request : Request Id
  /-- The Run a worker was started for. -/
  works : Option ℕ := none
  looped : Bool := false
  /-- It has seen its Run asked to end, and is to stop its loop. -/
  mustStop : Bool := false
  publishing : Bool := false
  released : Bool := false
  readied : Bool := false
  ended : Bool := false
  /-- The Run a call has started or found, and its Session. -/
  found : Option (ℕ × Id) := none
  awaited : Bool := false
  seen : Option (Run Id View) := none

namespace Local

def next (l : Local Id View) : (o : Op Id View) → Ans Id View o → Local Id View
  | .begin, (run, _) => { l with works := some run }
  | .publishLoop _, ending => { l with looped := true, mustStop := ending }
  | .stop _, _ => { l with mustStop := false }
  | .openPublisher _, opened => { l with publishing := opened.isOk }
  | .closePublisher _, _ => { l with publishing := false }
  | .release _, _ => { l with released := true }
  | .setReady _, _ => { l with readied := true }
  | .setEnded _, _ => { l with ended := true }
  | .claim session _, .ok run => { l with found := some (run, session) }
  | .find, some found => { l with found := some found }
  | .waitEnded _, _ => { l with awaited := true }
  | .read _, run => { l with seen := some run }
  | _, _ => l

/-- It works on the Run, with no stop of its loop to make first. -/
structure Works (l : Local Id View) (run : ℕ) : Prop where
  works : l.works = some run
  mustStop : l.mustStop = false

/-- It has begun nothing as a worker. -/
structure Fresh (l : Local Id View) : Prop where
  publishing : l.publishing = false
  released : l.released = false
  readied : l.readied = false
  looped : l.looped = false
  ended : l.ended = false

def Found (l : Local Id View) (run : ℕ) : Prop :=
  ∃ session, l.found = some (run, session)

/-- It has no Run yet. -/
def Free (l : Local Id View) : Prop :=
  l.works = none ∧ l.found = none

def AllowsReply (l : Local Id View) (reply : Reply Id View) : Prop :=
  match l.request with
  | .start session _ => reply.status = 200 → ∃ run ∈ l.seen, reply.body = .run run.view ∧
      run.state = .watching ∧ ∃ i, l.found = some (i, session)
  | .endRun session => reply.status = 200 → l.awaited = true ∧ ∃ i, l.found = some (i, session)
  | _ => True

def Allows (l : Local Id View) : Op Id View → Prop
  | .status | .claim .. | .find | .begin => l.Free
  | .waitReady run | .read run | .enterEnding run | .waitEnding run | .waitEnded run => l.Found run
  | .stop run => l.works = some run ∨ l.Found run
  | .answer reply => l.AllowsReply reply
  | .openStream run _ => l.Works run
  | .publishLoop run => l.Works run ∧ l.publishing = false ∧ l.released = false
  | .openPublisher run =>
      l.Works run ∧ l.looped = true ∧ l.publishing = false ∧ l.released = false
  | .baseline run | .looks run | .closePublisher run | .fail run _ => l.Works run
  | .enterWatching run _ _ => l.Works run ∧ l.looped = true
  | .release run => l.Works run ∧ l.publishing = false
  | .setReady run => l.Works run
  | .setEnded run => l.Works run ∧ l.readied = true ∧ l.released = true

/-- A worker that is done has ended its Run. -/
def Done (l : Local Id View) : Prop :=
  l.works ≠ none → l.ended = true

end Local

def contract : Contract (Ans Id View) (Request Id) (Local Id View) where
  allowed := Local.Allows
  possible _ _ := True
  next := Local.next
  start request := { request := request }
  Ready l request := l = { request := request }
  Returned := Local.Done
  Raised _ := False

variable {α : Type} {l : Local Id View} {run : ℕ} {session : Id}
  {E : Local Id View → Exn → Prop}

section
variable {o : Op Id View} {r : Ans Id View o}

theorem next_works (h : o ≠ .begin) : (contract.next l o r).works = l.works := by
  cases o with
  | begin => exact absurd rfl h
  | claim => cases r <;> rfl
  | find => cases r <;> rfl
  | _ => rfl

end

theorem standing_request {i : ℕ} {request : Request Id}
    {trace : List (Call (Ans Id View) (World Id View) (Request Id))} :
    (standing contract i request trace).request = request := by
  induction trace with
  | nil => rfl
  | cons c trace ih =>
    rcases c with ⟨j, request', o, r, w, w'⟩
    by_cases hij : j = i
    · subst hij
      rw [standing_cons_self]
      cases o with
      | claim => cases r <;> exact ih
      | find => cases r <;> exact ih
      | _ => exact ih
    · rw [standing_cons_of_ne hij]
      exact ih

theorem obeys_op {o : Op Id View} {Q : Local Id View → Ans Id View o → Prop} (h : l.Allows o)
    (hQ : ∀ r, Q (l.next o r) r) : Obeys contract.toMonitor Q E (perform o) l :=
  obeys_call h hQ

/-- What ending its Run leaves of a call. -/
structure Local.Same (l l' : Local Id View) : Prop where
  request : l'.request = l.request
  found : l'.found = l.found
  works : l'.works = l.works

theorem obeys_endRun {Q : Local Id View → Unit → Prop} (hfound : l.Found run)
    (hQ : ∀ l', l.Same l' → l'.awaited = true → Q l' ()) :
    Obeys contract.toMonitor Q E (endRun run) l := by
  have hwait : ∀ l', l.Same l' →
      Obeys contract.toMonitor Q E (perform (.waitEnded run)) l' := by
    intro l' h
    refine obeys_op ?_ fun _ => hQ _ ⟨h.request, h.found, h.works⟩ rfl
    rwa [Local.Allows, Local.Found, h.found]
  refine obeys_bind.mpr (obeys_op (o := .enterEnding run) hfound fun was => ?_)
  split_ifs with hwas
  · refine obeys_bind.mpr (obeys_bind.mpr (obeys_op (o := .waitEnding run) hfound fun ended => ?_))
    cases ended with
    | true => exact hwait l ⟨rfl, rfl, rfl⟩
    | false =>
      exact obeys_bind.mpr (obeys_op (o := .stop run) (Or.inr hfound) fun _ =>
        hwait _ ⟨rfl, rfl, rfl⟩)
  · exact hwait l ⟨rfl, rfl, rfl⟩

private theorem obeys_start {url : String} (hl : l = { request := .start session url }) :
    Obeys contract.toMonitor (fun l' reply => l'.works = none ∧ l'.AllowsReply reply) E
      (start session url) l := by
  subst hl
  have hother : ∀ (l' : Local Id View) reply, l'.request = .start session url →
      reply.status ≠ 200 → l'.AllowsReply reply := by
    intro l' reply hrequest hstatus
    rw [Local.AllowsReply, hrequest]
    exact fun h => absurd h hstatus
  refine obeys_bind.mpr (obeys_op ⟨rfl, rfl⟩ fun claimed => ?_)
  cases claimed with
  | error view => exact ⟨rfl, hother _ _ rfl nofun⟩
  | ok run =>
    refine obeys_bind.mpr (obeys_op ⟨session, rfl⟩ fun ready => ?_)
    cases ready with
    | false =>
      refine obeys_bind.mpr (obeys_endRun ⟨session, rfl⟩ fun l' h _ => ?_)
      exact ⟨h.works, hother _ _ h.request nofun⟩
    | true =>
      refine obeys_bind.mpr (obeys_op ⟨session, rfl⟩ fun r => ?_)
      split
      · exact ⟨rfl, hother _ _ rfl nofun⟩
      · split_ifs with hstate
        · exact ⟨rfl, hother _ _ rfl nofun⟩
        · exact ⟨rfl, fun _ => ⟨r, rfl, rfl, not_not.mp hstate, run, rfl⟩⟩

private theorem obeys_endCall [DecidableEq Id] (hl : l = { request := .endRun session }) :
    Obeys contract.toMonitor (fun l' reply => l'.works = none ∧ l'.AllowsReply reply) E
      (endCall session) l := by
  subst hl
  have hnone : ∀ l' : Local Id View, l'.request = .endRun session → l'.AllowsReply noSuchRun := by
    intro l' hrequest
    rw [Local.AllowsReply, hrequest]
    nofun
  refine obeys_bind.mpr (obeys_op ⟨rfl, rfl⟩ fun found => ?_)
  cases found with
  | none => exact ⟨rfl, hnone _ rfl⟩
  | some found =>
    obtain ⟨run, holder⟩ := found
    dsimp only
    split_ifs with hholder
    · exact ⟨rfl, hnone _ rfl⟩
    · refine obeys_bind.mpr (obeys_endRun ⟨holder, rfl⟩ fun l' h hawaited => ?_)
      refine obeys_bind.mpr (obeys_op ⟨holder, h.found⟩ fun r => ⟨h.works, ?_⟩)
      have hrequest : l'.request = .endRun session := h.request
      rw [Local.AllowsReply]
      simp only [Local.next, hrequest]
      exact fun _ => ⟨hawaited, run, by rw [h.found, ← not_not.mp hholder]; rfl⟩

private theorem obeys_close (hl : l = { request := .close }) :
    Obeys contract.toMonitor (fun l' _ => l'.works = none) E (close : M Id View Unit) l := by
  subst hl
  refine obeys_bind.mpr (obeys_op ⟨rfl, rfl⟩ fun found => ?_)
  cases found with
  | none => exact rfl
  | some found => exact obeys_endRun ⟨found.2, rfl⟩ fun l' h _ => h.works

/-- A worker in its `try` block, outside its publisher. -/
structure Local.AtWork (l : Local Id View) (run : ℕ) : Prop extends l.Works run where
  released : l.released = false

/-- With its loop there for the calls to stop. -/
structure Local.Looping (l : Local Id View) (run : ℕ) : Prop extends l.AtWork run where
  looped : l.looped = true

private theorem obeys_process (h : l.Looping run) :
    Obeys contract.toMonitor (fun l' _ => l'.Looping run) (fun l' _ => l'.Looping run)
      (process run : M Id View Unit) l := by
  refine obeys_bind.mpr (obeys_bind.mpr (obeys_op (o := .baseline run) h.toWorks fun _ =>
    obeys_ofExcept.mpr ⟨fun found _ => ?_, fun _ _ => h⟩))
  cases found with
  | none => exact h
  | some found =>
    obtain ⟨marks, view⟩ := found
    refine obeys_bind.mpr (obeys_bind.mpr (obeys_op ⟨h.toWorks, h.looped⟩ fun _ => ?_))
    have hready : ({ l with readied := true } : Local Id View).Looping run :=
      ⟨⟨⟨h.works, h.mustStop⟩, h.released⟩, h.looped⟩
    refine obeys_op (o := .setReady run) h.toWorks fun _ => ?_
    exact obeys_bind.mpr (obeys_op (o := .looks run) hready.toWorks fun _ =>
      obeys_ofExcept.mpr ⟨fun _ _ => hready, fun _ _ => hready⟩)

theorem obeys_closePublisher {Q : Local Id View → Unit → Prop} (h : l.Looping run)
    (hQ : ∀ l' a, l'.AtWork run ∧ l'.publishing = false → Q l' a)
    (hE : ∀ l' e, l'.AtWork run ∧ l'.publishing = false → E l' e) :
    Obeys contract.toMonitor Q E (perform (.closePublisher run) >>= Prog.ofExcept) l := by
  have hclosed : ({ l with publishing := false } : Local Id View).AtWork run :=
    ⟨⟨h.works, h.mustStop⟩, h.released⟩
  exact obeys_bind.mpr (obeys_op (o := .closePublisher run) h.toWorks fun _ =>
    obeys_ofExcept.mpr ⟨fun a _ => hQ _ a ⟨hclosed, rfl⟩, fun e _ => hE _ e ⟨hclosed, rfl⟩⟩)

theorem obeys_publishing (h : l.Looping run) (hclosed : l.publishing = false) :
    Obeys contract.toMonitor (fun l' _ => l'.AtWork run ∧ l'.publishing = false)
      (fun l' _ => l'.AtWork run ∧ l'.publishing = false) (publishing run : M Id View Unit) l := by
  have hopened : ∀ b, ({ l with publishing := b } : Local Id View).Looping run := fun b =>
    ⟨⟨⟨h.works, h.mustStop⟩, h.released⟩, h.looped⟩
  refine obeys_bind.mpr (obeys_bind.mpr (obeys_op (o := .openPublisher run)
    ⟨h.toWorks, h.looped, hclosed, h.released⟩ fun r => obeys_ofExcept.mpr ⟨fun _ hr => ?_, fun e hr => ?_⟩))
  · refine obeys_bind.mpr (obeys_tryCatch.mpr
      ((obeys_process (hopened r.isOk)).mono (fun l' _ h' => ?_) fun l' e h' => ?_))
    · exact obeys_closePublisher h' (fun _ _ h => h) fun _ _ h => h
    · exact obeys_bind.mpr (obeys_closePublisher h' (fun _ _ h => h) fun _ _ h => h)
  · subst hr
    exact ⟨(hopened false).toAtWork, rfl⟩

private theorem obeys_working {url : String} (h : l.AtWork run) (hclosed : l.publishing = false) :
    Obeys contract.toMonitor (fun l' _ => l'.AtWork run ∧ l'.publishing = false)
      (fun l' _ => l'.AtWork run ∧ l'.publishing = false)
      (working run url : M Id View Unit) l := by
  refine obeys_bind.mpr (obeys_bind.mpr (obeys_op (o := .openStream run url) h.toWorks fun _ =>
    obeys_ofExcept.mpr ⟨fun _ _ => ?_, fun _ _ => ⟨h, hclosed⟩⟩))
  refine obeys_bind.mpr (obeys_op ⟨h.toWorks, hclosed, h.released⟩ fun ending => ?_)
  cases ending with
  | true =>
    exact obeys_bind.mpr (obeys_op (Or.inl h.works) fun _ =>
      obeys_publishing ⟨⟨⟨h.works, rfl⟩, h.released⟩, rfl⟩ hclosed)
  | false => exact obeys_publishing ⟨⟨⟨h.works, rfl⟩, h.released⟩, rfl⟩ hclosed

private theorem obeys_work (hl : l = { request := .work }) :
    Obeys contract.toMonitor (fun l' _ => l'.Done) E (work : M Id View Unit) l := by
  subst hl
  refine obeys_bind.mpr (obeys_op ⟨rfl, rfl⟩ fun begun => ?_)
  obtain ⟨run, url⟩ := begun
  have hlast : ∀ l' : Local Id View, l'.AtWork run ∧ l'.publishing = false →
      Obeys contract.toMonitor (fun l' _ => l'.Done) E
        (do perform (.release run); perform (.setReady run); perform (.setEnded run)) l' := by
    rintro l' ⟨h, hclosed⟩
    have hworks : ∀ released readied,
        ({ l' with released := released, readied := readied } : Local Id View).Works run :=
      fun _ _ => ⟨h.works, h.mustStop⟩
    refine obeys_bind.mpr (obeys_op ⟨h.toWorks, hclosed⟩ fun _ => ?_)
    refine obeys_bind.mpr (obeys_op (hworks true l'.readied) fun _ => ?_)
    exact obeys_op ⟨hworks true true, rfl, rfl⟩ fun _ _ => rfl
  refine obeys_bind.mpr (obeys_tryCatch.mpr
    ((obeys_working ⟨⟨rfl, rfl⟩, rfl⟩ rfl).mono (fun l' _ h => hlast l' h) fun l' e h => ?_))
  exact obeys_op h.1.toWorks fun _ => hlast l' h

theorem follows [DecidableEq Id] : Follows service
    (contract : Contract (Ans Id View) (Request Id) (Local Id View)) where
  ready _ := rfl
  holds l request hl := by
    have hdone : ∀ l' : Local Id View, l'.works = none → l'.Done := fun l' h hn => absurd h hn
    have hreply : ∀ {p : M Id View (Reply Id View)}, Obeys contract.toMonitor
        (fun l' reply => l'.works = none ∧ l'.AllowsReply reply) (fun _ _ => False) p l →
        contract.Holds (do let reply ← p; perform (.answer reply); return none) l := fun h =>
      obeys_bind.mpr (h.mono (fun l' reply ⟨hworks, hallowed⟩ =>
        obeys_bind.mpr (obeys_op hallowed fun _ => ⟨nofun, fun _ => hdone l' hworks⟩)) fun _ _ h => h)
    cases request with
    | status =>
      subst hl
      refine obeys_bind.mpr (obeys_op ⟨rfl, rfl⟩ fun run => ?_)
      exact obeys_bind.mpr (obeys_op trivial fun _ => ⟨nofun, fun _ => hdone _ rfl⟩)
    | start session url => exact hreply (obeys_start hl)
    | endRun session => exact hreply (obeys_endCall hl)
    | close =>
      exact obeys_bind.mpr ((obeys_close hl).mono (fun l' _ h => ⟨nofun, fun _ => hdone l' h⟩)
        fun _ _ h => h)
    | work =>
      exact obeys_bind.mpr ((obeys_work hl).mono (fun l' _ h => ⟨nofun, fun _ => h⟩) fun _ _ h => h)
  possible _ _ _ _ _ _ := trivial

end Kanat.DetectionService
