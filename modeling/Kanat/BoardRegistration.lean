import Kanat.BoardViews

/-! # Registration: each Look's frame placed onto the Board

Every frame is registered onto the Board space of the baseline frame, tracked from the last registered view or,
once the Board stays lost, re-anchored. What only the log reads is left out. -/
namespace Kanat.BoardRegistration
open BoardViews

def reanchorAfterLost : ℕ := 25
def grossDisagreementPx : ℚ := 66
def moderateDisagreementPx : ℚ := 31 / 10

/-- `last` is the view the next fit starts from, and `lastFrame` the frame it was registered on. -/
structure Registration (v : Vision) where
  last : BoardView v
  lastFrame : v.Frame
  templateMask : v.Image
  lostRun : ℕ
  reanchors : ℕ
  reanchored : ℕ
  converged : ℕ
  checked : ℕ
  gross : ℕ
  moderate : ℕ

/-- A fit of a frame, and what it is handed. -/
inductive Call (v : Vision) where
  | track (frame : v.Frame) (last : BoardView v) (previous : v.Frame)
  | reanchor (frame : v.Frame) (last : BoardView v)

namespace Call
variable {v : Vision}

def last : Call v → BoardView v
  | track _ last _ | reanchor _ last => last

def frame : Call v → v.Frame
  | track frame _ _ | reanchor frame _ => frame

def isReanchor : Call v → Bool
  | track .. => false
  | reanchor .. => true

def answer (templateMask : v.Image) : Call v → Option (Fit v)
  | track frame last previous => trackView frame last none (some previous)
  | reanchor frame last => reanchorView frame templateMask last

end Call

namespace Registration
variable {v : Vision}

def opened (view : BoardView v) (base : v.Frame) (templateMask : v.Image) : Registration v :=
  ⟨view, base, templateMask, 0, 0, 0, 0, 0, 0, 0⟩

def due (s : Registration v) : Bool := decide (0 < s.lostRun ∧ s.lostRun % reanchorAfterLost = 0)

def call (s : Registration v) (frame : v.Frame) : Call v :=
  if s.due then .reanchor frame s.last else .track frame s.last s.lastFrame

/-- Is a converged fit on the wrong scene altogether? Only one below the floor is checked. -/
def grosslyWrong (s : Registration v) (frame : v.Frame) (view : BoardView v) (correlation : Reading) :
    Registration v × Bool :=
  let s := { s with converged := s.converged + 1 }
  if correlation.ge (.finite reanchorMinCorrelation) then (s, false)
  else
    match silhouetteDisagreement frame s.templateMask view with
    | none => (s, false)
    | some disagreement =>
      let s := { s with checked := s.checked + 1 }
      if disagreement.ge (.finite grossDisagreementPx) then ({ s with gross := s.gross + 1 }, true)
      else
        let moderate := (disagreement.gt (.finite moderateDisagreementPx)).toNat
        ({ s with moderate := s.moderate + moderate }, false)

def reportReanchor (s : Registration v) (registered : Bool) : Registration v :=
  { s with reanchors := s.reanchors + 1, reanchored := s.reanchored + registered.toNat }

/-- The frame's view, or `none` for a Lost Look. -/
def register (s : Registration v) (frame : v.Frame) : Registration v × Option (BoardView v) :=
  let due := s.due
  let (s, view) : Registration v × Option (BoardView v) :=
    match (s.call frame).answer s.templateMask with
    | none => (s, none)
    | some (view, correlation) =>
      let (s, wrong) := s.grosslyWrong frame view correlation
      (s, if wrong then none else some view)
  let s := if due then s.reportReanchor view.isSome else s
  match view with
  | none => ({ s with lostRun := s.lostRun + 1 }, none)
  | some view => ({ s with lostRun := 0, last := view, lastFrame := frame }, some view)

end Registration

/-- A Look: the fit that was called for, and the view returned. -/
structure Look (v : Vision) where
  call : Call v
  view : Option (BoardView v)

variable {v : Vision}

def Registration.look (s : Registration v) (frame : v.Frame) : Look v := ⟨s.call frame, (s.register frame).2⟩

/-- The Looks at a sequence of frames, and what they leave. -/
def Registration.looks (s : Registration v) : List v.Frame → Registration v × List (Look v)
  | [] => (s, [])
  | frame :: frames =>
    let (s', looks) := (s.register frame).1.looks frames
    (s', s.look frame :: looks)

/-- The view returned latest and the frame it was registered on, the baseline's before any. -/
def latest (space : BoardView v) (base : v.Frame) (looks : List (Look v)) : BoardView v × v.Frame :=
  (looks.reverse.findSome? fun look => look.view.map (·, look.call.frame)).getD (space, base)

/-- The Lost Looks in a row just before the next one. -/
def lostInARow (looks : List (Look v)) : ℕ := (looks.reverse.takeWhile fun look => look.view.isNone).length

/-- The fit called for by a Look after the given ones. -/
def nextCall (space : BoardView v) (base : v.Frame) (looks : List (Look v)) (frame : v.Frame) : Call v :=
  if 0 < lostInARow looks ∧ reanchorAfterLost ∣ lostInARow looks then .reanchor frame (latest space base looks).1
  else .track frame (latest space base looks).1 (latest space base looks).2

namespace Look
variable (templateMask : v.Image) (look : Look v)

def converged : Bool := (look.call.answer templateMask).isSome

/-- What the check of the fit says: `none` where none is made, or it has no verdict. -/
def disagreement : Option Reading :=
  (look.call.answer templateMask).bind fun fit =>
    if fit.2.ge (.finite reanchorMinCorrelation) then none
    else silhouetteDisagreement look.call.frame templateMask fit.1

def checked : Bool := (look.disagreement templateMask).isSome

def gross : Bool := (look.disagreement templateMask).any (·.ge (.finite grossDisagreementPx))

def moderate : Bool :=
  (look.disagreement templateMask).any fun reading =>
    !reading.ge (.finite grossDisagreementPx) && reading.gt (.finite moderateDisagreementPx)

end Look

theorem Registration.call_frame (s : Registration v) (frame : v.Frame) : (s.call frame).frame = frame := by
  rw [Registration.call]
  split <;> rfl

theorem Registration.call_isReanchor (s : Registration v) (frame : v.Frame) : (s.call frame).isReanchor = s.due := by
  rw [Registration.call]
  split <;> simp_all [Call.isReanchor]

/-- The view returned is the fit's, unless that is grossly wrong. -/
theorem Registration.look_view (s : Registration v) (frame : v.Frame) :
    (s.look frame).view =
      if (s.look frame).gross s.templateMask then none
      else ((s.look frame).call.answer s.templateMask).map Prod.fst := by
  simp only [look, register, Look.gross, Look.disagreement, call_frame]
  cases hfit : (s.call frame).answer s.templateMask with
  | none => simp
  | some fit =>
    by_cases hfloor : fit.2.ge (.finite reanchorMinCorrelation) = true
    · simp [grosslyWrong, hfloor]
    · cases hsilhouette : silhouetteDisagreement frame s.templateMask fit.1 with
      | none => simp [grosslyWrong, hfloor, hsilhouette]
      | some reading =>
        by_cases hgross : reading.ge (.finite grossDisagreementPx) = true <;>
          simp [grosslyWrong, hfloor, hsilhouette, hgross]

/-- All that one Look moves. -/
theorem Registration.register_fst (s : Registration v) (frame : v.Frame) :
    (s.register frame).1 =
      { s with
        last := (s.look frame).view.getD s.last
        lastFrame := if (s.look frame).view.isSome then frame else s.lastFrame
        lostRun := if (s.look frame).view.isSome then 0 else s.lostRun + 1
        reanchors := s.reanchors + (s.look frame).call.isReanchor.toNat
        reanchored := s.reanchored + ((s.look frame).call.isReanchor && (s.look frame).view.isSome).toNat
        converged := s.converged + ((s.look frame).converged s.templateMask).toNat
        checked := s.checked + ((s.look frame).checked s.templateMask).toNat
        gross := s.gross + ((s.look frame).gross s.templateMask).toNat
        moderate := s.moderate + ((s.look frame).moderate s.templateMask).toNat } := by
  have hdue := s.call_isReanchor frame
  simp only [look, register, Look.converged, Look.checked, Look.gross, Look.moderate, Look.disagreement, call_frame,
    hdue]
  cases hfit : (s.call frame).answer s.templateMask with
  | none => cases s.due <;> simp [reportReanchor]
  | some fit =>
    by_cases hfloor : fit.2.ge (.finite reanchorMinCorrelation) = true
    · cases s.due <;> simp [grosslyWrong, hfloor, reportReanchor]
    · cases hsilhouette : silhouetteDisagreement frame s.templateMask fit.1 with
      | none => cases s.due <;> simp [grosslyWrong, hfloor, hsilhouette, reportReanchor]
      | some reading =>
        by_cases hgross : reading.ge (.finite grossDisagreementPx) = true <;> cases s.due <;>
          simp [grosslyWrong, hfloor, hsilhouette, hgross, reportReanchor]

theorem Call.answer_sameSpace {templateMask : v.Image} {call : Call v} {fit : Fit v}
    (h : call.answer templateMask = some fit) : SameSpace call.last fit.1 := by
  cases call with
  | track frame last previous => exact trackView_sameSpace h
  | reanchor frame last => exact (reanchorView_found h).1

/-- A re-anchor's fit is at or above the floor, so it is never checked. -/
theorem Look.disagreement_of_reanchor {templateMask : v.Image} {look : Look v} (h : look.call.isReanchor = true) :
    look.disagreement templateMask = none := by
  obtain ⟨call, view⟩ := look
  cases call with
  | track => cases h
  | reanchor frame last =>
    cases hfit : reanchorView frame templateMask last with
    | none => simp [disagreement, Call.answer, hfit]
    | some fit => simp [disagreement, Call.answer, hfit, (reanchorView_found hfit).2]

theorem toNat_eq_ite (b : Bool) : b.toNat = if b = true then 1 else 0 := by
  cases b <;> rfl

private theorem latest_append (space : BoardView v) (base : v.Frame) (looks : List (Look v)) (look : Look v) :
    latest space base (looks ++ [look]) =
      (look.view.map (·, look.call.frame)).getD (latest space base looks) := by
  cases hview : look.view <;> simp [latest, hview]

private theorem lostInARow_append (looks : List (Look v)) (look : Look v) :
    lostInARow (looks ++ [look]) = if look.view.isSome then 0 else lostInARow looks + 1 := by
  cases hview : look.view <;> simp [lostInARow, hview]

section
variable (space : BoardView v) (base : v.Frame) (templateMask : v.Image)

/-- What a Registration keeps of the Looks it has made. -/
structure Kept (s : Registration v) (looks : List (Look v)) : Prop where
  mask : s.templateMask = templateMask
  held : (s.last, s.lastFrame) = latest space base looks
  lostRun : s.lostRun = lostInARow looks
  sameSpace : SameSpace space s.last
  reanchors : s.reanchors = looks.countP fun look => look.call.isReanchor
  reanchored : s.reanchored = looks.countP fun look => look.call.isReanchor && look.view.isSome
  converged : s.converged = looks.countP fun look => look.converged templateMask
  checked : s.checked = looks.countP fun look => look.checked templateMask
  gross : s.gross = looks.countP fun look => look.gross templateMask
  moderate : s.moderate = looks.countP fun look => look.moderate templateMask

/-- What each Look is, by those before it. -/
structure Placed (before : List (Look v)) (frame : v.Frame) (look : Look v) : Prop where
  call : look.call = nextCall space base before frame
  view : look.view =
    if look.gross templateMask then none else (look.call.answer templateMask).map Prod.fst
  sameSpace : ∀ view, look.view = some view → SameSpace space view

variable {space base templateMask} {s : Registration v} {looks : List (Look v)}

theorem Kept.opened : Kept space base templateMask (.opened space base templateMask) [] :=
  ⟨rfl, rfl, rfl, .refl space, rfl, rfl, rfl, rfl, rfl, rfl⟩

theorem Kept.call (h : Kept space base templateMask s looks) (frame : v.Frame) :
    s.call frame = nextCall space base looks frame := by
  have hheld := Prod.ext_iff.mp h.held
  rw [Registration.call, nextCall, ← h.lostRun, ← hheld.1, ← hheld.2, Registration.due]
  simp only [decide_eq_true_eq, Nat.dvd_iff_mod_eq_zero]

theorem Kept.placed (h : Kept space base templateMask s looks) (frame : v.Frame) :
    Placed space base templateMask looks frame (s.look frame) := by
  have hview := s.look_view frame
  rw [h.mask] at hview
  refine ⟨h.call frame, hview, fun view hsome => ?_⟩
  rw [hview] at hsome
  split_ifs at hsome
  obtain ⟨fit, hfit, rfl⟩ := Option.map_eq_some_iff.mp hsome
  have hlast : (s.look frame).call.last = s.last := by
    rw [Registration.look, Registration.call]
    split <;> rfl
  exact h.sameSpace.trans (hlast ▸ Call.answer_sameSpace hfit)

theorem Kept.register (h : Kept space base templateMask s looks) (frame : v.Frame) :
    Kept space base templateMask (s.register frame).1 (looks ++ [s.look frame]) := by
  have hframe : (s.look frame).call.frame = frame := s.call_frame frame
  have hsame := (h.placed frame).sameSpace
  rw [Registration.register_fst]
  refine ⟨h.mask, ?held, ?lostRun, ?sameSpace, ?reanchors, ?reanchored, ?converged, ?checked, ?gross,
    ?moderate⟩
  case held =>
    rw [latest_append, ← h.held, hframe]
    cases (s.look frame).view <;> rfl
  case lostRun =>
    rw [lostInARow_append, ← h.lostRun]
  case sameSpace =>
    cases hview : (s.look frame).view with
    | none => exact h.sameSpace
    | some view => exact hsame view hview
  all_goals simp only [List.countP_append, List.countP_singleton, toNat_eq_ite, ← h.reanchors, ← h.reanchored,
    ← h.converged, ← h.checked, ← h.gross, ← h.moderate, h.mask]

/-- Looks go on from those before them. -/
theorem Kept.run (h : Kept space base templateMask s looks) (frames : List v.Frame) :
    Kept space base templateMask (s.looks frames).1 (looks ++ (s.looks frames).2) ∧
      (s.looks frames).2.length = frames.length ∧
      ∀ k frame, frames[k]? = some frame → ∃ look, (s.looks frames).2[k]? = some look ∧
        Placed space base templateMask (looks ++ (s.looks frames).2.take k) frame look := by
  induction frames generalizing s looks with
  | nil => simpa [Registration.looks] using h
  | cons first frames ih =>
    obtain ⟨hkept, hlength, hplaced⟩ := ih (h.register first)
    rw [List.append_assoc] at hkept
    refine ⟨hkept, by simpa [Registration.looks] using hlength, fun k frame hframe => ?_⟩
    cases k with
    | zero =>
      cases hframe
      exact ⟨s.look first, rfl, by simpa using h.placed first⟩
    | succ k =>
      obtain ⟨look, hlook, hlook'⟩ := hplaced k frame hframe
      exact ⟨look, hlook, by simpa [Registration.looks] using hlook'⟩

/-- A Look that returned a view converged, and one grossly wrong converged below the floor and was lost. -/
theorem Placed.returned_iff {before : List (Look v)} {frame : v.Frame} {look : Look v}
    (h : Placed space base templateMask before frame look) :
    look.view.isSome = (look.converged templateMask && !look.gross templateMask) := by
  rw [h.view, Look.converged]
  cases look.gross templateMask <;> simp

end

namespace Look
variable {templateMask : v.Image} {look : Look v}

theorem checked_of_gross (h : look.gross templateMask = true) : look.checked templateMask = true :=
  Option.isSome_of_any h

theorem checked_of_moderate (h : look.moderate templateMask = true) :
    look.checked templateMask = true ∧ look.gross templateMask = false := by
  rw [moderate] at h
  rw [checked, gross]
  cases hreading : look.disagreement templateMask with
  | none => simp [hreading] at h
  | some reading =>
    simp only [hreading, Option.any_some, Bool.and_eq_true, Bool.not_eq_true'] at h
    exact ⟨rfl, h.1⟩

theorem converged_of_checked (h : look.checked templateMask = true) : look.converged templateMask = true := by
  obtain ⟨reading, hreading⟩ := Option.isSome_iff_exists.mp h
  obtain ⟨fit, hfit, -⟩ := Option.bind_eq_some_iff.mp hreading
  simp [converged, hfit]

end Look

/-- The counters of a Registration, its Looks returned and its Looks Lost. -/
structure AddsUp (s : Registration v) (looks : List (Look v)) (templateMask : v.Image) : Prop where
  attempts : s.reanchors = looks.countP fun look => look.call.isReanchor
  registered : s.reanchored = looks.countP fun look => look.call.isReanchor && look.view.isSome
  failed : s.reanchors - s.reanchored = looks.countP fun look => look.call.isReanchor && look.view.isNone
  converged : s.converged = looks.countP (·.view.isSome) + s.gross
  lost : looks.countP (·.view.isNone) = looks.countP (!·.converged templateMask) + s.gross
  made : looks.length = looks.countP (·.view.isSome) + looks.countP (·.view.isNone)
  gross : s.gross = looks.countP (·.gross templateMask)
  checked : s.gross + s.moderate ≤ s.checked ∧ s.checked ≤ s.converged

/-- Two kinds that no element shares make up a third. -/
theorem countP_split {α : Type} {p q r : α → Bool} {l : List α}
    (h : ∀ a ∈ l, (p a).toNat = (q a).toNat + (r a).toNat) : l.countP p = l.countP q + l.countP r := by
  induction l with
  | nil => rfl
  | cons a l ih =>
    have hhead := h a List.mem_cons_self
    have htail := ih fun b hb => h b (List.mem_cons_of_mem a hb)
    simp only [toNat_eq_ite] at hhead
    simp only [List.countP_cons]
    omega

variable {space : BoardView v} {base : v.Frame} {templateMask : v.Image} {s : Registration v} {looks : List (Look v)}

theorem Kept.addsUp (h : Kept space base templateMask s looks)
    (hreturned : ∀ look ∈ looks, look.view.isSome = (look.converged templateMask && !look.gross templateMask)) :
    AddsUp s looks templateMask := by
  have hgross (look : Look v) (hgross : look.gross templateMask = true) : look.converged templateMask = true :=
    Look.converged_of_checked (Look.checked_of_gross hgross)
  refine ⟨h.reanchors, h.reanchored, ?failed, ?converged, ?lost, ?made, h.gross, ?checked, ?checkedLe⟩
  case failed =>
    have hsplit : looks.countP (fun look => look.call.isReanchor) =
        looks.countP (fun look => look.call.isReanchor && look.view.isSome) +
          looks.countP (fun look => look.call.isReanchor && look.view.isNone) :=
      countP_split fun look _ => by cases look.call.isReanchor <;> cases look.view <;> rfl
    rw [h.reanchors, h.reanchored, hsplit]
    omega
  case converged =>
    rw [h.converged, h.gross]
    refine countP_split fun look hlook => ?_
    have hlookGross := hgross look
    rw [hreturned look hlook]
    cases hc : look.converged templateMask <;> cases hg : look.gross templateMask <;> simp_all
  case lost =>
    rw [h.gross]
    refine countP_split fun look hlook => ?_
    have hlookGross := hgross look
    rw [← Option.not_isSome, hreturned look hlook]
    cases hc : look.converged templateMask <;> cases hg : look.gross templateMask <;> simp_all
  case made =>
    rw [← List.countP_true]
    exact countP_split fun look _ => by cases look.view <;> rfl
  case checked =>
    have hsplit : looks.countP (fun look => look.gross templateMask || look.moderate templateMask) =
        looks.countP (·.gross templateMask) + looks.countP (·.moderate templateMask) :=
      countP_split fun look _ => by
        have hmoderate (h : look.moderate templateMask = true) := Look.checked_of_moderate h
        cases hg : look.gross templateMask <;> cases hm : look.moderate templateMask <;> simp_all
    rw [h.gross, h.moderate, h.checked, ← hsplit]
    refine List.countP_mono_left fun look _ heither => ?_
    rcases Bool.or_eq_true_iff.mp heither with hgross | hmoderate
    · exact Look.checked_of_gross hgross
    · exact (Look.checked_of_moderate hmoderate).1
  case checkedLe =>
    rw [h.checked, h.converged]
    exact List.countP_mono_left fun look _ => Look.converged_of_checked

/-- Registration holds its place, at the end of any frames and so at every moment of a run. -/
theorem holdsItsPlace (space : BoardView v) (base : v.Frame) (templateMask : v.Image) (frames : List v.Frame) :
    let s := ((Registration.opened space base templateMask).looks frames).1
    let looks := ((Registration.opened space base templateMask).looks frames).2
    (s.last, s.lastFrame) = latest space base looks ∧
      looks.length = frames.length ∧
      (∀ k frame, frames[k]? = some frame →
        ∃ look, looks[k]? = some look ∧ Placed space base templateMask (looks.take k) frame look) ∧
      AddsUp s looks templateMask := by
  intro s looks
  have hopened : Kept space base templateMask _ [] := Kept.opened
  obtain ⟨hkept, hlength, hplaced⟩ := hopened.run frames
  rw [List.nil_append] at hkept
  simp only [List.nil_append] at hplaced
  refine ⟨hkept.held, hlength, hplaced, hkept.addsUp fun look hlook => ?_⟩
  obtain ⟨k, hk, hget⟩ := List.mem_iff_getElem.mp hlook
  obtain ⟨look', hlook', hplaced⟩ := hplaced k _ (List.getElem?_eq_getElem (hlength ▸ hk))
  rw [List.getElem?_eq_getElem hk, Option.some.injEq, hget] at hlook'
  exact hlook' ▸ hplaced.returned_iff

end Kanat.BoardRegistration
