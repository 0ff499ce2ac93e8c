import Kanat.DetectionServiceThreads

/-! # What one step does to the Runs

The effect of every operation but a Run's creation, as one relation between a Run before and after; the invariants of
the modules after this one are read off it. -/
namespace Kanat.DetectionService
open ResumptionPrograms InterleavedThreads

variable {Id View : Type}

/-- How far a Run is. -/
def RunState.rank : RunState → ℕ
  | .starting => 0
  | .watching => 1
  | .ending => 2

namespace Op

/-- The Run a call changes, and how. -/
def change : Op Id View → Option (ℕ × (Run Id View → Run Id View))
  | .enterEnding run => some (run, Run.enterEnding)
  | .stop run => some (run, fun r => { r with loop := r.loop.map Loop.stop })
  | .publishLoop run => some (run, fun r => { r with loop := some {} })
  | .enterWatching run marks view => some (run, fun r => r.enterWatching marks view)
  | .fail run error => some (run, fun r => { r with error := some error })
  | .setReady run => some (run, fun r => { r with ready := true })
  | .setEnded run => some (run, fun r => { r with ended := true })
  | _ => none

/-- What a call leaves of a Run that there was before it. -/
def effect (o : Op Id View) (i : ℕ) (r : Run Id View) : Run Id View :=
  match o.change with
  | some (run, f) => if run = i then f r else r
  | none => r

variable {o : Op Id View} {i : ℕ} {r : Run Id View}

@[elab_as_elim] theorem effect_cases {P : Run Id View → Prop} (hsame : P r)
    (hchange : ∀ f, o.change = some (i, f) → P (f r)) : P (o.effect i r) := by
  unfold effect
  split
  · next run f hf =>
    split_ifs with hrun
    · exact hchange f (hrun ▸ hf)
    · exact hsame
  · exact hsame

theorem effect_of_change {f : Run Id View → Run Id View} (h : o.change = some (i, f)) :
    o.effect i r = f r := by
  rw [effect, h]
  exact if_pos rfl

theorem session_effect : (o.effect i r).session = r.session := by
  refine effect_cases rfl fun f hf => ?_
  cases o <;> cases hf <;> rfl

theorem rank_effect : r.state.rank ≤ (o.effect i r).state.rank := by
  refine effect_cases (Nat.le_refl _) fun f hf => ?_
  cases o <;> cases hf <;> try exact Nat.le_refl _
  · -- asked to end
    cases h : r.state <;> exact Nat.le_of_ble_eq_true rfl
  · -- found watching
    dsimp only [Run.enterWatching]
    split_ifs with h
    · rw [h]
      exact Nat.le_of_ble_eq_true rfl
    · exact Nat.le_refl _

/-- Once it reads `ending`, a Run does so for good. -/
theorem effect_ending (h : r.state = .ending) : (o.effect i r).state = .ending := by
  have hrank : r.state.rank ≤ (o.effect i r).state.rank := rank_effect
  rw [h] at hrank
  cases hs : (o.effect i r).state with
  | starting =>
    rw [hs] at hrank
    exact absurd hrank (by decide)
  | watching =>
    rw [hs] at hrank
    exact absurd hrank (by decide)
  | ending => rfl

theorem ready_effect (h : r.ready = true) : (o.effect i r).ready = true := by
  refine effect_cases h fun f hf => ?_
  cases o <;> cases hf <;> first | exact h | rfl

theorem ended_effect (h : r.ended = true) : (o.effect i r).ended = true := by
  refine effect_cases h fun f hf => ?_
  cases o <;> cases hf <;> first | exact h | rfl

theorem of_ended_effect (h : (o.effect i r).ended = true) : r.ended = true ∨ o = .setEnded i := by
  revert h
  refine effect_cases Or.inl fun f hf h => ?_
  cases o <;> cases hf <;> first | exact Or.inl h | exact Or.inr rfl

theorem of_watching_effect (h : (o.effect i r).state = .watching) :
    r.state = .watching ∨ ∃ marks view, o = .enterWatching i marks view := by
  revert h
  refine effect_cases Or.inl fun f hf h => ?_
  cases o <;> cases hf <;> first
    | exact Or.inl h
    | exact Or.inr ⟨_, _, rfl⟩
    | cases h

theorem loop_effect (h : r.loop ≠ none) : (o.effect i r).loop ≠ none := by
  refine effect_cases h fun f hf => ?_
  cases o <;> cases hf <;> try exact h
  · dsimp only [Run.enterEnding]
    cases r.state <;> simpa using h
  · simpa using h
  · nofun

/-- A Run has no loop but the one its worker has made. -/
theorem loop_of_effect (ho : o ≠ .publishLoop i) (h : r.loop = none) :
    (o.effect i r).loop = none := by
  refine effect_cases h fun f hf => ?_
  cases o <;> cases hf <;> try exact h
  · dsimp only [Run.enterEnding]
    cases r.state <;> simp [h]
  · simp [h]
  · exact absurd rfl ho

/-- A loop once stopped stays so. -/
theorem stopped_effect (ho : o ≠ .publishLoop i) (h : ∀ loop ∈ r.loop, loop.stopped = true) :
    ∀ loop ∈ (o.effect i r).loop, loop.stopped = true := by
  have hmap : ∀ {f : Loop → Loop}, (∀ loop, loop.stopped = true → (f loop).stopped = true) →
      ∀ loop ∈ r.loop.map f, loop.stopped = true := by
    intro f hf loop hloop
    obtain ⟨before, hbefore, rfl⟩ := Option.map_eq_some_iff.mp hloop
    exact hf before (h before hbefore)
  refine effect_cases h fun f hf => ?_
  cases o <;> cases hf <;> try exact h
  · dsimp only [Run.enterEnding]
    cases r.state
    · exact hmap fun _ _ => rfl
    · exact hmap fun _ h => h
    · exact h
  · exact hmap fun _ _ => rfl
  · exact absurd rfl ho

end Op

variable [DecidableEq Id] {w w' : World Id View} {o : Op Id View} {choice : Choice View}
  {a : Ans Id View o} {i : ℕ} {session : Id} {url : String}

omit [DecidableEq Id] in
theorem attempt_world {r : Except Exn Unit} (h : attempt w choice = some (r, w')) : w' = w := by
  cases choice <;> cases h <;> rfl

omit [DecidableEq Id] in
theorem waitFor_world {event : Option Bool} {r : Bool}
    (h : waitFor w event choice = some (r, w')) : w' = w ∧ (r = true → event = some true) := by
  cases choice with
  | done =>
    simp only [waitFor] at h
    split_ifs at h with hevent
    cases h
    exact ⟨rfl, fun _ => hevent⟩
  | timesOut =>
    cases h
    exact ⟨rfl, nofun⟩
  | _ => cases h

/-- Does a claim create a Run? -/
theorem answer_claim {r : Except (Report Id View) ℕ}
    (h : answer w (.claim session url) choice = some (r, w')) :
    w.current = none ∧ r = .ok w.runs.length ∧ w' = w.create session url ∨
      ∃ run holder, w.current = some run ∧ w.runs[run]? = some holder ∧ w' = w ∧
        r = if holder.session = session then .ok run else .error holder.view := by
  cases choice <;> simp only [answer] at h <;> try cases h
  cases hcurrent : w.current with
  | none =>
    rw [hcurrent] at h
    cases h
    exact Or.inl ⟨rfl, rfl, rfl⟩
  | some run =>
    rw [hcurrent] at h
    obtain ⟨holder, hholder, h⟩ := Option.map_eq_some_iff.mp h
    cases h
    exact Or.inr ⟨run, holder, rfl, hholder, rfl, rfl⟩

/-- The call finds no Run, and creates one. -/
def Creates (w : World Id View) (o : Op Id View) : Prop :=
  w.current = none ∧ ∃ session url, o = .claim session url

/-- What is left of the Runs by any call but one that creates a Run. -/
theorem runs_of_answer (h : answer w o choice = some (a, w')) (hnew : ¬Creates w o) :
    w'.runs[i]? = (w.runs[i]?).map (o.effect i) := by
  have hid : o.change = none → w'.runs = w.runs → w'.runs[i]? = (w.runs[i]?).map (o.effect i) := by
    intro ho hw
    have heffect : o.effect i = id := by
      funext r
      rw [Op.effect, ho]
      rfl
    rw [hw, heffect, Option.map_id]
    rfl
  have hmodify : ∀ run f, o.change = some (run, f) → w' = w.modify run f →
      w'.runs[i]? = (w.runs[i]?).map (o.effect i) := by
    intro run f ho hw
    rw [hw, World.modify, List.getElem?_modify]
    congr 1
    funext r
    rw [Op.effect, ho]
  cases o with
  | claim session url =>
    rcases answer_claim h with ⟨hcurrent, _⟩ | ⟨_, _, _, _, rfl, _⟩
    · exact absurd ⟨hcurrent, session, url, rfl⟩ hnew
    · exact hid rfl rfl
  | waitReady run => exact hid rfl (by rw [(waitFor_world h).1])
  | waitEnding run => exact hid rfl (by rw [(waitFor_world h).1])
  | openStream run url => exact hid rfl (by rw [attempt_world h])
  | openPublisher run => exact hid rfl (by rw [attempt_world h])
  | looks run => exact hid rfl (by rw [attempt_world h])
  | closePublisher run => exact hid rfl (by rw [attempt_world h])
  | waitEnded run =>
    cases choice <;> simp only [answer] at h <;> try cases h
    split_ifs at h
    cases h
    exact hid rfl rfl
  | read run =>
    cases choice <;> simp only [answer] at h <;> try cases h
    obtain ⟨_, _, h⟩ := Option.map_eq_some_iff.mp h
    cases h
    exact hid rfl rfl
  | begin =>
    cases choice <;> simp only [answer] at h <;> try cases h
    obtain ⟨_, _, h⟩ := Option.map_eq_some_iff.mp h
    cases h
    exact hid rfl rfl
  | enterEnding run =>
    cases choice <;> simp only [answer] at h <;> try cases h
    obtain ⟨_, _, h⟩ := Option.map_eq_some_iff.mp h
    cases h
    exact hmodify run _ rfl rfl
  | publishLoop run =>
    cases choice <;> simp only [answer] at h <;> try cases h
    obtain ⟨_, _, h⟩ := Option.map_eq_some_iff.mp h
    cases h
    exact hmodify run _ rfl rfl
  | release run =>
    cases choice <;> simp only [answer] at h <;> cases h
    refine hid rfl ?_
    unfold World.release
    split_ifs <;> rfl
  | status | find | answer reply | baseline run =>
    cases choice <;> simp only [answer] at h <;> cases h
    all_goals exact hid rfl rfl
  | stop run | enterWatching run marks view | fail run error | setReady run | setEnded run =>
    cases choice <;> simp only [answer] at h <;> cases h
    exact hmodify run _ rfl rfl

/-- A Run there was is there still, changed as the call does. -/
theorem run_after (h : answer w o choice = some (a, w')) {r : Run Id View}
    (hr : w.runs[i]? = some r) : w'.runs[i]? = some (o.effect i r) := by
  by_cases hnew : Creates w o
  · obtain ⟨hcurrent, session, url, rfl⟩ := hnew
    rcases answer_claim h with ⟨_, _, rfl⟩ | ⟨run, _, hrun, _⟩
    · rw [World.create, List.getElem?_append_left (List.getElem?_eq_some_iff.mp hr).1, hr]
      rfl
    · rw [hcurrent] at hrun
      cases hrun
  · rw [runs_of_answer h hnew, hr]
    rfl

/-- A Run there is was there before, or has just been created. -/
theorem run_before (h : answer w o choice = some (a, w')) {r : Run Id View}
    (hr : w'.runs[i]? = some r) :
    (∃ before, w.runs[i]? = some before ∧ r = o.effect i before) ∨
      i = w.runs.length ∧ Creates w o ∧ ∃ session, r = { session := session } := by
  by_cases hnew : Creates w o
  · obtain ⟨hcurrent, session, url, rfl⟩ := hnew
    rcases answer_claim h with ⟨_, _, rfl⟩ | ⟨run, _, hrun, _⟩
    · rw [World.create] at hr
      rcases Nat.lt_or_ge i w.runs.length with hi | hi
      · rw [List.getElem?_append_left hi] at hr
        exact Or.inl ⟨r, hr, rfl⟩
      · rw [List.getElem?_append_right hi, List.getElem?_singleton] at hr
        split_ifs at hr with hlen
        cases hr
        exact Or.inr ⟨by omega, ⟨hcurrent, session, url, rfl⟩, session, rfl⟩
    · rw [hcurrent] at hrun
      cases hrun
  · rw [runs_of_answer h hnew] at hr
    obtain ⟨before, hbefore, rfl⟩ := Option.map_eq_some_iff.mp hr
    exact Or.inl ⟨before, hbefore, rfl⟩

/-- Only a claim and a release change which Run the service has. -/
theorem current_of_answer (h : answer w o choice = some (a, w')) (hclaim : ∀ s u, o ≠ .claim s u)
    (hrelease : ∀ run, o ≠ .release run) : w'.current = w.current := by
  cases o with
  | claim session url => exact absurd rfl (hclaim session url)
  | release run => exact absurd rfl (hrelease run)
  | waitReady run => rw [(waitFor_world h).1]
  | waitEnding run => rw [(waitFor_world h).1]
  | openStream run url => rw [attempt_world h]
  | openPublisher run => rw [attempt_world h]
  | looks run => rw [attempt_world h]
  | closePublisher run => rw [attempt_world h]
  | waitEnded run =>
    cases choice <;> simp only [answer] at h <;> try cases h
    split_ifs at h
    cases h
    rfl
  | read run | begin | enterEnding run | publishLoop run =>
    cases choice <;> simp only [answer] at h <;> try cases h
    obtain ⟨_, _, h⟩ := Option.map_eq_some_iff.mp h
    cases h
    rfl
  | _ => cases choice <;> simp only [answer] at h <;> cases h <;> rfl

theorem threads_of_answer (h : answer w o choice = some (a, w')) (hclaim : ∀ s u, o ≠ .claim s u)
    (hbegin : o ≠ .begin) : w'.threads = w.threads := by
  cases o with
  | claim session url => exact absurd rfl (hclaim session url)
  | begin => exact absurd rfl hbegin
  | waitReady run => rw [(waitFor_world h).1]
  | waitEnding run => rw [(waitFor_world h).1]
  | openStream run url => rw [attempt_world h]
  | openPublisher run => rw [attempt_world h]
  | looks run => rw [attempt_world h]
  | closePublisher run => rw [attempt_world h]
  | waitEnded run =>
    cases choice <;> simp only [answer] at h <;> try cases h
    split_ifs at h
    cases h
    rfl
  | release run =>
    cases choice <;> simp only [answer] at h <;> cases h
    unfold World.release
    split_ifs <;> rfl
  | read run | enterEnding run | publishLoop run =>
    cases choice <;> simp only [answer] at h <;> try cases h
    obtain ⟨_, _, h⟩ := Option.map_eq_some_iff.mp h
    cases h
    rfl
  | _ => cases choice <;> simp only [answer] at h <;> cases h <;> rfl

end Kanat.DetectionService
