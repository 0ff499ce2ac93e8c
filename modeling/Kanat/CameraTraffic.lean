import Kanat.InsertionOrderDict
import Mathlib.Algebra.Order.Field.Rat
import Mathlib.Data.List.Chain
import Mathlib.Data.List.Sort
import Mathlib.Tactic.Linarith
import Mathlib.Tactic.NormNum

/-! # Whether video is arriving from each camera (services/cameras.py: receiving, watch_traffic, with_status)

Sets are lists without repetition, and `none` is MediaMTX not answering. -/
namespace Kanat.CameraTraffic
open InsertionOrderDict

abbrev Name := String

/-- A path as MediaMTX lists it; what it leaves out reads as not ready, or no bytes. -/
structure PathState where
  ready : Bool := false
  inboundBytes : ℕ := 0

/-- `path_states`, of the items in the answer. -/
def pathStates (items : List (Name × PathState)) : Dict Name PathState :=
  items.foldl (fun states item => states.put item.1 item.2) []

abbrev Paths := Dict Name PathState

def STALE_S : ℚ := 10

/-- Each path's counter, and when it last grew. -/
abbrev Traffic := Dict Name (ℕ × Option ℚ)

def PathState.inbound (path : PathState) : ℕ := if path.ready then path.inboundBytes else 0

/-- One turn of the loop over the paths. -/
def lookAt (now : ℚ) (s : Traffic × List Name) (path : Name × PathState) : Traffic × List Name :=
  let (traffic, live) := s
  let (name, path) := path
  let inbound := path.inbound
  match traffic.get name with
  | none => (traffic.put name (inbound, none), live)
  | some (previous, grew) =>
    if inbound > previous then (traffic.put name (inbound, some now), live.insert name)
    else
      (traffic.put name (inbound, grew), match grew with
        | some at_ => if now - at_ < STALE_S then live.insert name else live
        | none => live)

def receiving (now : ℚ) (traffic : Traffic) (paths : Paths) : Traffic × List Name :=
  let traffic := (traffic.keys.filter (· ∉ paths.keys)).foldl Dict.pop traffic
  paths.foldl (lookAt now) (traffic, [])

structure Camera where
  cameraAlias : Name
  enabled : Bool

inductive Status where
  | disabled | unreachable | live | no_signal
  deriving DecidableEq

/-- `log`: each line's path, and whether its video is arriving or stopped. -/
structure Watched where
  traffic : Traffic := []
  arriving : List Name := []
  log : List (Name × Bool) := []

namespace Watched

def sorted (names : List Name) : List Name := names.mergeSort fun a b => a ≤ b

def watchTraffic (now : ℚ) (answer : Option (List (Name × PathState))) (w : Watched) : Watched :=
  match answer with
  | none => w
  | some items =>
    let (traffic, live) := receiving now w.traffic (pathStates items)
    let started := sorted (live.filter (· ∉ w.arriving))
    let stopped := sorted (w.arriving.filter (· ∉ live))
    ⟨traffic, live, w.log ++ started.map (·, true) ++ stopped.map (·, false)⟩

def statusOf (ready : Option (List Name)) (camera : Camera) : Status :=
  if !camera.enabled then .disabled
  else
    match ready with
    | none => .unreachable
    | some ready => if camera.cameraAlias ∈ ready then .live else .no_signal

def withStatus (now : ℚ) (answer : Option (List (Name × PathState))) (cameras : List Camera) (w : Watched) :
    Watched × List Status :=
  match answer with
  | none => (w, cameras.map (statusOf none))
  | some items =>
    let (traffic, ready) := receiving now w.traffic (pathStates items)
    ({ w with traffic }, cameras.map (statusOf (some ready)))

end Watched

/-- The sync loop's look, or a request's. -/
inductive Event where
  | watch (now : ℚ) (answer : Option (List (Name × PathState)))
  | status (now : ℚ) (answer : Option (List (Name × PathState))) (cameras : List Camera)

def Watched.step (w : Watched) : Event → Watched
  | .watch now answer => w.watchTraffic now answer
  | .status now answer cameras => (w.withStatus now answer cameras).1

def Watched.run (events : List Event) : Watched := events.foldl step {}

/-- One answer of MediaMTX's, and when. -/
structure Look where
  now : ℚ
  paths : Paths

def Look.inbound (look : Look) (name : Name) : Option ℕ := (look.paths.get name).map PathState.inbound

/-- The looks that were answered, newest first. -/
def looksOf (events : List Event) : List Look :=
  (events.filterMap fun
    | .watch now answer | .status now answer _ => answer.map fun items => ⟨now, pathStates items⟩).reverse

def Grows (name : Name) (before after : Look) : Prop :=
  ∃ previous inbound, before.inbound name = some previous ∧ after.inbound name = some inbound ∧ previous < inbound

/-- Of looks newest first, the path was there in every one from the last time its bytes grew, `grew`. -/
def GrewLast (looks : List Look) (name : Name) (grew : ℚ) : Prop :=
  ∃ since after before earlier, looks = since ++ after :: before :: earlier ∧ Grows name before after ∧
    (∀ look ∈ since, (look.inbound name).isSome) ∧
    (since ++ [after]).IsChain (fun newer older => ¬ Grows name older newer) ∧ grew = after.now

/-- Its bytes last grew less than `STALE_S` ago. -/
def Arriving (looks : List Look) (now : ℚ) (name : Name) : Prop :=
  ∃ grew, GrewLast looks name grew ∧ now - grew < STALE_S

/-- `GrewLast`, worked out. -/
def lastGrew (name : Name) : List Look → Option ℚ
  | look :: before :: looks =>
    match look.inbound name, before.inbound name with
    | some inbound, some previous =>
      if inbound > previous then some look.now else lastGrew name (before :: looks)
    | _, _ => none
  | _ => none

/-- What is remembered of a path. -/
def remembered (name : Name) : List Look → Option (ℕ × Option ℚ)
  | look :: looks => (look.inbound name).map fun inbound => (inbound, lastGrew name (look :: looks))
  | [] => none

variable {traffic : Traffic} {paths : Paths} {now : ℚ} {name : Name} {looks : List Look}

private theorem get_foldl_pop (names : List Name) : (names.foldl Dict.pop traffic).get name =
    if name ∈ names then none else traffic.get name := by
  induction names generalizing traffic with
  | nil => simp
  | cons n names ih =>
    rw [List.foldl_cons, ih]
    by_cases hn : n = name
    · subst hn
      simp
    · simp only [List.mem_cons, Ne.symm hn, false_or, Dict.get_pop_of_ne hn]

/-- A path that is not in the answer is forgotten. -/
theorem get_forget : ((traffic.keys.filter (· ∉ paths.keys)).foldl Dict.pop traffic).get name =
    if name ∈ paths.keys then traffic.get name else none := by
  rw [get_foldl_pop]
  by_cases hpath : name ∈ paths.keys
  · simp [hpath]
  · by_cases hkey : name ∈ traffic.keys
    · simp [hpath, hkey]
    · rw [if_neg (by simp [hkey]), if_neg hpath]
      exact Dict.get_eq_none.mpr hkey

/-- What becomes of one entry. -/
def entryAfter (now : ℚ) (inbound : ℕ) : Option (ℕ × Option ℚ) → ℕ × Option ℚ
  | none => (inbound, none)
  | some (previous, grew) => (inbound, if inbound > previous then some now else grew)

private theorem get_lookAt_self (live : List Name) (path : PathState) :
    (lookAt now (traffic, live) (name, path)).1.get name = some (entryAfter now path.inbound (traffic.get name)) := by
  unfold lookAt
  dsimp only
  cases traffic.get name with
  | none => exact Dict.get_put_self
  | some entry =>
    dsimp only [entryAfter]
    split_ifs <;> exact Dict.get_put_self

theorem get_lookAt_of_ne (live : List Name) {n : Name} (path : PathState) (h : n ≠ name) :
    (lookAt now (traffic, live) (n, path)).1.get name = traffic.get name := by
  unfold lookAt
  dsimp only
  split
  · exact Dict.get_put_of_ne h
  · split_ifs <;> exact Dict.get_put_of_ne h

/-- An entry that says the path is live. -/
def Fresh (now : ℚ) (entry : ℕ × Option ℚ) : Prop := ∃ grew, entry.2 = some grew ∧ now - grew < STALE_S

private theorem mem_lookAt (live : List Name) (n : Name) (path : PathState) :
    name ∈ (lookAt now (traffic, live) (n, path)).2 ↔
      name ∈ live ∨ name = n ∧ Fresh now (entryAfter now path.inbound (traffic.get n)) := by
  unfold lookAt
  dsimp only
  cases traffic.get n with
  | none => simp [entryAfter, Fresh]
  | some entry =>
    obtain ⟨previous, grew⟩ := entry
    dsimp only [entryAfter, Fresh]
    split_ifs with hgrew
    · have hstale : (0 : ℚ) < STALE_S := by norm_num [STALE_S]
      simp [hstale, or_comm]
    · cases grew with
      | none => simp
      | some grew =>
        dsimp only
        split_ifs with hfresh
        · simp [hfresh, or_comm]
        · simp [hfresh]

private theorem receiving_foldl (now : ℚ) (traffic : Traffic) (live : List Name) (hkeys : paths.keys.Nodup) :
    (∀ name, (paths.foldl (lookAt now) (traffic, live)).1.get name = match paths.get name with
      | none => traffic.get name
      | some path => some (entryAfter now path.inbound (traffic.get name))) ∧
    ∀ name, name ∈ (paths.foldl (lookAt now) (traffic, live)).2 ↔ name ∈ live ∨ ∃ path, paths.get name = some path ∧
      Fresh now (entryAfter now path.inbound (traffic.get name)) := by
  induction paths generalizing traffic live with
  | nil => simp
  | cons entry paths ih =>
    obtain ⟨n, path⟩ := entry
    obtain ⟨hnew, hkeys⟩ := List.nodup_cons.mp hkeys
    have hnone : Dict.get paths n = none := Dict.get_eq_none.mpr hnew
    obtain ⟨hget, hmem⟩ := ih _ _ hkeys
    refine ⟨fun name => ?_, fun name => ?_⟩
    · rw [List.foldl_cons, hget, Dict.get_cons]
      by_cases hn : n = name
      · subst hn
        rw [hnone, if_pos rfl]
        exact get_lookAt_self live path
      · rw [if_neg hn, get_lookAt_of_ne live path hn]
    · rw [List.foldl_cons, hmem, mem_lookAt, Dict.get_cons]
      by_cases hn : n = name
      · subst hn
        simp [hnone]
      · rw [get_lookAt_of_ne live path hn]
        simp [hn, Ne.symm hn]

private theorem nodup_pathStates (items : List (Name × PathState)) : (pathStates items).keys.Nodup := by
  have hfoldl (states : Paths) (hstates : states.keys.Nodup) :
      (items.foldl (fun states item => states.put item.1 item.2) states).keys.Nodup := by
    induction items generalizing states with
    | nil => exact hstates
    | cons item items ih => exact ih _ (Dict.nodup_put hstates)
  exact hfoldl [] List.nodup_nil

private theorem grewLast_cons {look before : Look} {grew : ℚ} : GrewLast (look :: before :: looks) name grew ↔
    (Grows name before look ∧ grew = look.now) ∨
      ((look.inbound name).isSome ∧ ¬ Grows name before look ∧ GrewLast (before :: looks) name grew) := by
  constructor
  · rintro ⟨since, after, before', earlier, hlooks, hgrows, hthere, hchain, hgrew⟩
    cases since with
    | nil =>
      obtain ⟨rfl, hrest⟩ := List.cons_eq_cons.mp hlooks
      obtain rfl := (List.cons_eq_cons.mp hrest).1
      exact .inl ⟨hgrows, hgrew⟩
    | cons newer since =>
      obtain ⟨rfl, hrest⟩ := List.cons_eq_cons.mp hlooks
      refine .inr ⟨hthere _ List.mem_cons_self, ?_, since, after, before', earlier, hrest, hgrows,
        fun look hlook => hthere look (List.mem_cons_of_mem _ hlook), List.IsChain.tail hchain, hgrew⟩
      cases since with
      | nil =>
        obtain rfl := (List.cons_eq_cons.mp hrest).1
        exact (List.isChain_cons_cons.mp hchain).1
      | cons next since =>
        obtain rfl := (List.cons_eq_cons.mp hrest).1
        exact (List.isChain_cons_cons.mp hchain).1
  · rintro (⟨hgrows, rfl⟩ | ⟨hthere, hsteady, since, after, before', earlier, hlooks, hgrows, hrest, hchain, hgrew⟩)
    · exact ⟨[], look, before, looks, rfl, hgrows, nofun, .singleton _, rfl⟩
    · refine ⟨look :: since, after, before', earlier, by rw [hlooks, List.cons_append], hgrows, ?_, ?_, hgrew⟩
      · exact List.forall_mem_cons.mpr ⟨hthere, hrest⟩
      · cases since with
        | nil =>
          obtain ⟨rfl, -⟩ := List.cons_eq_cons.mp hlooks
          exact .cons_cons hsteady hchain
        | cons next since =>
          obtain ⟨rfl, -⟩ := List.cons_eq_cons.mp hlooks
          exact .cons_cons hsteady hchain

theorem GrewLast.isSome {look : Look} {grew : ℚ} (h : GrewLast (look :: looks) name grew) :
    (look.inbound name).isSome := by
  obtain ⟨since, after, before, earlier, hlooks, ⟨_, _, -, hinbound, -⟩, hthere, -, -⟩ := h
  cases since with
  | nil =>
    obtain ⟨rfl, -⟩ := List.cons_eq_cons.mp hlooks
    rw [hinbound]
    rfl
  | cons newer since =>
    obtain ⟨rfl, -⟩ := List.cons_eq_cons.mp hlooks
    exact hthere _ List.mem_cons_self

private theorem lastGrew_iff {grew : ℚ} : lastGrew name looks = some grew ↔ GrewLast looks name grew := by
  induction looks with
  | nil => simp [lastGrew, GrewLast]
  | cons look looks ih =>
    cases looks with
    | nil =>
      refine iff_of_false nofun ?_
      rintro ⟨since, after, before, earlier, hlooks, -⟩
      have hlength := congrArg List.length hlooks
      simp at hlength
      omega
    | cons before looks =>
      rw [grewLast_cons, lastGrew]
      cases hnew : look.inbound name with
      | none => simp [Grows, hnew]
      | some inbound =>
        cases hold : before.inbound name with
        | none =>
          refine iff_of_false nofun ?_
          rintro (⟨⟨_, _, hprevious, -, -⟩, -⟩ | ⟨-, -, hlast⟩)
          · rw [hold] at hprevious
            cases hprevious
          · have hthere := hlast.isSome
            rw [hold] at hthere
            cases hthere
        | some previous =>
          have hgrows : Grows name before look ↔ previous < inbound := by simp [Grows, hnew, hold]
          dsimp only
          rw [hgrows]
          split_ifs with hmore
          · simp [hmore, eq_comm]
          · simp [hmore, ih]

/-- What is remembered of each path is what the looks so far say. -/
def Remembers (traffic : Traffic) (looks : List Look) : Prop := ∀ name, traffic.get name = remembered name looks

private theorem remembers_nil : Remembers [] [] := fun _ => rfl

theorem entryAfter_remembered (look : Look) (looks : List Look) (name : Name) {inbound : ℕ}
    (hinbound : look.inbound name = some inbound) : entryAfter look.now inbound (remembered name looks) =
      (inbound, lastGrew name (look :: looks)) := by
  cases looks with
  | nil => rfl
  | cons before looks =>
    rw [remembered, lastGrew, hinbound]
    cases before.inbound name with
    | none => rfl
    | some previous => rfl

/-- A look remembers what it should, and finds live the paths that are arriving. -/
theorem receiving_spec (now : ℚ) (items : List (Name × PathState)) (h : Remembers traffic looks) :
    let look : Look := ⟨now, pathStates items⟩
    Remembers (receiving now traffic (pathStates items)).1 (look :: looks) ∧
      ∀ name, name ∈ (receiving now traffic (pathStates items)).2 ↔ Arriving (look :: looks) now name := by
  intro look
  obtain ⟨hget, hmem⟩ := receiving_foldl now ((traffic.keys.filter (· ∉ (pathStates items).keys)).foldl Dict.pop
    traffic) [] (nodup_pathStates items)
  have hforget (name : Name) {path : PathState} (hpath : (pathStates items).get name = some path) :
      ((traffic.keys.filter (· ∉ (pathStates items).keys)).foldl Dict.pop traffic).get name =
        remembered name looks := by
    have hkey : name ∈ (pathStates items).keys := List.mem_map.mpr ⟨_, Dict.mem_of_get hpath, rfl⟩
    rw [get_forget, if_pos hkey, h name]
  refine ⟨fun name => (hget name).trans ?_, fun name => (hmem name).trans ?_⟩
  · cases hpath : (pathStates items).get name with
    | none =>
      dsimp only
      rw [get_forget, if_neg (Dict.get_eq_none.mp hpath), remembered, Look.inbound, hpath]
      rfl
    | some path =>
      dsimp only
      have hinbound : look.inbound name = some path.inbound := by rw [Look.inbound, hpath]; rfl
      rw [hforget name hpath, entryAfter_remembered look looks name hinbound, remembered, hinbound]
      rfl
  · cases hpath : (pathStates items).get name with
    | none =>
      refine iff_of_false (by simp) ?_
      rintro ⟨grew, hgrew, -⟩
      have hthere := hgrew.isSome
      rw [Look.inbound, hpath] at hthere
      cases hthere
    | some path =>
      have hinbound : look.inbound name = some path.inbound := by rw [Look.inbound, hpath]; rfl
      simp only [List.not_mem_nil, false_or, Option.some.injEq, exists_eq_left']
      rw [hforget name hpath, entryAfter_remembered look looks name hinbound]
      simp only [Fresh, Arriving, ← lastGrew_iff]

private theorem looksOf_concat (events : List Event) (e : Event) : looksOf (events ++ [e]) =
    (match e with
      | .watch now answer | .status now answer _ => (answer.map fun items => ⟨now, pathStates items⟩).toList) ++
      looksOf events := by
  unfold looksOf
  rw [List.filterMap_append, List.reverse_append]
  congr 1
  cases e with
  | watch now answer => cases answer <;> rfl
  | status now answer cameras => cases answer <;> rfl

theorem run_concat (events : List Event) (e : Event) : Watched.run (events ++ [e]) = (Watched.run events).step e :=
  List.foldl_concat ..

theorem remembers_run (events : List Event) : Remembers (Watched.run events).traffic (looksOf events) := by
  induction events using List.reverseRecOn with
  | nil => exact remembers_nil
  | append_singleton events e ih =>
    rw [run_concat, looksOf_concat]
    cases e with
    | watch now answer | status now answer cameras =>
      cases answer with
      | none => exact ih
      | some items => exact (receiving_spec _ items ih).1

/-- A name's lines, each whether its video arrived. -/
def Watched.lines (w : Watched) (name : Name) : List Bool :=
  (w.log.filter fun line => line.1 = name).map Prod.snd

/-- `true, false, true, …`. -/
def alternating (n : ℕ) : List Bool := (List.range n).map fun i => i % 2 = 0

theorem lines_sorted {names : List Name} (h : names.Nodup) (arriving : Bool) (name : Name) :
    (((Watched.sorted names).map (·, arriving)).filter fun line => line.1 = name).map Prod.snd =
      if name ∈ names then [arriving] else [] := by
  have hperm : (Watched.sorted names).Perm names := List.mergeSort_perm names _
  have hcount : ((Watched.sorted names).filter fun n => n = name).length = if name ∈ names then 1 else 0 := by
    rw [← List.countP_eq_length_filter, hperm.countP_eq, ← h.count, List.count]
    simp [beq_eq_decide]
  have hline : (((Watched.sorted names).map (·, arriving)).filter fun line => line.1 = name).map Prod.snd =
      List.replicate ((Watched.sorted names).filter fun n => n = name).length arriving := by
    rw [List.filter_map, List.map_map, List.eq_replicate_iff]
    simp [Function.comp_def]
  rw [hline, hcount]
  split_ifs <;> rfl

private theorem nodup_lookAt {s : Traffic × List Name} (h : s.2.Nodup) (path : Name × PathState) :
    (lookAt now s path).2.Nodup := by
  unfold lookAt
  dsimp only
  cases s.1.get path.1 with
  | none => exact h
  | some entry =>
    dsimp only
    split_ifs
    · exact h.insert
    · cases entry.2 with
      | none => exact h
      | some grew =>
        dsimp only
        split_ifs
        · exact h.insert
        · exact h

theorem nodup_receiving (now : ℚ) (paths : Paths) (traffic : Traffic) : (receiving now traffic paths).2.Nodup := by
  have hfoldl (s : Traffic × List Name) (h : s.2.Nodup) : (paths.foldl (lookAt now) s).2.Nodup := by
    induction paths generalizing s with
    | nil => exact h
    | cons path paths ih => exact ih _ (nodup_lookAt h path)
  exact hfoldl _ List.nodup_nil

/-- A path's lines alternate, from its video arriving on, and it is watched as arriving where the last says so. -/
structure Alternates (w : Watched) : Prop where
  nodup : w.arriving.Nodup
  lines : ∀ name, ∃ n, w.lines name = alternating n ∧ (name ∈ w.arriving ↔ n % 2 = 1)

/-- A look adds a line of a path that started, or stopped. -/
theorem lines_watchTraffic {w : Watched} (h : w.arriving.Nodup) (now : ℚ) (items : List (Name × PathState))
    (name : Name) :
    let live := (receiving now w.traffic (pathStates items)).2
    (w.watchTraffic now (some items)).lines name = w.lines name ++
      (if name ∈ live ∧ name ∉ w.arriving then [true] else []) ++
      if name ∈ w.arriving ∧ name ∉ live then [false] else [] := by
  intro live
  have hstarted := lines_sorted ((nodup_receiving now (pathStates items) w.traffic).filter
    (· ∉ w.arriving)) true name
  have hstopped := lines_sorted (h.filter (· ∉ live)) false name
  simp only [List.mem_filter, decide_eq_true_eq] at hstarted hstopped
  unfold Watched.lines Watched.watchTraffic
  dsimp only
  rw [List.filter_append, List.filter_append, List.map_append, List.map_append, hstarted, hstopped]

theorem alternating_succ (n : ℕ) : alternating (n + 1) = alternating n ++ [decide (n % 2 = 0)] := by
  unfold alternating
  rw [List.range_succ, List.map_append, List.map_singleton]

theorem Alternates.watchTraffic {w : Watched} (h : Alternates w) (now : ℚ) (items : List (Name × PathState)) :
    Alternates (w.watchTraffic now (some items)) := by
  refine ⟨nodup_receiving _ _ _, fun name => ?_⟩
  obtain ⟨n, hn, harriving⟩ := h.lines name
  rw [lines_watchTraffic h.nodup, hn]
  change ∃ m, _ = _ ∧ (name ∈ (receiving now w.traffic (pathStates items)).2 ↔ _)
  by_cases hwas : name ∈ w.arriving <;> by_cases hlive : name ∈ (receiving now w.traffic (pathStates items)).2
  · exact ⟨n, by simp [hwas, hlive], by simp [hlive, harriving.mp hwas]⟩
  · have hodd : n % 2 = 1 := harriving.mp hwas
    refine ⟨n + 1, ?_, iff_of_false hlive (by omega)⟩
    rw [alternating_succ, hodd]
    simp [hwas, hlive]
  · have heven : n % 2 = 0 := by
      have hnot := mt harriving.mpr hwas
      omega
    refine ⟨n + 1, ?_, iff_of_true hlive (by omega)⟩
    rw [alternating_succ, heven]
    simp [hwas, hlive]
  · exact ⟨n, by simp [hwas, hlive], iff_of_false hlive (mt harriving.mpr hwas)⟩

theorem alternates_run (events : List Event) : Alternates (Watched.run events) := by
  induction events using List.reverseRecOn with
  | nil => exact ⟨List.nodup_nil, fun name => ⟨0, rfl, by simp [Watched.run]⟩⟩
  | append_singleton events e ih =>
    rw [run_concat]
    cases e with
    | watch now answer =>
      cases answer with
      | none => exact ih
      | some items => exact ih.watchTraffic now items
    | status now answer cameras =>
      cases answer with
      | none => exact ih
      | some items => exact ⟨ih.nodup, ih.lines⟩

/-- What a camera's status says, of the looks before the request and its own. -/
def Shows (looks : List Look) (look : Option Look) (camera : Camera) : Status → Prop
  | .disabled => camera.enabled = false
  | .unreachable => camera.enabled = true ∧ look = none
  | .live => camera.enabled = true ∧ ∃ l, look = some l ∧ Arriving (l :: looks) l.now camera.cameraAlias
  | .no_signal => camera.enabled = true ∧ ∃ l, look = some l ∧ ¬ Arriving (l :: looks) l.now camera.cameraAlias

/-- The statuses given at any time are the looks', the sync loop's and the requests' alike. -/
theorem statuses_shown (events : List Event) (now : ℚ) (answer : Option (List (Name × PathState)))
    (cameras : List Camera) : cameras.Forall₂ (Shows (looksOf events) (answer.map fun items => ⟨now, pathStates items⟩))
      ((Watched.run events).withStatus now answer cameras).2 := by
  cases answer with
  | none =>
    unfold Watched.withStatus
    rw [List.forall₂_map_right_iff, List.forall₂_same]
    intro camera _
    unfold Watched.statusOf
    cases henabled : camera.enabled
    · exact henabled
    · exact ⟨henabled, rfl⟩
  | some items =>
    have hlive := (receiving_spec now items (remembers_run events)).2
    unfold Watched.withStatus
    rw [List.forall₂_map_right_iff, List.forall₂_same]
    intro camera _
    unfold Watched.statusOf
    dsimp only
    cases henabled : camera.enabled
    · exact henabled
    · simp only [Bool.not_true, Bool.false_eq_true, if_false]
      split_ifs with hready
      · exact ⟨henabled, _, rfl, (hlive _).mp hready⟩
      · exact ⟨henabled, _, rfl, mt (hlive _).mpr hready⟩

/-- The log tells of each path by turns that its video arrives and that it stopped, and a look leaves it at whether
it is arriving then; a request tells of nothing. -/
theorem lines_alternate (events : List Event) :
    (∀ name, ∃ n, (Watched.run events).lines name = alternating n) ∧
      (∀ now items name, ∃ n, (Watched.run (events ++ [.watch now (some items)])).lines name = alternating n ∧
        (n % 2 = 1 ↔ Arriving (⟨now, pathStates items⟩ :: looksOf events) now name)) ∧
      ∀ now answer cameras, (Watched.run (events ++ [.status now answer cameras])).log = (Watched.run events).log := by
  refine ⟨fun name => ?_, fun now items name => ?_, fun now answer cameras => ?_⟩
  · obtain ⟨n, hn, -⟩ := (alternates_run events).lines name
    exact ⟨n, hn⟩
  · obtain ⟨n, hn, harriving⟩ := (alternates_run (events ++ [.watch now (some items)])).lines name
    refine ⟨n, hn, harriving.symm.trans ?_⟩
    rw [run_concat]
    exact (receiving_spec now items (remembers_run events)).2 name
  · rw [run_concat]
    cases answer with
    | none => rfl
    | some items => rfl

end Kanat.CameraTraffic
