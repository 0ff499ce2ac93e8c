import Kanat.ExactDistance

/-! # The Runs stored with their Sessions, and how far each watched

A transaction of `add_once` or of `_follow` is one step: two threads' steps come in any order. Coordinates are
exact, so that only a division by zero raises. -/
namespace Kanat.StoredRuns
open ExactDistance

def movedPx : ℚ := 2

abbrev Homography := Fin 3 → Fin 3 → ℚ
abbrev Point := ℚ × ℚ

structure BaselineView where
  takenAt : ℚ
  picture : ℕ × ℕ
  templateToPicture : Homography
  targets : List (List Point)
  baselineMarks : List Point

/-- Where a Look showed the Board, and the Look's frame time. -/
structure Place where
  time : ℚ
  templateToPicture : Homography

/-- How far a Run has watched, as a status read or an end's answer reports it. -/
structure Run where
  registered : Option Place
  lookedAt : Option ℚ

/-- A row of `runs`: its places are never empty. -/
structure StoredRun (Id : Type) where
  sessionId : Id
  cameraAlias : String
  takenAt : ℚ
  baselineView : BaselineView
  places : List Place
  watchedUntil : ℚ
  placed : places ≠ []

/-- A template point in picture px; `none` where it divides by zero. -/
def toPicture (H : Homography) (point : Point) : Option Point :=
  let (x, y) := point
  let w := H 2 0 * x + H 2 1 * y + H 2 2
  if w = 0 then none else some ((H 0 0 * x + H 0 1 * y + H 0 2) / w, (H 1 0 * x + H 1 1 * y + H 1 2) / w)

/-- Does the Board lie elsewhere at any of these points, as far as they are asked? -/
def moved (last new : Homography) : List Point → Option Bool
  | [] => some false
  | p :: points =>
    (toPicture last p).bind fun a => (toPicture new p).bind fun b =>
      if Longer (a.1 - b.1) (a.2 - b.2) movedPx then some true else moved last new points

inductive Followed (Id : Type) where
  | unchanged
  | raised
  | moved (stored : StoredRun Id) (pushed : Bool)

variable {Id : Type}

namespace StoredRun

def key (stored : StoredRun Id) : Id × ℚ := (stored.sessionId, stored.takenAt)

def follow (stored : StoredRun Id) (run : Run) : Followed Id :=
  match run.lookedAt with
  | none => .unchanged
  | some lookedAt =>
    if lookedAt ≤ stored.watchedUntil then .unchanged
    else
      let last := stored.places.getLast stored.placed
      match run.registered with
      | none => .moved { stored with watchedUntil := lookedAt } false
      | some new =>
        match moved last.templateToPicture new.templateToPicture stored.baselineView.targets.flatten with
        | none => .raised
        | some false => .moved { stored with watchedUntil := lookedAt } false
        | some true =>
          .moved { stored with
            watchedUntil := lookedAt
            places := stored.places ++ [new]
            placed := List.append_ne_nil_of_right_ne_nil _ (List.cons_ne_nil new []) } true

/-- The row `add_once` inserts: placed where its baseline frame showed the Board, and watched until then. -/
def ofBaseline (session : Id) (aliasName : String) (view : BaselineView) : StoredRun Id where
  sessionId := session
  cameraAlias := aliasName
  takenAt := view.takenAt
  baselineView := view
  places := [⟨view.takenAt, view.templateToPicture⟩]
  watchedUntil := view.takenAt
  placed := List.cons_ne_nil _ _

end StoredRun

/-- The Runs stored, and the `run_moved` pushed. -/
structure Database (Id : Type) where
  runs : List (StoredRun Id)
  pushed : List (Id × ℚ)

inductive Step (Id : Type) where
  | addOnce (session : Id) (aliasName : String) (view : BaselineView)
  | follow (session : Id) (takenAt : ℚ) (run : Run)

namespace Database
variable [DecidableEq Id]

/-- `get_for_update` -/
def get (db : Database Id) (key : Id × ℚ) : Option (StoredRun Id) := db.runs.find? fun stored => stored.key = key

def save (db : Database Id) (stored : StoredRun Id) : Database Id :=
  { db with runs := db.runs.map fun row => if row.key = stored.key then stored else row }

/-- One already stored is not stored again. -/
def addOnce (db : Database Id) (stored : StoredRun Id) : Database Id :=
  if (db.get stored.key).isSome then db else { db with runs := db.runs ++ [stored] }

/-- One that raises is rolled back. -/
def follow (db : Database Id) (key : Id × ℚ) (run : Run) : Database Id :=
  match db.get key with
  | none => db
  | some stored =>
    match stored.follow run with
    | .unchanged | .raised => db
    | .moved stored pushed =>
      let db := db.save stored
      if pushed then { db with pushed := db.pushed ++ [key] } else db

def step (db : Database Id) : Step Id → Database Id
  | .addOnce session aliasName view => db.addOnce (.ofBaseline session aliasName view)
  | .follow session takenAt run => db.follow (session, takenAt) run

/-- Was `_follow` given the row, and did it return? -/
def follows (db : Database Id) (key : Id × ℚ) (run : Run) : Bool :=
  match db.get key with
  | none => false
  | some stored =>
    match stored.follow run with
    | .raised => false
    | .unchanged | .moved .. => true

/-- The reads of one Run that were applied, in order. -/
def applied (key : Id × ℚ) (db : Database Id) : List (Step Id) → List Run
  | [] => []
  | .addOnce session aliasName view :: steps => applied key (db.step (.addOnce session aliasName view)) steps
  | .follow session takenAt run :: steps =>
    let rest := applied key (db.step (.follow session takenAt run)) steps
    if (session, takenAt) = key ∧ db.follows key run then run :: rest else rest

end Database

/-- Does the second place show the Board elsewhere than the first, at a Target outline point? -/
def MovedFrom (view : BaselineView) (last new : Place) : Prop :=
  ∃ outline ∈ view.targets, ∃ p ∈ outline, ∃ a b,
    toPicture last.templateToPicture p = some a ∧ toPicture new.templateToPicture p = some b ∧
      movedPx < √(((a.1 - b.1 : ℚ) : ℝ) ^ 2 + ((a.2 - b.2 : ℚ) : ℝ) ^ 2)

/-- When each read looked and when its place was registered, the baseline's first. -/
def times (takenAt : ℚ) (reads : List Run) : List (ℚ × ℚ) :=
  (takenAt, takenAt) :: reads.filterMap fun run => run.lookedAt.bind fun lookedAt => run.registered.map (lookedAt, ·.time)

/-- Reads that looked later were registered later. -/
def InOrder (takenAt : ℚ) (reads : List Run) : Prop :=
  ∀ a ∈ times takenAt reads, ∀ b ∈ times takenAt reads, a.1 < b.1 → a.2 ≤ b.2

structure Forward (stored : StoredRun Id) (reads : List Run) : Prop where
  watchedUntil : stored.watchedUntil = (reads.filterMap (·.lookedAt)).foldl max stored.takenAt
  baseline : stored.places.head? = some ⟨stored.takenAt, stored.baselineView.templateToPicture⟩
  moved : stored.places.IsChain (MovedFrom stored.baselineView)
  inOrder : InOrder stored.takenAt reads → stored.places.IsChain fun p q => p.time ≤ q.time
  latest : ∃ lookedAt ≤ stored.watchedUntil,
    (lookedAt, (stored.places.getLast stored.placed).time) ∈ times stored.takenAt reads

private theorem movedFrom_of_moved {view : BaselineView} {last new : Place}
    (h : moved last.templateToPicture new.templateToPicture view.targets.flatten = some true) :
    MovedFrom view last new := by
  have hpoint (points : List Point) (h : moved last.templateToPicture new.templateToPicture points = some true) :
      ∃ p ∈ points, ∃ a b, toPicture last.templateToPicture p = some a ∧
        toPicture new.templateToPicture p = some b ∧ Longer (a.1 - b.1) (a.2 - b.2) movedPx := by
    induction points with
    | nil => simp [StoredRuns.moved] at h
    | cons p points ih =>
      obtain ⟨a, ha, hb⟩ := Option.bind_eq_some_iff.mp h
      obtain ⟨b, hb, hrest⟩ := Option.bind_eq_some_iff.mp hb
      split_ifs at hrest with hlonger
      · exact ⟨p, List.mem_cons_self, a, b, ha, hb, hlonger⟩
      · obtain ⟨q, hq, hmoved⟩ := ih hrest
        exact ⟨q, List.mem_cons_of_mem p hq, hmoved⟩
  obtain ⟨p, hp, a, b, ha, hb, hlonger⟩ := hpoint _ h
  obtain ⟨outline, houtline, hp⟩ := List.mem_flatten.mp hp
  exact ⟨outline, houtline, p, hp, a, b, ha, hb, (longer_iff _ _ _).mp hlonger⟩

namespace StoredRun

/-- Everything `_follow` may do with a read. -/
theorem follow_cases (stored : StoredRun Id) (run : Run) :
    (stored.follow run = .unchanged ∧ ∀ lookedAt ∈ run.lookedAt, lookedAt ≤ stored.watchedUntil) ∨
      (stored.follow run = .raised ∧ ∃ lookedAt ∈ run.lookedAt, stored.watchedUntil < lookedAt) ∨
      ∃ stored' lookedAt pushed, stored.follow run = .moved stored' pushed ∧ run.lookedAt = some lookedAt ∧
        stored.watchedUntil < lookedAt ∧ stored'.watchedUntil = lookedAt ∧ stored'.key = stored.key ∧
        stored'.takenAt = stored.takenAt ∧ stored'.baselineView = stored.baselineView ∧
        (stored'.places = stored.places ∨
          ∃ new, run.registered = some new ∧ stored'.places = stored.places ++ [new] ∧
            MovedFrom stored.baselineView (stored.places.getLast stored.placed) new) := by
  rw [follow]
  cases hlooked : run.lookedAt with
  | none => exact Or.inl ⟨rfl, by simp⟩
  | some lookedAt =>
    by_cases hold : lookedAt ≤ stored.watchedUntil
    · exact Or.inl ⟨if_pos hold, by simpa using hold⟩
    · simp only [hold, if_false]
      refine Or.inr ?_
      cases hregistered : run.registered with
      | none => exact Or.inr ⟨_, lookedAt, _, rfl, rfl, not_le.mp hold, rfl, rfl, rfl, rfl, Or.inl rfl⟩
      | some new =>
        cases hmoved : StoredRuns.moved (stored.places.getLast stored.placed).templateToPicture new.templateToPicture
            stored.baselineView.targets.flatten with
        | none => exact Or.inl ⟨by simp only [hmoved], lookedAt, rfl, not_le.mp hold⟩
        | some elsewhere =>
          cases elsewhere with
          | false =>
            simp only [hmoved]
            exact Or.inr ⟨_, lookedAt, _, rfl, rfl, not_le.mp hold, rfl, rfl, rfl, rfl, Or.inl rfl⟩
          | true =>
            simp only [hmoved]
            exact Or.inr ⟨_, lookedAt, _, rfl, rfl, not_le.mp hold, rfl, rfl, rfl, rfl,
              Or.inr ⟨new, rfl, rfl, movedFrom_of_moved hmoved⟩⟩

/-- The row after a read: as it was, where that changes nothing or raises. -/
def after (stored : StoredRun Id) (run : Run) : StoredRun Id :=
  match stored.follow run with
  | .unchanged | .raised => stored
  | .moved stored _ => stored

private theorem after_of_moved {stored stored' : StoredRun Id} {run : Run} {pushed : Bool}
    (h : stored.follow run = .moved stored' pushed) : stored.after run = stored' := by
  rw [after, h]

theorem after_of_not_moved {stored : StoredRun Id} {run : Run}
    (h : stored.follow run = .unchanged ∨ stored.follow run = .raised) : stored.after run = stored := by
  rcases h with h | h <;> rw [after, h]

private theorem after_key (stored : StoredRun Id) (run : Run) : (stored.after run).key = stored.key := by
  rw [after]
  obtain ⟨h, -⟩ | ⟨h, -⟩ | ⟨stored', lookedAt, pushed, h, -, -, -, hkey, -⟩ := stored.follow_cases run
  · rw [h]
  · rw [h]
  · rw [h]
    exact hkey

private theorem watchedUntil_le_after (stored : StoredRun Id) (run : Run) :
    stored.watchedUntil ≤ (stored.after run).watchedUntil := by
  rw [after]
  obtain ⟨h, -⟩ | ⟨h, -⟩ | ⟨stored', lookedAt, pushed, h, -, hlater, hwatched, -⟩ := stored.follow_cases run
  · rw [h]
  · rw [h]
  · rw [h, hwatched]
    exact hlater.le

end StoredRun

theorem mem_times_append {takenAt : ℚ} {reads : List Run} {run : Run} {time : ℚ × ℚ} (h : time ∈ times takenAt reads) :
    time ∈ times takenAt (reads ++ [run]) := by
  rw [times, List.filterMap_append, ← List.cons_append]
  exact List.mem_append_left _ h

theorem InOrder.of_append {takenAt : ℚ} {reads : List Run} {run : Run} (h : InOrder takenAt (reads ++ [run])) :
    InOrder takenAt reads :=
  fun a ha b hb => h a (mem_times_append ha) b (mem_times_append hb)

theorem Forward.ofBaseline (session : Id) (aliasName : String) (view : BaselineView) :
    Forward (.ofBaseline session aliasName view) [] :=
  ⟨rfl, rfl, List.isChain_singleton _, fun _ => List.isChain_singleton _, view.takenAt, le_rfl, List.mem_cons_self⟩

theorem Forward.follow {stored : StoredRun Id} {reads : List Run} (h : Forward stored reads) {run : Run}
    (hreturned : stored.follow run ≠ .raised) : Forward (stored.after run) (reads ++ [run]) := by
  rw [StoredRun.after]
  obtain ⟨hfollow, hstale⟩ | ⟨hraised, -⟩ |
    ⟨stored', lookedAt, pushed, hfollow, hlooked, hlater, hwatched, -, htaken, hview, hplaces⟩ := stored.follow_cases run
  · rw [hfollow]
    refine ⟨?_, h.baseline, h.moved, fun horder => h.inOrder horder.of_append, ?_⟩
    · rw [List.filterMap_append, List.foldl_append, ← h.watchedUntil]
      cases hlooked : run.lookedAt with
      | none => simp [hlooked]
      | some lookedAt => simpa [hlooked] using hstale lookedAt hlooked
    · obtain ⟨lookedAt, hle, hmem⟩ := h.latest
      exact ⟨lookedAt, hle, mem_times_append hmem⟩
  · exact absurd hraised hreturned
  · rw [hfollow]
    have hmax : stored'.watchedUntil =
        ((reads ++ [run]).filterMap (·.lookedAt)).foldl max stored'.takenAt := by
      rw [List.filterMap_append, List.foldl_append, htaken, ← h.watchedUntil, hwatched]
      simp [hlooked, hlater.le]
    obtain ⟨latest, hle', hmem⟩ := h.latest
    have hle : latest ≤ stored'.watchedUntil := hwatched ▸ hle'.trans hlater.le
    obtain hsame | ⟨new, hregistered, hnew, hmoved⟩ := hplaces
    · refine ⟨hmax, ?_, ?_, ?_, latest, hle, ?_⟩
      · rw [hsame, htaken, hview]
        exact h.baseline
      · rw [hsame, hview]
        exact h.moved
      · rw [hsame, htaken]
        exact fun horder => h.inOrder horder.of_append
      · simp only [hsame, htaken]
        exact mem_times_append hmem
    · have hread : (lookedAt, new.time) ∈ times stored'.takenAt (reads ++ [run]) := by
        simp [times, hlooked, hregistered]
      have hlast : ∀ p ∈ stored.places.getLast?, p = stored.places.getLast stored.placed := by
        simp [List.getLast?_eq_some_getLast stored.placed]
      refine ⟨hmax, ?_, ?_, fun horder => ?_, lookedAt, hwatched.ge, by simpa only [hnew, List.getLast_concat]⟩
      · rw [hnew, List.head?_append_of_ne_nil _ stored.placed, htaken, hview]
        exact h.baseline
      · rw [hnew, hview]
        refine h.moved.append (List.isChain_singleton new) fun p hp q hq => ?_
        rw [hlast p hp, ← Option.mem_some_iff.mp hq]
        exact hmoved
      · rw [hnew]
        rw [htaken] at horder hread
        refine (h.inOrder horder.of_append).append (List.isChain_singleton new) fun p hp q hq => ?_
        rw [hlast p hp, ← Option.mem_some_iff.mp hq]
        exact horder _ (mem_times_append hmem) _ hread (hle'.trans_lt hlater)

namespace Database
variable [DecidableEq Id] {db : Database Id} {key other : Id × ℚ}

theorem get_key {stored : StoredRun Id} (h : db.get key = some stored) : stored.key = key := by
  simpa using List.find?_some h

private theorem get_save (stored : StoredRun Id) :
    (db.save stored).get key = (db.get key).map fun row => if key = stored.key then stored else row := by
  have hkeys : (fun row : StoredRun Id => decide (row.key = key)) ∘
      (fun row => if row.key = stored.key then stored else row) = fun row => decide (row.key = key) := by
    funext row
    by_cases h : row.key = stored.key <;> simp [h]
  rw [get, save, List.find?_map, hkeys]
  refine Option.map_congr fun row hrow => ?_
  rw [get_key hrow]

theorem get_addOnce (stored : StoredRun Id) :
    (db.addOnce stored).get key = (db.get key).or (if stored.key = key then some stored else none) := by
  rw [addOnce]
  split_ifs with hstored hkey hkey
  · obtain ⟨row, hrow⟩ := Option.isSome_iff_exists.mp hstored
    rw [← hkey, hrow]
    rfl
  · rw [Option.or_none]
  · simp [get, List.find?_append, hkey]
  · simp [get, List.find?_append, hkey]

theorem get_follow (run : Run) :
    (db.follow other run).get key = (db.get key).map fun row => if key = other then row.after run else row := by
  have hpushed (db : Database Id) (pushed : Bool) :
      (if pushed then { db with pushed := db.pushed ++ [other] } else db).get key = db.get key := by
    cases pushed <;> rfl
  rw [follow]
  cases hget : db.get other with
  | none =>
    by_cases hkey : key = other
    · rw [hkey, hget]
      rfl
    · simp [hkey]
  | some stored =>
    have hrow (row : StoredRun Id) (hrow : db.get key = some row) (hkey : key = other) : row = stored := by
      rw [hkey, hget, Option.some.injEq] at hrow
      exact hrow.symm
    have hsame (hafter : stored.after run = stored) :
        db.get key = (db.get key).map fun row => if key = other then row.after run else row := by
      conv_lhs => rw [← Option.map_id' (x := db.get key)]
      refine Option.map_congr fun row hmem => ?_
      split_ifs with hkey
      · rw [hrow row hmem hkey, hafter]
      · rfl
    cases hfollow : stored.follow run with
    | unchanged =>
      simp only [hfollow]
      exact hsame (StoredRun.after_of_not_moved (Or.inl hfollow))
    | raised =>
      simp only [hfollow]
      exact hsame (StoredRun.after_of_not_moved (Or.inr hfollow))
    | moved stored' pushed =>
      simp only [hfollow]
      rw [hpushed, get_save, ← StoredRun.after_of_moved hfollow, stored.after_key run, get_key hget]
      refine Option.map_congr fun row hmem => ?_
      split_ifs with hkey
      · rw [hrow row hmem hkey]
      · rfl

/-- A row moves forward through every step, by the reads applied to it. -/
theorem forward_of_stored (steps : List (Step Id)) {stored : StoredRun Id} {reads : List Run}
    (hget : db.get key = some stored) (h : Forward stored reads) :
    ∃ stored', (steps.foldl step db).get key = some stored' ∧ stored.watchedUntil ≤ stored'.watchedUntil ∧
      Forward stored' (reads ++ applied key db steps) := by
  induction steps generalizing db stored reads with
  | nil => exact ⟨stored, hget, le_rfl, by simpa [applied] using h⟩
  | cons first steps ih =>
    cases first with
    | addOnce session aliasName view =>
      have hnext : (db.step (.addOnce session aliasName view)).get key = some stored := by
        rw [step, get_addOnce, hget]
        rfl
      exact ih hnext h
    | follow session takenAt run =>
      have hnext : (db.step (.follow session takenAt run)).get key =
          some (if key = (session, takenAt) then stored.after run else stored) := by
        rw [step, get_follow, hget]
        rfl
      rw [applied]
      by_cases hkey : (session, takenAt) = key
      · rw [if_pos hkey.symm] at hnext
        have hle := stored.watchedUntil_le_after run
        by_cases hraised : stored.follow run = .raised
        · have hsame : stored.after run = stored := StoredRun.after_of_not_moved (Or.inr hraised)
          have hfollows : db.follows key run = false := by simp [follows, hget, hraised]
          rw [hsame] at hnext
          simpa [hfollows] using ih hnext h
        · have hfollows : db.follows key run = true := by
            simp only [follows, hget]
            cases hfollow : stored.follow run with
            | raised => exact absurd hfollow hraised
            | unchanged => rfl
            | moved => rfl
          obtain ⟨stored', hget', hwatched, hforward⟩ := ih hnext (h.follow hraised)
          refine ⟨stored', hget', hle.trans hwatched, ?_⟩
          simpa [hkey, hfollows] using hforward
      · rw [if_neg (Ne.symm hkey)] at hnext
        simpa [hkey] using ih hnext h

private theorem forward_of_new (steps : List (Step Id)) {stored : StoredRun Id} (hnew : db.get key = none)
    (hget : (steps.foldl step db).get key = some stored) : Forward stored (applied key db steps) := by
  induction steps generalizing db with
  | nil => rw [List.foldl_nil, hnew] at hget; cases hget
  | cons first steps ih =>
    cases first with
    | addOnce session aliasName view =>
      have hnext : (db.step (.addOnce session aliasName view)).get key =
          if (session, view.takenAt) = key then some (.ofBaseline session aliasName view) else none := by
        rw [step, get_addOnce, hnew]
        rfl
      by_cases hkey : (session, view.takenAt) = key
      · rw [if_pos hkey] at hnext
        obtain ⟨stored', hget', -, hforward⟩ := forward_of_stored steps hnext (.ofBaseline session aliasName view)
        rw [List.foldl_cons, hget', Option.some.injEq] at hget
        exact hget ▸ hforward
      · exact ih (hnext.trans (if_neg hkey)) hget
    | follow session takenAt run =>
      have hnext : (db.step (.follow session takenAt run)).get key = none := by
        rw [step, get_follow, hnew]
        rfl
      have hfollows : db.follows key run = false := by rw [follows, hnew]
      rw [applied]
      simpa [hfollows] using ih hnext hget

/-- A stored Run only moves forward: what its row is after any steps, of reads in any order and of any Runs. -/
theorem moves_forward (db : Database Id) (key : Id × ℚ) (steps : List (Step Id)) (stored : StoredRun Id)
    (hnew : db.get key = none) (hstored : (steps.foldl step db).get key = some stored) :
    stored.watchedUntil = ((applied key db steps).filterMap (·.lookedAt)).foldl max stored.takenAt ∧
      stored.places.head? = some ⟨stored.takenAt, stored.baselineView.templateToPicture⟩ ∧
      stored.places.IsChain (MovedFrom stored.baselineView) ∧
      (InOrder stored.takenAt (applied key db steps) → stored.places.Pairwise fun p q => p.time ≤ q.time) ∧
      (∀ next, ∃ stored', ((steps ++ [next]).foldl step db).get key = some stored' ∧
        stored.watchedUntil ≤ stored'.watchedUntil) ∧
      ∀ run : Run, (∀ lookedAt ∈ run.lookedAt, lookedAt ≤ stored.watchedUntil) →
        (steps ++ [Step.follow key.1 key.2 run]).foldl step db = steps.foldl step db := by
  have hforward := forward_of_new steps hnew hstored
  refine ⟨hforward.watchedUntil, hforward.baseline, hforward.moved, fun horder => ?_, fun next => ?_, fun run hstale => ?_⟩
  · exact List.isChain_iff_pairwise.mp (hforward.inOrder horder)
  · obtain ⟨stored', hget, hle, -⟩ := forward_of_stored [next] hstored hforward
    rw [List.foldl_append]
    exact ⟨stored', hget, hle⟩
  · rw [List.foldl_append]
    have hunchanged : stored.follow run = .unchanged := by
      obtain ⟨h, -⟩ | ⟨-, lookedAt, hlooked, hlater⟩ | ⟨stored', lookedAt, pushed, h, hlooked, hlater, -⟩ :=
        stored.follow_cases run
      · exact h
      · exact absurd (hstale lookedAt hlooked) (not_le.mpr hlater)
      · exact absurd (hstale lookedAt hlooked) (not_le.mpr hlater)
    change (steps.foldl step db).follow key run = _
    simp only [follow, hstored, hunchanged]

/-- A Board moved 3 px to the right, read at 5 s and then, late, at 3 s. -/
def movedBoard : List (Step ℕ) :=
  let shown (x : ℚ) : Homography := fun i j => if i = j then 1 else if i = 0 ∧ j = 2 then x else 0
  [.addOnce 0 "range" ⟨0, (2, 2), shown 0, [[(1, 1)]], []⟩, .follow 0 0 ⟨some ⟨4, shown 3⟩, some 5⟩,
    .follow 0 0 ⟨some ⟨2, shown 1⟩, some 3⟩]

theorem moves_forward_movedBoard :
    ∃ stored, (movedBoard.foldl step ⟨[], []⟩).get (0, 0) = some stored ∧
      (stored.watchedUntil, stored.places.map (·.time)) = (5, [0, 4]) ∧
      stored.places.IsChain (MovedFrom stored.baselineView) := by
  have hboard : ((movedBoard.foldl step ⟨[], []⟩).get (0, 0)).map
      (fun stored => (stored.watchedUntil, stored.places.map (·.time))) = some (5, [0, 4]) := by decide +kernel
  obtain ⟨stored, hstored, hread⟩ := Option.map_eq_some_iff.mp hboard
  exact ⟨stored, hstored, hread, (moves_forward ⟨[], []⟩ (0, 0) movedBoard stored rfl hstored).2.2.1⟩

end Database
end Kanat.StoredRuns
