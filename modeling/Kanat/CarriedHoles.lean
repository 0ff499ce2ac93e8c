import Kanat.CarryShift
import Kanat.MemoTables

/-! # Bullet Holes carried over from earlier Runs (utils/overlay.ts: runOf, carriersOnto, holesOver)

`parse` is `Date.parse`, with `none` for its NaN. What a reference refers to does not change: a refetched view is either
the object it was or a new one. -/
namespace Kanat.CarriedHoles
open CarryShift MemoTables

variable {K : Type} [Field K] [LinearOrder K]

structure BulletHole (K : Type) where
  firstSeenAt : String
  position : Point K

abbrev Carrier (K : Type) := Point K → Option (Point K)

/-- What `JSON.stringify` writes into a key, and so what keys are told apart by. -/
structure Key (K : Type) where
  takenAt : String
  last : Option (Place K)
  holes : List (Point K)
deriving DecidableEq

def keyOf (e : RunGeometry K × List (Point K)) : Key K := ⟨e.1.takenAt, e.1.places.getLast?, e.2⟩

section
variable (parse : String → Option ℤ)

/-- `Date.parse(r.taken_at) <= seen`, which no NaN is. -/
def startedBy (seen : Option ℤ) (r : RunGeometry K) : Bool :=
  match parse r.takenAt, seen with
  | some taken, some seen => taken ≤ seen
  | _, _ => false

def runOf (runs : List (RunGeometry K)) (firstSeenAt : String) : Option (RunGeometry K) :=
  (runs.filter (startedBy parse (parse firstSeenAt))).getLast?.or runs.head?

/-- One call's arguments. -/
structure Call (K : Type) where
  run : RunGeometry K
  runs : List (RunGeometry K)
  bullets : List (BulletHole K)

namespace Call
variable (call : Call K)

def owners : List (RunGeometry K) := call.bullets.map fun b => (runOf parse call.runs b.firstSeenAt).getD call.run

def positions : List (Point K) := call.bullets.map fun b => b.position

/-- Each other Run that owns a Bullet Hole, once, with the ones it owns. -/
def carried : List (RunGeometry K × List (Point K)) :=
  (((call.owners parse).eraseDupsBy fun a b => a.ref == b.ref).filter fun owner => owner.takenAt ≠ call.run.takenAt).map
    fun owner =>
      (owner, (((call.owners parse).zip call.positions).filter fun e => e.1.ref = owner.ref).map fun e => e.2)

/-- A `Map` keeps the last carrier set for a `taken_at`; what has none stays where it is. -/
def drawn (carriers : List (Carrier K)) : List (Option (Point K)) :=
  let carriers := (((call.carried parse).map fun e => e.1.takenAt).zip carriers).reverse
  ((call.owners parse).zip call.positions).map fun e =>
    match carriers.lookup e.1.takenAt with
    | some carry => carry e.2
    | none => some e.2

end Call

variable (hypot : K → K → K) (views : ℕ → BaselineView K)

/-- The carriers worked out, by the Baseline View carried onto. -/
abbrev Known (K : Type) := ℕ → List (Key K × Carrier K)

def holesOver (carriersOnto : Known K) (call : Call K) : Known K × Except Raised (List (Option (Point K))) :=
  let carriers := answerAll keyOf (fun e => carrier hypot views e.1 call.run e.2) (carriersOnto call.run.baselineView)
    (call.carried parse)
  (Function.update carriersOnto call.run.baselineView carriers.1, carriers.2.map (call.drawn parse))

/-- One call after another. -/
def holesOverAll (carriersOnto : Known K) : List (Call K) → List (Except Raised (List (Option (Point K))))
  | [] => []
  | call :: calls => (holesOver parse hypot views carriersOnto call).2 ::
      holesOverAll (holesOver parse hypot views carriersOnto call).1 calls

/-- Nothing kept from an earlier call, and every Baseline Mark weighed. -/
def plainHolesOver (call : Call K) : Except Raised (List (Option (Point K))) :=
  ((call.carried parse).mapM fun e => plainCarrier hypot views e.1 call.run e.2).map (call.drawn parse)

end

variable {parse : String → Option ℤ} {hypot : K → K → K} {views : ℕ → BaselineView K}

omit [Field K] [LinearOrder K] in
private theorem mem_of_runOf {runs : List (RunGeometry K)} {firstSeenAt : String} {r : RunGeometry K}
    (h : runOf parse runs firstSeenAt = some r) : r ∈ runs := by
  rcases Option.or_eq_some_iff.mp h with hlast | ⟨-, hhead⟩
  · exact (List.mem_filter.mp (List.mem_of_getLast? hlast)).1
  · exact List.mem_of_head? hhead

def Call.all (call : Call K) : List (RunGeometry K) := call.run :: call.runs

omit [Field K] [LinearOrder K] in
private theorem mem_all_of_owners {call : Call K} {r : RunGeometry K} (h : r ∈ call.owners parse) : r ∈ call.all := by
  obtain ⟨b, -, rfl⟩ := List.mem_map.mp h
  cases hrun : runOf parse call.runs b.firstSeenAt with
  | none => exact List.mem_cons_self
  | some r => exact List.mem_cons_of_mem _ (mem_of_runOf hrun)

theorem mem_of_mem_eraseDupsBy {α : Type} {r : α → α → Bool} {a : α} (l : List α)
    (h : a ∈ l.eraseDupsBy r) : a ∈ l := by
  match l with
  | [] => exact h
  | b :: l =>
    rw [List.eraseDupsBy_cons] at h
    rcases List.mem_cons.mp h with rfl | h
    · exact List.mem_cons_self
    · exact List.mem_cons_of_mem _ (List.mem_filter.mp (mem_of_mem_eraseDupsBy _ h)).1
termination_by l.length
decreasing_by exact Nat.lt_succ_of_le (List.length_filter_le _ _)

omit [Field K] [LinearOrder K] in
private theorem mem_all_of_carried {call : Call K} {e : RunGeometry K × List (Point K)} (h : e ∈ call.carried parse) :
    e.1 ∈ call.all := by
  obtain ⟨owner, howner, rfl⟩ := List.mem_map.mp h
  exact mem_all_of_owners (mem_of_mem_eraseDupsBy _ (List.mem_filter.mp howner).1)

/-- A Run's Baseline View is fixed by its `taken_at`, whichever object holds it. -/
def FixedViews (views : ℕ → BaselineView K) (calls : List (Call K)) : Prop :=
  ∀ r ∈ calls.flatMap Call.all, ∀ r' ∈ calls.flatMap Call.all, r.takenAt = r'.takenAt →
    views r.baselineView = views r'.baselineView

/-- Every carrier kept is the one its key's Run has, onto any Run with the view it is kept for. -/
def Kept (hypot : K → K → K) (views : ℕ → BaselineView K) (runs : List (RunGeometry K))
    (carriersOnto : Known K) : Prop :=
  ∀ run : RunGeometry K, Sound keyOf (fun e => carrier hypot views e.1 run e.2) (fun e => e.1 ∈ runs)
    (carriersOnto run.baselineView)

/-- A key covers all that a carrier onto one view depends on. -/
theorem covers_keyOf {runs : List (RunGeometry K)} (hfixed : ∀ r ∈ runs, ∀ r' ∈ runs, r.takenAt = r'.takenAt →
    views r.baselineView = views r'.baselineView) (run : RunGeometry K) :
    Covers keyOf (fun e => carrier hypot views e.1 run e.2) fun e => e.1 ∈ runs := by
  intro e e' he he' hkey
  obtain ⟨r, holes⟩ := e
  obtain ⟨r', holes'⟩ := e'
  simp only [keyOf, Key.mk.injEq] at hkey
  obtain ⟨htaken, hlast, rfl⟩ := hkey
  exact carrier_congr holes (hfixed r he r' he' htaken) hlast rfl

private theorem holesOver_kept (parse : String → Option ℤ) {runs : List (RunGeometry K)} {carriersOnto : Known K}
    {call : Call K}
    (hfixed : ∀ r ∈ runs, ∀ r' ∈ runs, r.takenAt = r'.takenAt → views r.baselineView = views r'.baselineView)
    (hkept : Kept hypot views runs carriersOnto) (hcall : ∀ r ∈ call.all, r ∈ runs) :
    (holesOver parse hypot views carriersOnto call).2 =
      (((call.carried parse).mapM fun e => carrier hypot views e.1 call.run e.2).map (call.drawn parse)) ∧
      Kept hypot views runs (holesOver parse hypot views carriersOnto call).1 := by
  have hasked : ∀ e ∈ call.carried parse, e.1 ∈ runs := fun e he => hcall e.1 (mem_all_of_carried he)
  obtain ⟨hanswers, hsound⟩ := answerAll_eq (covers_keyOf hfixed call.run) (hkept call.run) hasked
  refine ⟨congrArg (Except.map (call.drawn parse)) hanswers, fun run entry hentry e he hkey => ?_⟩
  by_cases hview : run.baselineView = call.run.baselineView
  · simp only [holesOver, hview, Function.update_self] at hentry
    refine (carrier_congr e.2 rfl rfl hview).trans ?_
    exact hsound entry hentry e he hkey
  · simp only [holesOver, Function.update_of_ne hview] at hentry
    exact hkept run entry hentry e he hkey

/-- Whatever the calls, each returns what it would with nothing kept. -/
theorem holesOverAll_eq {runs : List (RunGeometry K)} {carriersOnto : Known K} {calls : List (Call K)}
    (hfixed : ∀ r ∈ runs, ∀ r' ∈ runs, r.takenAt = r'.takenAt → views r.baselineView = views r'.baselineView)
    (hkept : Kept hypot views runs carriersOnto) (hcalls : ∀ call ∈ calls, ∀ r ∈ call.all, r ∈ runs) :
    holesOverAll parse hypot views carriersOnto calls = calls.map fun call =>
      (((call.carried parse).mapM fun e => carrier hypot views e.1 call.run e.2).map (call.drawn parse)) := by
  induction calls generalizing carriersOnto with
  | nil => rfl
  | cons call calls ih =>
    obtain ⟨hreturned, hkept'⟩ := holesOver_kept parse hfixed hkept (hcalls call List.mem_cons_self)
    have hrest := ih hkept' fun call' hcall' => hcalls call' (List.mem_cons_of_mem _ hcall')
    rw [holesOverAll, hreturned, hrest, List.map_cons]

noncomputable section

def dateParse (s : String) : Option ℤ :=
  [("2026-10-22T10:00:00Z", 1792663200000), ("2026-10-22T10:01:00Z", 1792663260000),
    ("2026-10-22T10:05:00Z", 1792663500000)].lookup s

/-- The later view's marks are 10 px right of one hole and 14 px right of the other. -/
def creptViews : ℕ → BaselineView ℝ
  | 0 => ⟨1, []⟩
  | _ => ⟨1, [(10, 0), (1014, 0)]⟩

def earlier : RunGeometry ℝ := ⟨0, "2026-10-22T10:00:00Z", 0, [⟨"2026-10-22T10:00:00Z", 1⟩]⟩

def later : RunGeometry ℝ := ⟨1, "2026-10-22T10:05:00Z", 1, [⟨"2026-10-22T10:05:00Z", 1⟩]⟩

/-- Drawn, then with a second hole, then over the later Run refetched as new objects. -/
def creptCalls : List (Call ℝ) :=
  [⟨later, [earlier, later], [⟨"2026-10-22T10:01:00Z", (0, 0)⟩]⟩,
    ⟨later, [earlier, later], [⟨"2026-10-22T10:01:00Z", (0, 0)⟩, ⟨"2026-10-22T10:01:00Z", (1000, 0)⟩]⟩,
    ⟨⟨2, later.takenAt, 2, later.places⟩, [earlier, ⟨2, later.takenAt, 2, later.places⟩],
      [⟨"2026-10-22T10:01:00Z", (0, 0)⟩]⟩]

theorem mathHypot_zero (x : ℝ) : mathHypot x 0 = |x| := by simp [mathHypot, Real.sqrt_sq_eq_abs]

theorem nearest_axis {s x : ℝ} (h : |x - s| < 20) :
    nearest mathHypot (s, 0) [(x, 0)] = some ⟨(x, 0), |x - s|⟩ := by
  simp [nearest, mathHypot_zero, MATCH_TPL_PX, h]

private theorem candidates_crept : candidates mathHypot [[(10, 0)], [(14, 0)]] = [(10, 0), (14, 0)] := by
  norm_num [candidates, List.filter_cons, distance, mathHypot_zero, CARRY_MATCH_TPL_PX]

/-- Both offsets agree on either candidate, so the shift is between them. -/
theorem carryShift_crept : carryShift mathHypot [[(10, 0)], [(14, 0)]] = (12, 0) := by
  have hagree : ∀ s : ℝ, |10 - s| < 20 → |14 - s| < 20 →
      agreeing mathHypot [[(10, 0)], [(14, 0)]] (s, 0) = [⟨(10, 0), |10 - s|⟩, ⟨(14, 0), |14 - s|⟩] :=
    fun s h h' => by simp [agreeing, nearest_axis h, nearest_axis h']
  have hbest : best mathHypot [[(10, 0)], [(14, 0)]] = [⟨(10, 0), |10 - 10|⟩, ⟨(14, 0), |14 - 10|⟩] := by
    unfold best
    rw [candidates_crept, List.map_cons, List.map_cons, hagree 10 (by norm_num) (by norm_num),
      hagree 14 (by norm_num) (by norm_num)]
    norm_num [better, sum]
  unfold carryShift
  rw [hbest]
  norm_num [median]

end

end Kanat.CarriedHoles
