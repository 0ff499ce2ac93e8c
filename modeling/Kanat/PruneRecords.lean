import Mathlib.Algebra.Order.BigOperators.Group.List
import Mathlib.Tactic.Linarith
import Kanat.PruneCache

/-! # What a prune saw and did

A prune's calls so far are summed up in a `Record`: what it saw of each file and what it removed. The cleaning is
shown to make only calls its record allows, loop by loop. -/
namespace Kanat.PruneCache
open InterleavedThreads ResumptionPrograms

/-- What one thread's calls so far tell of its prune. -/
structure Record where
  guard : Bool := false
  now : ℚ := 0
  expired : ℚ := 0
  listed : Option (List Path) := none
  looked : List Path := []
  seen : List Seen := []
  removed : List Path := []
  /-- What it found in use. -/
  spared : List Path := []
  /-- What its last call found there. -/
  looking : Option Seen := none
  /-- The copy its last call found not in use. -/
  checked : Option Path := none

namespace Record

/-- Each prune begins with the listing of the cache. -/
def hear (r : Record) : (o : Op) → Ans o → Record
  | .lockGuard, _ => { r with guard := true }
  | .unlockGuard, _ => { r with guard := false }
  | .time, now => { r with now }
  | .utcNow, utc => { r with expired := (show ℚ from utc) - cacheMaxAgeS }
  | .iterdir, files => { r with listed := some files, looked := [], seen := [], removed := [], spared := [] }
  | .stat path, none => { r with looked := path :: r.looked }
  | .stat path, some stat => { r with looked := path :: r.looked, seen := r.seen ++ [⟨path, stat⟩] }
  | .isInUse path, true => { r with spared := path :: r.spared }
  | .unlink why path, _ => if why.pruned then { r with removed := path :: r.removed } else r
  | _, _ => r

def sight : (o : Op) → Ans o → Option Seen
  | .stat path, some stat => some ⟨path, stat⟩
  | _, _ => none

def notInUse : (o : Op) → Ans o → Option Path
  | .isInUse path, false => some path
  | _, _ => none

def next (r : Record) (o : Op) (a : Ans o) : Record :=
  { r.hear o a with looking := sight o a, checked := notInUse o a }

def Settled (r : Record) (path : Path) : Prop := path ∈ r.removed ∨ path ∈ r.spared

/-- After `_unlink_unless_in_use`. -/
def settle (r : Record) (gone : Bool) (file : Path) : Record :=
  { r with
    guard := false
    looking := none
    checked := none
    removed := if gone then file :: r.removed else r.removed
    spared := if gone then r.spared else file :: r.spared }

variable {r : Record} {gone : Bool} {file path : Path}

theorem Settled.settle (h : r.Settled path) : (r.settle gone file).Settled path := by
  cases gone with
  | true => exact h.imp_left (List.mem_cons_of_mem _)
  | false => exact h.imp_right (List.mem_cons_of_mem _)

theorem settled_settle : (r.settle gone file).Settled file := by
  cases gone with
  | true => exact Or.inl List.mem_cons_self
  | false => exact Or.inr List.mem_cons_self

variable (readStart : String → Option ℚ)

/-- A copy that is not expired. -/
def keeps (now expired : ℚ) (s : Seen) : Bool := isCopy s.file && !tooOld readStart now expired s

/-- The copies it saw that were not expired. -/
def kept (r : Record) : List Seen := r.seen.filter (keeps readStart r.now r.expired)

/-- Those of them it did not remove. -/
def left (r : Record) : List Seen := (r.kept readStart).filter fun s => s.file ∉ r.removed

/-- It has looked at all that was listed. -/
structure Scanned (r : Record) : Prop where
  listed : ∃ files, r.listed = some files ∧ ∀ file ∈ files, file ∈ r.looked
  overdue : ∀ s ∈ r.seen, isCopy s.file → tooOld readStart r.now r.expired s → r.Settled s.file

/-- What it leaves fits, or is in use. -/
def Fits (budget : ℚ) (r : Record) : Prop :=
  totalSize (r.left readStart) ≤ budget ∨ ∀ s ∈ r.left readStart, s.file ∈ r.spared

/-- The least recently played copies go first. -/
def Due (r : Record) : Why → Path → Prop
  | .abandoned, path => ∃ s ∈ r.seen, s.file = path ∧ abandoned r.now s
  | .expired, path => ∃ s ∈ r.seen, s.file = path ∧ isCopy path ∧ tooOld readStart r.now r.expired s
  | .overLimit, path => ∃ s ∈ r.kept readStart, s.file = path ∧
      ∀ s' ∈ r.seen, isCopy s'.file → s'.stat.mtime < s.stat.mtime → r.Settled s'.file
  | .broken, _ | .withdrawn, _ => True

def Allows (r : Record) : Op → Prop
  | .unlockGuard | .setMark .. | .dropMarks _ | .isInUse _ => r.guard
  | .unlink .abandoned path => ∃ s ∈ r.seen, s.file = path ∧ abandoned r.now s ∧ r.looking = some s
  | .unlink .expired path => r.guard ∧ r.checked = some path ∧ r.Due readStart .expired path
  | .unlink .overLimit path => r.guard ∧ r.checked = some path ∧ r.Due readStart .overLimit path
  | .budget => r.Scanned readStart
  | .touch path | .replace _ path => isCopy path
  | _ => True

/-- What is left to one that only prunes. It forgets the finished plays before it looks. -/
def AllowsAlone (r : Record) : Op → Prop
  | .dropMarks _ => r.spared = []
  | .setMark .. | .touch _ | .openPart _ | .write .. | .replace .. => False
  | .unlink why _ => why.pruned
  | _ => True

end Record

def Possible (budget : ℚ) : (o : Op) → Ans o → Prop
  | .budget, b => (show ℚ from b) = budget
  | _, _ => True

open Record

variable (readStart : String → Option ℚ) (budget : ℚ)

def contract : Contract Ans Request (Request × Record) where
  allowed l o := l.2.Allows readStart o ∧ (l.1 = .clean → l.2.AllowsAlone o)
  possible := Possible budget
  next l o a := (l.1, l.2.next o a)
  start request := (request, {})
  Ready l request := l = (request, {})
  Returned l := l.1 = .clean → l.2.Scanned readStart ∧ l.2.Fits readStart budget
  Raised l := l.1 ≠ .clean

variable {readStart budget} {r r' : Record} {α : Type} {E : Request × Record → Exn → Prop} {l : Request × Record}

theorem Record.Scanned.settle {gone : Bool} {file : Path} (h : r.Scanned readStart) :
    (r.settle gone file).Scanned readStart where
  listed := h.listed
  overdue s hs hcopy hold := (h.overdue s hs hcopy hold).settle

theorem isCopy_of_isPart {file : Path} (h : isPart file) : isCopy file = false := by
  simp only [isPart, decide_eq_true_eq] at h
  simp [isCopy, h]

/-- Beside a cleaning: what it is left to one that only prunes is not asked. -/
theorem obeys_beside {β : Type} {Q : Request × Record → β → Prop} {o : Op} {k : Ans o → M β} (hl : l.1 ≠ .clean)
    (hallows : l.2.Allows readStart o) (h : ∀ r a, Obeys (contract readStart budget).toMonitor Q E (k a) (l.1, r)) :
    Obeys (contract readStart budget).toMonitor Q E ((perform o).bind k) l :=
  obeys_bind.mpr (obeys_call ⟨hallows, fun hclean => absurd hclean hl⟩ fun a => h _ a)

theorem obeys_unlinkUnlessInUse {Q : Request × Record → Bool → Prop} {why : Why} {file : Path}
    (hwhy : why = .expired ∨ why = .overLimit) (hdue : l.2.Due readStart why file)
    (hQ : ∀ gone, Q (l.1, l.2.settle gone file) gone) :
    Obeys (contract readStart budget).toMonitor Q E (unlinkUnlessInUse why file) l := by
  refine obeys_bind.mpr (obeys_call ⟨trivial, fun _ => trivial⟩ fun _ => ?_)
  refine obeys_bind.mpr (obeys_call ⟨rfl, fun _ => trivial⟩ fun inUse => ?_)
  cases inUse with
  | true => exact obeys_bind.mpr (obeys_call ⟨rfl, fun _ => trivial⟩ fun _ => hQ false)
  | false =>
    rcases hwhy with rfl | rfl
    · refine obeys_bind.mpr (obeys_call ⟨⟨rfl, rfl, hdue⟩, fun _ => rfl⟩ fun _ => ?_)
      exact obeys_bind.mpr (obeys_call ⟨rfl, fun _ => trivial⟩ fun _ => hQ true)
    · refine obeys_bind.mpr (obeys_call ⟨⟨rfl, rfl, hdue⟩, fun _ => rfl⟩ fun _ => ?_)
      exact obeys_bind.mpr (obeys_call ⟨rfl, fun _ => trivial⟩ fun _ => hQ true)

/-- With `rest` still to look at. -/
structure Scanning (readStart : String → Option ℚ) (r : Record) (now expired : ℚ) (rest : List Path)
    (kept : List Seen) : Prop where
  listed : ∃ files, r.listed = some files ∧ ∀ file ∈ files, file ∈ rest ∨ file ∈ r.looked
  overdue : ∀ s ∈ r.seen, isCopy s.file → tooOld readStart now expired s → r.Settled s.file
  kept : r.seen.filter (keeps readStart now expired) = kept
  now : r.now = now
  expired : r.expired = expired

namespace Scanning
variable {now expired : ℚ} {file : Path} {rest : List Path} {kept new : List Seen}

/-- One more file looked at, and what came of it. -/
theorem look (h : Scanning readStart r now expired (file :: rest) kept) (hnow : r'.now = r.now)
    (hexpired : r'.expired = r.expired) (hlisted : r'.listed = r.listed) (hlooked : r'.looked = file :: r.looked)
    (hseen : r'.seen = r.seen ++ new) (hsettled : ∀ path, r.Settled path → r'.Settled path)
    (hnew : ∀ s ∈ new, isCopy s.file → tooOld readStart now expired s → r'.Settled s.file) :
    Scanning readStart r' now expired rest (kept ++ new.filter (keeps readStart now expired)) where
  listed := by
    obtain ⟨files, hfiles, hmem⟩ := h.listed
    refine ⟨files, hlisted.trans hfiles, fun p hp => ?_⟩
    rw [hlooked]
    rcases hmem p hp with hrest | hold
    · rcases List.mem_cons.mp hrest with rfl | hrest
      · exact Or.inr List.mem_cons_self
      · exact Or.inl hrest
    · exact Or.inr (List.mem_cons_of_mem _ hold)
  overdue s hs hcopy hold := by
    rw [hseen] at hs
    rcases List.mem_append.mp hs with hs | hs
    · exact hsettled _ (h.overdue s hs hcopy hold)
    · exact hnew s hs hcopy hold
  kept := by rw [hseen, List.filter_append, h.kept]
  now := hnow.trans h.now
  expired := hexpired.trans h.expired

theorem scanned (h : Scanning readStart r now expired [] kept) : r.Scanned readStart where
  listed := by
    obtain ⟨files, hfiles, hmem⟩ := h.listed
    exact ⟨files, hfiles, fun p hp => (hmem p hp).resolve_left List.not_mem_nil⟩
  overdue := by
    rw [h.now, h.expired]
    exact h.overdue

private theorem eq_kept (h : Scanning readStart r now expired rest kept) : r.kept readStart = kept := by
  rw [Record.kept, h.now, h.expired, h.kept]

end Scanning

theorem obeys_scan {Q : Request × Record → List Seen → Prop} {now expired : ℚ} {files : List Path} {kept : List Seen}
    (h : Scanning readStart l.2 now expired files kept)
    (hQ : ∀ r kept, Scanning readStart r now expired [] kept → Q (l.1, r) kept) :
    Obeys (contract readStart budget).toMonitor Q E (scan readStart now expired files kept) l := by
  induction files generalizing l kept with
  | nil => exact hQ l.2 kept h
  | cons file files ih =>
    refine obeys_bind.mpr (obeys_call ⟨trivial, fun _ => trivial⟩ fun found => ?_)
    cases found with
    | none =>
      refine ih ?_ hQ
      have hlook : Scanning readStart (l.2.next (.stat file) none) now expired files (kept ++ [].filter _) :=
        h.look rfl rfl rfl rfl (List.append_nil _).symm (fun _ hp => hp) nofun
      rwa [List.filter_nil, List.append_nil] at hlook
    | some stat =>
      -- what is not kept, once a copy too old is settled
      have hpass {r' : Record} (hnow : r'.now = l.2.now) (hexpired : r'.expired = l.2.expired)
          (hlisted : r'.listed = l.2.listed) (hlooked : r'.looked = file :: l.2.looked)
          (hseen : r'.seen = l.2.seen ++ [⟨file, stat⟩]) (hsettled : ∀ path, l.2.Settled path → r'.Settled path)
          (hcopy : isCopy file → tooOld readStart now expired ⟨file, stat⟩ ∧ r'.Settled file) :
          Scanning readStart r' now expired files kept := by
        have hlook := h.look hnow hexpired hlisted hlooked hseen hsettled
          (by simpa using fun hc _ => (hcopy hc).2)
        have hnot : keeps readStart now expired ⟨file, stat⟩ = false := by
          by_cases hc : isCopy file
          · simp [keeps, hc, (hcopy hc).1]
          · simp [keeps, hc]
        rwa [List.filter_cons_of_neg (by simp [hnot]), List.filter_nil, List.append_nil] at hlook
      dsimp only
      split_ifs with hpart hage hcopy hold
      · have hnot := isCopy_of_isPart hpart
        refine obeys_bind.mpr (obeys_call ⟨⟨⟨file, stat⟩, ?_, rfl, ?_, rfl⟩, fun _ => rfl⟩ fun _ => ?_)
        · exact List.mem_append_right _ (List.mem_singleton_self _)
        · show abandoned l.2.now _ = true
          rw [h.now]
          simp [abandoned, hpart, hage]
        · refine ih (hpass rfl rfl rfl rfl rfl ?_ fun hc => ?_) hQ
          · exact fun _ hp => hp.imp_left (List.mem_cons_of_mem _)
          · rw [hnot] at hc
            cases hc
      · have hnot := isCopy_of_isPart hpart
        refine ih (hpass rfl rfl rfl rfl rfl (fun _ hp => hp) fun hc => ?_) hQ
        rw [hnot] at hc
        cases hc
      · refine obeys_bind.mpr (obeys_unlinkUnlessInUse (Or.inl rfl) ?_ fun gone => ?_)
        · refine ⟨⟨file, stat⟩, List.mem_append_right _ (List.mem_singleton_self _), rfl, hcopy, ?_⟩
          show tooOld readStart l.2.now l.2.expired _ = true
          rw [h.now, h.expired]
          exact hold
        · exact ih (hpass rfl rfl rfl rfl rfl (fun _ hp => hp.settle) fun _ => ⟨hold, settled_settle⟩) hQ
      · refine ih ?_ hQ
        have hlook : Scanning readStart (l.2.next (.stat file) (some stat)) now expired files
            (kept ++ [⟨file, stat⟩].filter _) :=
          h.look rfl rfl rfl rfl rfl (fun _ hp => hp) (by simpa using fun _ ht => absurd ht hold)
        rwa [List.filter_cons_of_pos (by simp [keeps, hcopy, hold]), List.filter_nil] at hlook
      · exact ih (hpass rfl rfl rfl rfl rfl (fun _ hp => hp) fun hc => absurd hc hcopy) hQ

theorem mtime_le_of_key_le {a b : Seen} (h : a.key ≤ b.key) : a.stat.mtime ≤ b.stat.mtime := Prod.Lex.monotone_fst _ _ h

theorem sorted_insertionSort (kept : List Seen) :
    (kept.insertionSort fun a b => a.key ≤ b.key).Pairwise fun a b => a.stat.mtime ≤ b.stat.mtime := by
  have htotal : Std.Total fun a b : Seen => a.key ≤ b.key := ⟨fun a b => le_total a.key b.key⟩
  have htrans : IsTrans Seen fun a b => a.key ≤ b.key := ⟨fun _ _ _ => le_trans⟩
  exact (List.pairwise_insertionSort _ kept).imp mtime_le_of_key_le

theorem totalSize_append (xs ys : List Seen) : totalSize (xs ++ ys) = totalSize xs + totalSize ys := by
  simp [totalSize]

theorem totalSize_cons (s : Seen) (xs : List Seen) : totalSize (s :: xs) = s.stat.size + totalSize xs := by
  simp [totalSize]

theorem totalSize_perm {xs ys : List Seen} (h : xs.Perm ys) : totalSize xs = totalSize ys := (h.map _).sum_eq

theorem totalSize_sublist {xs ys : List Seen} (h : xs.Sublist ys) : totalSize xs ≤ totalSize ys := by
  rw [totalSize, totalSize]
  refine List.Sublist.sum_le_sum (h.map fun s => (s.stat.size : ℚ)) fun size hsize => ?_
  obtain ⟨s, -, rfl⟩ := List.mem_map.mp hsize
  exact Nat.cast_nonneg _

/-- `done` of what is kept was tried, `rest` was not. -/
structure Removing (readStart : String → Option ℚ) (r : Record) (done rest : List Seen) (total : ℚ) : Prop where
  kept : (done ++ rest).Perm (r.kept readStart)
  sorted : rest.Pairwise fun a b => a.stat.mtime ≤ b.stat.mtime
  settled : ∀ s ∈ done, r.Settled s.file
  total : totalSize (done.filter fun s => s.file ∉ r.removed) + totalSize rest ≤ total

namespace Removing
variable {done rest : List Seen} {total : ℚ} {s : Seen}

theorem due (h : Removing readStart r done (s :: rest) total) (hscanned : r.Scanned readStart) :
    r.Due readStart .overLimit s.file := by
  refine ⟨s, h.kept.mem_iff.mp (by simp), rfl, fun s' hs' hcopy hlt => ?_⟩
  by_cases hold : tooOld readStart r.now r.expired s'
  · exact hscanned.overdue s' hs' hcopy hold
  have hkept : s' ∈ r.kept readStart := List.mem_filter.mpr ⟨hs', by simp [keeps, hcopy, hold]⟩
  rcases List.mem_append.mp (h.kept.mem_iff.mpr hkept) with hdone | hrest
  · exact h.settled s' hdone
  · rcases List.mem_cons.mp hrest with rfl | hrest
    · exact absurd hlt (lt_irrefl _)
    · exact absurd hlt (not_lt.mpr ((List.pairwise_cons.mp h.sorted).1 s' hrest))

theorem tried (h : Removing readStart r done (s :: rest) total) (gone : Bool) :
    Removing readStart (r.settle gone s.file) (done ++ [s]) rest (if gone then total - s.stat.size else total) where
  kept := by
    rw [List.append_assoc]
    exact h.kept
  sorted := (List.pairwise_cons.mp h.sorted).2
  settled s' hs' := by
    rcases List.mem_append.mp hs' with hdone | hnew
    · exact (h.settled s' hdone).settle
    · rw [List.mem_singleton.mp hnew]
      exact settled_settle
  total := by
    have htotal := h.total
    rw [totalSize_cons] at htotal
    rw [List.filter_append, totalSize_append]
    cases gone with
    | true =>
      have hdone : totalSize (done.filter fun x => x.file ∉ (r.settle true s.file).removed) ≤
          totalSize (done.filter fun x => x.file ∉ r.removed) := by
        refine totalSize_sublist (List.monotone_filter_right _ fun x hx => ?_)
        have hx : x.file ∉ s.file :: r.removed := of_decide_eq_true hx
        exact decide_eq_true fun hmem => hx (List.mem_cons_of_mem _ hmem)
      have hnew : [s].filter (fun x => x.file ∉ (r.settle true s.file).removed) = [] := by simp [Record.settle]
      rw [hnew]
      simp only [totalSize, List.map_nil, List.sum_nil, if_true] at hdone htotal ⊢
      linarith
    | false =>
      have hnew : totalSize ([s].filter fun x => x.file ∉ r.removed) ≤ totalSize [s] :=
        totalSize_sublist List.filter_sublist
      rw [totalSize_cons] at hnew
      simp only [Record.settle, Bool.false_eq_true, if_false] at hnew ⊢
      simp only [totalSize, List.map_nil, List.sum_nil] at hnew htotal ⊢
      linarith

private theorem left_le (h : Removing readStart r done rest total) : totalSize (r.left readStart) ≤ total := by
  have hleft := totalSize_perm (h.kept.filter fun s => s.file ∉ r.removed)
  rw [List.filter_append, totalSize_append] at hleft
  have hrest : totalSize (rest.filter fun s => s.file ∉ r.removed) ≤ totalSize rest :=
    totalSize_sublist List.filter_sublist
  rw [Record.left, ← hleft]
  linarith [h.total]

private theorem left_spared (h : Removing readStart r done [] total) : ∀ s ∈ r.left readStart, s.file ∈ r.spared := by
  intro s hs
  obtain ⟨hs, hleft⟩ := List.mem_filter.mp hs
  have hdone := h.kept.mem_iff.mpr hs
  rw [List.append_nil] at hdone
  exact (h.settled s hdone).resolve_left (of_decide_eq_true hleft)

end Removing

private theorem obeys_removeOver {Q : Request × Record → Unit → Prop} {done rest : List Seen} {total : ℚ}
    (hscanned : l.2.Scanned readStart) (h : Removing readStart l.2 done rest total)
    (hQ : ∀ r : Record, r.Scanned readStart → r.Fits readStart budget → Q (l.1, r) ()) :
    Obeys (contract readStart budget).toMonitor Q E (removeOver budget total rest) l := by
  induction rest generalizing l done total with
  | nil => exact hQ l.2 hscanned (Or.inr h.left_spared)
  | cons s rest ih =>
    rw [removeOver]
    split_ifs with hfits
    · exact hQ l.2 hscanned (Or.inl (h.left_le.trans hfits))
    · refine obeys_bind.mpr (obeys_unlinkUnlessInUse (Or.inr rfl) (h.due hscanned) fun gone => ?_)
      cases gone with
      | true => exact ih (l := (l.1, _)) hscanned.settle (h.tried true) hQ
      | false => exact ih (l := (l.1, _)) hscanned.settle (h.tried false) hQ

theorem obeys_pruneCache {Q : Request × Record → Unit → Prop} (hclean : l.1 = .clean → l.2.spared = [])
    (hQ : ∀ r : Record, r.Scanned readStart → r.Fits readStart budget → Q (l.1, r) ()) :
    Obeys (contract readStart budget).toMonitor Q E (pruneCache readStart) l := by
  refine obeys_bind.mpr (obeys_bind.mpr (obeys_call ⟨trivial, fun _ => trivial⟩ fun now => ?_))
  refine obeys_bind.mpr (obeys_call ⟨trivial, fun _ => trivial⟩ fun _ => ?_)
  refine obeys_bind.mpr (obeys_call ⟨rfl, hclean⟩ fun _ => ?_)
  refine obeys_call ⟨rfl, fun _ => trivial⟩ fun _ => ?_
  refine obeys_bind.mpr (obeys_call ⟨trivial, fun _ => trivial⟩ fun now => ?_)
  refine obeys_bind.mpr (obeys_call ⟨trivial, fun _ => trivial⟩ fun utc => ?_)
  refine obeys_bind.mpr (obeys_call ⟨trivial, fun _ => trivial⟩ fun files => ?_)
  refine obeys_bind.mpr (obeys_scan ?_ fun r kept h => ?_)
  · exact ⟨⟨files, rfl, fun file hfile => Or.inl hfile⟩, nofun, rfl, rfl, rfl⟩
  · refine obeys_bind.mpr (obeys_perform.mpr ⟨⟨h.scanned, fun _ => trivial⟩, fun b hb => ?_⟩)
    obtain rfl : b = budget := hb
    have hsort := List.perm_insertionSort (fun a b => a.key ≤ b.key) kept
    refine obeys_removeOver ⟨h.scanned.listed, h.scanned.overdue⟩
      ⟨?_, sorted_insertionSort kept, fun s hs => absurd hs List.not_mem_nil, ?_⟩ hQ
    · show (kept.insertionSort fun a b => a.key ≤ b.key).Perm (r.kept readStart)
      rw [h.eq_kept]
      exact hsort
    · rw [totalSize_perm hsort]
      simp [totalSize]

private theorem obeys_markInUse {Q : Request × Record → Unit → Prop} {path : Path} (hl : l.1 ≠ .clean)
    (hQ : ∀ r, Q (l.1, r) ()) : Obeys (contract readStart budget).toMonitor Q E (markInUse path) l := by
  refine obeys_bind.mpr (obeys_call ⟨trivial, fun h => absurd h hl⟩ fun _ => ?_)
  refine obeys_bind.mpr (obeys_call ⟨trivial, fun h => absurd h hl⟩ fun now => ?_)
  refine obeys_bind.mpr (obeys_call ⟨rfl, fun h => absurd h hl⟩ fun _ => ?_)
  exact obeys_call ⟨rfl, fun h => absurd h hl⟩ fun _ => hQ _

/-- Whatever was or was not fetched. -/
theorem obeys_fetch {path part : Path} (hl : l.1 ≠ .clean) (hpath : isCopy path) :
    Obeys (contract readStart budget).toMonitor (fun l _ => l.1 ≠ .clean) (fun l _ => l.1 ≠ .clean)
      (fetch readStart path part) l := by
  refine obeys_bind.mpr (obeys_pruneCache (fun h => absurd h hl) fun r _ _ => ?_)
  refine obeys_beside hl trivial fun r recording => ?_
  match recording with
  | none => exact hl
  | some (chunks, ending) =>
    refine obeys_beside hl trivial fun r _ => ?_
    have hwritten : Obeys (contract readStart budget).toMonitor (fun l _ => l.1 ≠ .clean) (fun l _ => l.1 ≠ .clean)
        (chunks.forM fun length => perform (.write part length)) (l.1, r) :=
      obeys_forM (fun length _ l hl => obeys_call ⟨trivial, fun h => absurd h hl⟩ fun _ => hl) hl
    refine obeys_bind.mpr (hwritten.mono (fun l _ hl => ?_) fun _ _ h => h)
    match ending with
    | .unwritable => exact hl
    | .broken => exact obeys_beside hl trivial fun _ _ => hl
    | .whole =>
      refine obeys_beside hl hpath fun r replaced => ?_
      match replaced with
      | false => exact hl
      | true =>
        refine obeys_beside hl trivial fun r found => ?_
        match found with
        | false => exact hl
        | true => exact obeys_pruneCache (fun h => absurd h hl) fun _ _ _ => hl

private theorem obeys_replayFile {stem : String} (hl : l.1 ≠ .clean) :
    Obeys (contract readStart budget).toMonitor (fun l _ => l.1 ≠ .clean) (fun l _ => l.1 ≠ .clean)
      (replayFile readStart stem) l := by
  refine obeys_beside hl trivial fun r _ => ?_
  have hpart (r : Record) : Obeys (contract readStart budget).toMonitor (fun l _ => l.1 ≠ .clean)
      (fun l _ => l.1 ≠ .clean) (replayPart readStart ⟨stem, ".mp4"⟩ ⟨stem, ".part"⟩) (l.1, r) := by
    refine obeys_beside hl trivial fun r allowed => ?_
    match allowed with
    | false => exact hl
    | true =>
      refine obeys_bind.mpr (obeys_markInUse hl fun r => ?_)
      refine obeys_beside hl trivial fun r found => ?_
      match found with
      | true => exact obeys_call ⟨rfl, fun h => absurd h hl⟩ fun _ => hl
      | false => exact obeys_fetch hl rfl
  refine obeys_bind.mpr (obeys_tryCatch.mpr ((hpart _).mono (fun l _ hl => ?_) fun l _ hl => ?_))
  · exact obeys_call ⟨trivial, fun h => absurd h hl⟩ fun _ => hl
  · exact obeys_beside hl trivial fun _ _ => hl

private theorem obeys_deleteCopy {stem : String} (hl : l.1 ≠ .clean) :
    Obeys (contract readStart budget).toMonitor (fun l _ => l.1 ≠ .clean) E (deleteCopy stem) l := by
  refine obeys_beside hl trivial fun r _ => ?_
  refine obeys_beside hl trivial fun r _ => ?_
  refine obeys_beside hl trivial fun r _ => ?_
  exact obeys_call ⟨trivial, fun h => absurd h hl⟩ fun _ => hl

theorem follows : Follows (system readStart budget) (contract readStart budget) where
  ready _ := rfl
  holds l request hl := by
    obtain rfl : l = (request, {}) := hl
    cases request with
    | clean =>
      exact obeys_bind.mpr (obeys_pruneCache (fun _ => rfl) fun r hscanned hfits =>
        ⟨nofun, fun _ _ => ⟨hscanned, hfits⟩⟩)
    | replay stem =>
      refine obeys_bind.mpr ((obeys_replayFile (by simp)).mono (fun l _ hl => ?_) fun _ _ h => h)
      exact ⟨nofun, fun _ h => absurd h hl⟩
    | delete stems =>
      refine obeys_bind.mpr (Obeys.mono (obeys_forM (I := fun l => l.1 ≠ .clean)
        (fun stem _ l hl => obeys_deleteCopy hl) (by simp)) (fun l _ hl => ?_) fun _ _ h => h)
      exact ⟨nofun, fun _ h => absurd h hl⟩
  possible w o choice a w' h := by
    cases o with
    | budget =>
      cases h
      rfl
    | _ => trivial

end Kanat.PruneCache
