import Mathlib.Algebra.Order.Ring.Nat
import Mathlib.Data.List.Infix
import Mathlib.Tactic.Common

/-! # A log in numbered files, rotated by size

File 0 is appended to; full, it and the files after it move up by one and the last is dropped. Any call to the file
system may fail. A file asked for may be missed though it is there, a file that cannot be moved or measured stays as it
was, and an append that fails may have written any part of its line, which the next line then runs on from. So a file
is a list of pieces, each a line or the part of one. -/
namespace Kanat.RotatedFiles

variable {α : Type}

/-- What each file holds, `none` where there is no such file. -/
abbrev Files (α : Type) := ℕ → Option (List α)

namespace Files

def rename (files : Files α) (i : ℕ) : Files α :=
  fun k => if k = i + 1 then files i else if k = i then none else files k

/-- Files `n` down to 1 moved up, until one cannot be; one that is missed is not. -/
@[grind =] def shift (missed fails : ℕ → Bool) : ℕ → Files α → Files α × Bool
  | 0, files => (files, true)
  | n + 1, files =>
    match files (n + 1) with
    | none => shift missed fails n files
    | some _ =>
      if missed (n + 1) then shift missed fails n files
      else if fails (n + 1) then (files, false)
      else shift missed fails n (files.rename (n + 1))

def append (files : Files α) (piece : α) : Files α :=
  fun k => if k = 0 then some ((files 0).getD [] ++ [piece]) else files k

/-- Files 0 to `n - 1` one after another, the oldest first. -/
def below (files : Files α) : ℕ → List α
  | 0 => []
  | n + 1 => (files n).getD [] ++ below files n

end Files

open Files

section
variable {files : Files α} {i n : ℕ}

@[simp] theorem rename_succ (files : Files α) (i : ℕ) : files.rename i (i + 1) = files i := if_pos rfl

@[simp] theorem rename_self (files : Files α) (i : ℕ) : files.rename i i = none := by simp [Files.rename]

theorem rename_of_ne {k : ℕ} (hi : k ≠ i) (hn : k ≠ i + 1) : files.rename i k = files k := by
  rw [Files.rename, if_neg hn, if_neg hi]

theorem below_congr {files' : Files α} (h : ∀ k < n, files' k = files k) : files'.below n = files.below n := by
  induction n with
  | zero => rfl
  | succ n ih =>
    have hrest := ih fun k hk => h k (Nat.lt_succ_of_lt hk)
    rw [Files.below, Files.below, h n (Nat.lt_succ_self n), hrest]

/-- A file moved up to where there was none changes nothing of what they hold, one after another. -/
theorem below_rename (hnone : files (i + 1) = none) (hn : i + 2 ≤ n) : (files.rename i).below n = files.below n := by
  induction n with
  | zero => omega
  | succ n ih =>
    by_cases hlast : n = i + 1
    · subst hlast
      have hrest : (files.rename i).below i = files.below i := by
        apply below_congr
        intro k hk
        exact rename_of_ne (by omega) (by omega)
      simp [Files.below, hnone, hrest]
    · have hsame : files.rename i n = files n := rename_of_ne (by omega) hlast
      rw [Files.below, Files.below, hsame, ih (by omega)]

/-- A file moved up may take the place of another, and nothing else is lost. -/
theorem below_rename_sublist (files : Files α) (i n : ℕ) : ((files.rename i).below n).Sublist (files.below n) := by
  induction n with
  | zero => exact List.Sublist.refl _
  | succ n ih =>
    by_cases hlast : n = i + 1
    · subst hlast
      have hrest : (files.rename i).below i = files.below i := by
        apply below_congr
        intro k hk
        exact rename_of_ne (by omega) (by omega)
      have hmoved : (files.rename i).below (i + 2) = files.below (i + 1) := by simp [Files.below, hrest]
      rw [hmoved]
      exact List.sublist_append_right _ _
    · by_cases hself : n = i
      · subst hself
        rw [Files.below, rename_self, Option.getD_none, List.nil_append]
        exact ih.trans (List.sublist_append_right _ _)
      · have hsame : files.rename i n = files n := rename_of_ne hself hlast
        rw [Files.below, Files.below, hsame]
        exact (List.Sublist.refl _).append ih

private theorem shift_sublist (missed fails : ℕ → Bool) (m n : ℕ) (files : Files α) :
    ((files.shift missed fails m).1.below n).Sublist (files.below n) := by
  induction m generalizing files with
  | zero => exact List.Sublist.refl _
  | succ m ih =>
    rw [Files.shift]
    cases files (m + 1) with
    | none => exact ih files
    | some content =>
      dsimp only
      split_ifs
      · exact ih files
      · exact List.Sublist.refl _
      · exact (ih _).trans (below_rename_sublist files (m + 1) n)

/-- Shifted from below an empty place, none being missed, the files hold what they held. -/
theorem shift_below {m : ℕ} {missed : ℕ → Bool} (hseen : ∀ k, missed k = false) (fails : ℕ → Bool)
    (hnone : files (m + 1) = none) (hn : m + 2 ≤ n) :
    ((files.shift missed fails m).1).below n = files.below n ∧
      ((files.shift missed fails m).2 = true → (files.shift missed fails m).1 1 = none) := by
  induction m generalizing files with
  | zero => exact ⟨rfl, fun _ => hnone⟩
  | succ m ih =>
    rw [Files.shift]
    cases hfile : files (m + 1) with
    | none => exact ih hfile (by omega)
    | some content =>
      dsimp only
      rw [hseen, if_neg Bool.false_ne_true]
      split
      · exact ⟨rfl, nofun⟩
      · have hself := rename_self files (m + 1)
        obtain ⟨hbelow, hfree⟩ := ih hself (by omega)
        exact ⟨hbelow.trans (below_rename hnone (by omega)), hfree⟩

private theorem shift_above {m : ℕ} (missed fails : ℕ → Bool) {k : ℕ} (hk : m + 1 < k) :
    (files.shift missed fails m).1 k = files k := by
  induction m generalizing files with
  | zero => rfl
  | succ m ih =>
    rw [Files.shift]
    cases files (m + 1) with
    | none => exact ih (by omega)
    | some content =>
      dsimp only
      split_ifs
      · exact ih (by omega)
      · rfl
      · exact (ih (by omega)).trans (rename_of_ne (by omega) (by omega))

theorem rename_holds {k : ℕ} {content : List α} (h : files.rename i k = some content) :
    ∃ j, files j = some content := by
  rw [Files.rename] at h
  split_ifs at h
  · exact ⟨i, h⟩
  · exact ⟨k, h⟩

/-- What a file holds after a shift one of them held before. -/
theorem shift_holds {m k : ℕ} (missed fails : ℕ → Bool) {content : List α}
    (h : (files.shift missed fails m).1 k = some content) : ∃ j, files j = some content := by
  induction m generalizing files with
  | zero => exact ⟨k, h⟩
  | succ m ih =>
    rw [Files.shift] at h
    cases hfile : files (m + 1) with
    | none =>
      rw [hfile] at h
      exact ih h
    | some held =>
      rw [hfile] at h
      dsimp only at h
      split_ifs at h
      · exact ih h
      · exact ⟨k, h⟩
      · obtain ⟨j, hj⟩ := ih h
        exact rename_holds hj

end

/-- What a write left in a file: the first `bytes` of the line and the end of it. -/
structure Piece (α : Type) where
  line : α
  bytes : ℕ

/-- How lines are measured and how much a file and the folder may hold. -/
structure Limits (α : Type) where
  size : α → ℕ
  maxBytes : ℕ
  backups : ℕ
  backups_pos : 0 < backups

/-- How an append ends: the file not opened, or this much of the line written and the call thrown out of. -/
inductive Append where
  | done
  | unopened
  | cut (bytes : ℕ)

/-- Which calls fail; `missed` is a file that `existsSync` does not find though it is there. -/
structure Faults where
  missed : ℕ → Bool := fun _ => false
  stat : Bool := false
  rename : ℕ → Bool := fun _ => false
  append : Append := .done

variable (L : Limits α)

def bytesOf (pieces : List (Piece α)) : ℕ := (pieces.map Piece.bytes).sum

/-- The files, and whether the line may be appended. -/
@[grind =] def rotateIfFull (faults : Faults) (files : Files (Piece α)) (adding : ℕ) : Files (Piece α) × Bool :=
  match files 0 with
  | none => (files, true)
  | some content =>
    if faults.missed 0 then (files, true)
    else if faults.stat then (files, false)
    else if bytesOf content + adding ≤ L.maxBytes then (files, true)
    else
      let (files, moved) := files.shift faults.missed faults.rename (L.backups - 1)
      if !moved || faults.rename 0 then (files, false) else (files.rename 0, true)

structure Log (α : Type) where
  files : Files (Piece α)
  console : List α := []

/-- What became of a line: how much of it an append wrote, if one was opened, and whether it was left on the console. -/
structure Fate (α : Type) where
  line : α
  kept : Option ℕ
  left : Bool

def Fate.piece (f : Fate α) : Option (Piece α) := f.kept.map (⟨f.line, ·⟩)

def fateOf (ready : Bool) (append : Append) (line : α) : Fate α :=
  if !ready then ⟨line, none, true⟩
  else
    match append with
    | .done => ⟨line, some (L.size line), false⟩
    | .unopened => ⟨line, none, true⟩
    | .cut bytes => ⟨line, some (min bytes (L.size line)), true⟩

/-- One line written, or left on the console. -/
def Log.write (log : Log α) (faults : Faults) (line : α) : Log α :=
  let (files, ready) := rotateIfFull L faults log.files (L.size line)
  let fate := fateOf L ready faults.append line
  { files := match fate.piece with
      | none => files
      | some piece => files.append piece
    console := if fate.left then log.console ++ [line] else log.console }

def Log.writeAll (log : Log α) (lines : List (Faults × α)) : Log α := lines.foldl (fun log x => log.write L x.1 x.2) log

/-- All the files hold, the oldest first. -/
def Log.history (log : Log α) : List (Piece α) := log.files.below (L.backups + 1)

section
variable {L} {files : Files (Piece α)} {n adding : ℕ} {faults : Faults}

private theorem below_append (files : Files (Piece α)) (piece : Piece α) (n : ℕ) :
    (files.append piece).below (n + 1) = files.below (n + 1) ++ [piece] := by
  induction n with
  | zero => simp [Files.below, Files.append]
  | succ n ih =>
    have hsame : files.append piece (n + 1) = files (n + 1) := if_neg (Nat.succ_ne_zero n)
    calc (files.append piece).below (n + 2)
        = (files.append piece (n + 1)).getD [] ++ (files.append piece).below (n + 1) := rfl
      _ = (files (n + 1)).getD [] ++ (files.below (n + 1) ++ [piece]) := by rw [hsame, ih]
      _ = files.below (n + 2) ++ [piece] := (List.append_assoc ..).symm

/-- Moved up onto the last place, a file takes the place of the oldest. -/
theorem below_rename_last (files : Files (Piece α)) (i : ℕ) : (files.rename i).below (i + 2) <:+ files.below (i + 2) := by
  have hbelow : (files.rename i).below i = files.below i := by
    apply below_congr
    intro k hk
    exact rename_of_ne (by omega) (by omega)
  have hmoved : (files.rename i).below (i + 2) = files.below (i + 1) := by simp [Files.below, hbelow]
  rw [hmoved]
  exact List.suffix_append _ _

/-- Shifted all the way, none being missed, the files have dropped at most the last of them. -/
theorem shift_last {missed : ℕ → Bool} (hseen : ∀ k, missed k = false) (fails : ℕ → Bool) (m : ℕ)
    (files : Files (Piece α)) : ((files.shift missed fails m).1).below (m + 2) <:+ files.below (m + 2) ∧
      ((files.shift missed fails m).2 = true → m = 0 ∨ (files.shift missed fails m).1 1 = none) := by
  cases m with
  | zero => exact ⟨List.suffix_refl _, fun _ => .inl rfl⟩
  | succ m =>
    rw [Files.shift]
    cases hfile : files (m + 1) with
    | none =>
      obtain ⟨hbelow, hfree⟩ := shift_below hseen fails hfile (Nat.le_succ (m + 2))
      exact ⟨hbelow ▸ List.suffix_refl _, fun hmoved => .inr (hfree hmoved)⟩
    | some content =>
      dsimp only
      rw [hseen, if_neg Bool.false_ne_true]
      split
      · exact ⟨List.suffix_refl _, nofun⟩
      · have hself := rename_self files (m + 1)
        obtain ⟨hbelow, hfree⟩ := shift_below hseen fails hself (Nat.le_succ (m + 2))
        exact ⟨hbelow ▸ below_rename_last files (m + 1), fun hmoved => .inr (hfree hmoved)⟩

private theorem rotate_sublist (faults : Faults) (files : Files (Piece α)) (adding n : ℕ) :
    ((rotateIfFull L faults files adding).1.below n).Sublist (files.below n) := by
  rw [rotateIfFull]
  cases files 0 with
  | none => exact List.Sublist.refl _
  | some content =>
    dsimp only
    have hshift := shift_sublist faults.missed faults.rename (L.backups - 1) n files
    split_ifs
    · exact List.Sublist.refl _
    · exact List.Sublist.refl _
    · exact List.Sublist.refl _
    · exact hshift
    · exact (below_rename_sublist _ 0 n).trans hshift

/-- A rotation that misses no file drops nothing but the oldest pieces. -/
theorem rotate_below (hseen : ∀ k, faults.missed k = false) (files : Files (Piece α)) (adding : ℕ) :
    (rotateIfFull L faults files adding).1.below (L.backups + 1) <:+ files.below (L.backups + 1) := by
  obtain ⟨m, hm⟩ : ∃ m, L.backups = m + 1 := ⟨L.backups - 1, by have := L.backups_pos; omega⟩
  rw [rotateIfFull, hm, Nat.add_sub_cancel]
  cases files 0 with
  | none => exact List.suffix_refl _
  | some content =>
    dsimp only
    obtain ⟨hshift, hfree⟩ := shift_last hseen faults.rename m files
    split_ifs with hmiss hstat hroom hmoved
    · exact List.suffix_refl _
    · exact List.suffix_refl _
    · exact List.suffix_refl _
    · exact hshift
    · obtain ⟨hready, -⟩ : (files.shift faults.missed faults.rename m).2 = true ∧ faults.rename 0 = false := by
        simpa using hmoved
      refine List.IsSuffix.trans ?_ hshift
      rcases hfree hready with rfl | hnone
      · exact below_rename_last _ 0
      · exact (below_rename hnone (Nat.le_add_left 2 m)).symm ▸ List.suffix_refl _

/-- What is in a file after a rotation was in one before, and the line appended to file 0 has room there. -/
theorem rotate_holds {k : ℕ} {content : List (Piece α)}
    (h : (rotateIfFull L faults files adding).1 k = some content) : ∃ j, files j = some content := by
  rw [rotateIfFull] at h
  cases hfile : files 0 with
  | none =>
    rw [hfile] at h
    exact ⟨k, h⟩
  | some held =>
    rw [hfile] at h
    dsimp only at h
    split_ifs at h
    · exact ⟨k, h⟩
    · exact ⟨k, h⟩
    · exact ⟨k, h⟩
    · exact shift_holds faults.missed faults.rename h
    · obtain ⟨j, hj⟩ := rename_holds h
      exact shift_holds faults.missed faults.rename hj

private theorem rotate_room (hseen : faults.missed 0 = false) (hready : (rotateIfFull L faults files adding).2 = true)
    {content : List (Piece α)} (h : (rotateIfFull L faults files adding).1 0 = some content) :
    bytesOf content + adding ≤ L.maxBytes := by
  rw [rotateIfFull] at h hready
  cases hfile : files 0 with
  | none =>
    rw [hfile] at h
    exact absurd (hfile.symm.trans h) nofun
  | some held =>
    rw [hfile] at h hready
    dsimp only at h hready
    rw [hseen, if_neg Bool.false_ne_true] at h hready
    split_ifs at h hready with hstat hroom hmoved
    · obtain rfl : held = content := Option.some.inj (hfile.symm.trans h)
      exact hroom
    · have hnone := rename_self (files.shift faults.missed faults.rename (L.backups - 1)).1 0
      exact absurd (hnone.symm.trans h) nofun

private theorem rotate_above {k : ℕ} (hk : L.backups < k) : (rotateIfFull L faults files adding).1 k = files k := by
  have hpos := L.backups_pos
  have hshift : (files.shift faults.missed faults.rename (L.backups - 1)).1 k = files k := shift_above _ _ (by omega)
  rw [rotateIfFull]
  cases files 0 with
  | none => rfl
  | some content =>
    dsimp only
    split_ifs
    · rfl
    · rfl
    · rfl
    · exact hshift
    · exact (rename_of_ne (by omega) (by omega)).trans hshift

/-- A file is within its size, or one piece. -/
def Bounded (L : Limits α) (files : Files (Piece α)) : Prop :=
  ∀ k content, files k = some content → bytesOf content ≤ L.maxBytes ∨ content.length ≤ 1

private theorem bounded_append (h : Bounded L files) {piece : Piece α}
    (hroom : ∀ content, files 0 = some content → bytesOf content + piece.bytes ≤ L.maxBytes) :
    Bounded L (files.append piece) := by
  intro k content hk
  rw [Files.append] at hk
  split_ifs at hk
  · cases hfile : files 0 with
    | none =>
      rw [hfile] at hk
      cases hk
      exact .inr (Nat.le_refl 1)
    | some held =>
      rw [hfile] at hk
      cases hk
      have hbytes := hroom held hfile
      refine .inl ?_
      simpa [bytesOf] using hbytes
  · exact h k content hk

/-- A line not left on the console was written whole, and no more of a line is written than there is of it. -/
def Fate.Fair (L : Limits α) (f : Fate α) : Prop :=
  (f.left = false → f.kept = some (L.size f.line)) ∧ ∀ bytes ∈ f.kept, bytes ≤ L.size f.line

private theorem fair_fateOf (ready : Bool) (append : Append) (line : α) : (fateOf L ready append line).Fair L := by
  unfold fateOf
  split
  · exact ⟨nofun, nofun⟩
  · cases append with
    | done => exact ⟨fun _ => rfl, fun bytes hbytes => (Option.some.inj hbytes).ge⟩
    | unopened => exact ⟨nofun, nofun⟩
    | cut bytes => exact ⟨nofun, fun kept hkept => Option.some.inj hkept ▸ Nat.min_le_right _ _⟩

private theorem line_fateOf (ready : Bool) (append : Append) (line : α) : (fateOf L ready append line).line = line := by
  unfold fateOf
  split
  · rfl
  · cases append <;> rfl

/-- What is appended to has been found, or is new. -/
theorem ready_of_piece {ready : Bool} {append : Append} {line : α} {piece : Piece α}
    (h : (fateOf L ready append line).piece = some piece) : ready = true := by
  by_contra hnot
  rw [Bool.not_eq_true] at hnot
  rw [hnot] at h
  cases h

/-- What a write does: its piece comes last, and the oldest may be gone, or, of a file that is missed, any; the line is
on the console if it was left. -/
theorem write_spec (log : Log α) (faults : Faults) (line : α) :
    ∃ f : Fate α, f.line = line ∧ f.Fair L ∧
      ((log.write L faults line).history L).Sublist (log.history L ++ f.piece.toList) ∧
      (log.write L faults line).console = log.console ++ (if f.left then [line] else []) ∧
      (∀ k, L.backups < k → (log.write L faults line).files k = log.files k) ∧
      ((∀ k, faults.missed k = false) → (log.write L faults line).history L <:+ log.history L ++ f.piece.toList ∧
        (Bounded L log.files → Bounded L (log.write L faults line).files)) := by
  set rotated := rotateIfFull L faults log.files (L.size line) with hrotated
  set f := fateOf L rotated.2 faults.append line with hf
  have hline : f.line = line := line_fateOf _ _ _
  have hfair : f.Fair L := fair_fateOf _ _ _
  have hfiles : (log.write L faults line).files = match f.piece with
      | none => rotated.1
      | some piece => rotated.1.append piece := rfl
  have hhistory : (log.write L faults line).history L = rotated.1.below (L.backups + 1) ++ f.piece.toList := by
    rw [Log.history, hfiles]
    cases f.piece with
    | none => exact (List.append_nil _).symm
    | some piece => exact below_append _ _ _
  refine ⟨f, hline, hfair, ?_, ?_, fun k hk => ?_, fun hseen => ⟨?_, fun hb => ?_⟩⟩
  · rw [hhistory]
    exact (rotate_sublist faults log.files _ _).append (List.Sublist.refl _)
  · change (if f.left then log.console ++ [line] else log.console) = _
    split_ifs
    · rfl
    · exact (List.append_nil _).symm
  · have habove : rotated.1 k = log.files k := rotate_above hk
    rw [hfiles]
    cases f.piece with
    | none => exact habove
    | some piece => exact (if_neg (by omega)).trans habove
  · obtain ⟨dropped, hdropped⟩ := rotate_below (L := L) hseen log.files (L.size line)
    refine ⟨dropped, ?_⟩
    rw [hhistory, ← List.append_assoc, hdropped]
    rfl
  · have hheld : Bounded L rotated.1 := by
      intro k content h
      obtain ⟨j, hj⟩ := rotate_holds h
      exact hb j content hj
    rw [hfiles]
    cases hpiece : f.piece with
    | none => exact hheld
    | some piece =>
      refine bounded_append hheld fun content hcontent => ?_
      have hroom := rotate_room (hseen 0) (ready_of_piece hpiece) hcontent
      obtain ⟨bytes, hkept, rfl⟩ := Option.map_eq_some_iff.mp hpiece
      have hsize := hfair.2 bytes hkept
      rw [hline] at hsize
      exact (Nat.add_le_add_left hsize _).trans hroom

/-- Over any writes: what the files hold is of what they held and of what was written, in its order; every line not
written whole is on the console; and where no file was missed it is the last of it, no file outgrowing its size but by
one piece alone. -/
theorem writeAll_spec (L : Limits α) (lines : List (Faults × α)) (log : Log α) :
    ∃ fates : List (Fate α), fates.map Fate.line = lines.map Prod.snd ∧ (∀ f ∈ fates, f.Fair L) ∧
      ((log.writeAll L lines).history L).Sublist (log.history L ++ fates.filterMap Fate.piece) ∧
      (log.writeAll L lines).console = log.console ++ (fates.filter Fate.left).map Fate.line ∧
      (∀ k, L.backups < k → (log.writeAll L lines).files k = log.files k) ∧
      ((∀ x ∈ lines, ∀ k, x.1.missed k = false) →
        (log.writeAll L lines).history L <:+ log.history L ++ fates.filterMap Fate.piece ∧
          (Bounded L log.files → Bounded L (log.writeAll L lines).files)) := by
  induction lines generalizing log with
  | nil =>
    refine ⟨[], rfl, nofun, ?_, ?_, fun _ _ => rfl, fun _ => ⟨?_, id⟩⟩
    · simp [Log.writeAll]
    · simp [Log.writeAll]
    · simp [Log.writeAll]
  | cons x lines ih =>
    obtain ⟨f, hline, hfair, hsub, hconsole, habove, hseen⟩ := write_spec (L := L) log x.1 x.2
    obtain ⟨fates, hlines, hfairs, hsub', hconsole', habove', hseen'⟩ := ih (log.write L x.1 x.2)
    have hpieces : (f :: fates).filterMap Fate.piece = f.piece.toList ++ fates.filterMap Fate.piece := by
      cases hpiece : f.piece <;> simp [hpiece]
    refine ⟨f :: fates, ?_, List.forall_mem_cons.mpr ⟨hfair, hfairs⟩, ?_, ?_, fun k hk => ?_, fun hall => ?_⟩
    · rw [List.map_cons, List.map_cons, hline, hlines]
    · rw [hpieces, ← List.append_assoc]
      exact hsub'.trans (hsub.append (List.Sublist.refl _))
    · refine hconsole'.trans ?_
      rw [hconsole, List.append_assoc, List.filter_cons, ← hline]
      split_ifs <;> rfl
    · exact (habove' k hk).trans (habove k hk)
    · obtain ⟨hfirst, hrest⟩ := List.forall_mem_cons.mp hall
      obtain ⟨⟨dropped, hdropped⟩, hbounded⟩ := hseen hfirst
      obtain ⟨hlast, hbounded'⟩ := hseen' hrest
      refine ⟨hlast.trans ⟨dropped, ?_⟩, fun hb => hbounded' (hbounded hb)⟩
      rw [hpieces, ← List.append_assoc, hdropped, List.append_assoc]

end

end Kanat.RotatedFiles
