import Kanat.TextLines
import Mathlib.Algebra.Field.Defs
import Mathlib.Algebra.BigOperators.Group.List.Defs

/-! # Exports of labels (tools/evaluate.py: damaged_lines, load_labels, read_export)

`float` is Python's, `none` where it raises; a label's coordinates are exact. A file is named by its absolute
directory and its name, there being no links, and its bytes are the text they decode to. -/
namespace Kanat.LabelExports
open TextLines

structure File where
  dir : String
  name : String
deriving DecidableEq

abbrev Files := File → Option Text

inductive Raised where
  | fileNotFoundError
  | sameFileError
  | valueError
  | indexError
  | systemExit (message : String)
deriving DecidableEq

variable {R : Type} [Field R]

/-- A line is damaged that has fewer than four values or an odd number of them; lines are numbered from 1. -/
def damagedLines (lines : List Text) : List ℕ :=
  (((lines.map fun l => (words l).tail).zipIdx 1).filter fun r => r.1.length < 4 ∨ r.1.length % 2 ≠ 0).map fun r => r.2

/-- `reshape(-1, 2)` -/
def points : List R → List (R × R)
  | x :: y :: rest => (x, y) :: points rest
  | _ => []

/-- `_centroid`: four values are a box, and more a polygon. -/
def centroid (values : List R) : R × R :=
  if values.length = 4 then (values.getD 0 0, values.getD 1 0)
  else
    let points := points (values.take (values.length - values.length % 2))
    ((points.map fun p => p.1).sum / points.length, (points.map fun p => p.2).sum / points.length)

section
variable (float : Text → Option R)

/-- `_centroids` -/
def centroids (lines : List Text) : Except Raised (List (R × R)) :=
  match (lines.map words).mapM fun row => row.tail.mapM float with
  | none => .error .valueError
  | some rows => .ok ((rows.filter fun values => 4 ≤ values.length).map centroid)

def loadLabels (files : Files) (file : File) : Except Raised (List (R × R) × ℕ) :=
  match files file with
  | none => .error .fileNotFoundError
  | some text =>
    let lines := nonblank text
    (centroids float lines).map fun centres => (centres, (damagedLines lines).length)

def refusal (path : String) (bad : List ℕ) : String :=
  "[REFUSED] " ++ path ++ " is damaged: " ++ ", ".intercalate (bad.map fun n => "line " ++ toString n) ++
    " carries too few values or an odd number of them, so a coordinate was cut short. Re-export that file; keep the" ++
    " raw bytes and correct a derived copy. Deriving from it would put a mark in the wrong place."

/-- `abspath` finds the file that a path names. -/
def readExport (abspath : String → File) (files : Files) (path : String) : Except Raised (List Text × List (R × R)) :=
  match files (abspath path) with
  | none => .error .fileNotFoundError
  | some text =>
    let lines := nonblank text
    let bad := damagedLines lines
    if bad ≠ [] then .error (.systemExit (refusal path bad))
    else (loadLabels float files (abspath path)).map fun labels => (lines, labels.1)

end

variable {float : Text → Option R} {lines lines' : List Text} {l : Text}

omit [Field R] in
theorem mapM_eq_some {α β : Type} {f : α → Option β} {xs : List α} {ys : List β} :
    xs.mapM f = some ys ↔ xs.map f = ys.map some := by
  induction xs generalizing ys with
  | nil => cases ys <;> simp
  | cons x xs ih =>
    rw [List.mapM_cons, List.map_cons]
    cases f x with
    | none => cases ys <;> simp
    | some y =>
      cases ys with
      | nil => cases xs.mapM f <;> simp
      | cons y' ys =>
        rw [List.map_cons, List.cons.injEq, ← ih]
        cases xs.mapM f <;> simp

/-- Readable: enough values, an even number, each a number. -/
def Readable (float : Text → Option R) (l : Text) : Prop :=
  4 ≤ (words l).tail.length ∧ (words l).tail.length % 2 = 0 ∧ ((words l).tail.mapM float).isSome

/-- The centre of a readable line's label. -/
def centre (float : Text → Option R) (l : Text) : R × R := centroid (((words l).tail.mapM float).getD [])

theorem damagedLines_eq_nil : damagedLines lines = [] ↔
    ∀ l ∈ lines, 4 ≤ (words l).tail.length ∧ (words l).tail.length % 2 = 0 := by
  have hmem : ∀ l ∈ lines, ∃ n, ((words l).tail, n) ∈ (lines.map fun l => (words l).tail).zipIdx 1 := by
    intro l hl
    obtain ⟨i, hi, heq⟩ := List.mem_iff_getElem.mp hl
    refine ⟨i + 1, List.mk_mem_zipIdx_iff_le_and_getElem?_sub.mpr ⟨by omega, ?_⟩⟩
    rw [Nat.add_sub_cancel, List.getElem?_map, List.getElem?_eq_getElem hi, heq]
    rfl
  rw [damagedLines, List.map_eq_nil_iff, List.filter_eq_nil_iff]
  constructor
  · intro h l hl
    obtain ⟨n, hn⟩ := hmem l hl
    have hgood := h _ hn
    simp only [decide_eq_true_eq] at hgood
    omega
  · rintro h ⟨row, n⟩ hr
    obtain ⟨l, hl, rfl⟩ := List.mem_map.mp (List.fst_mem_of_mem_zipIdx hr)
    have hgood := h l hl
    simp only [decide_eq_true_eq]
    omega

theorem damagedLines_congr (h : lines.map words = lines'.map words) : damagedLines lines = damagedLines lines' := by
  have htails : ∀ ls : List Text, (ls.map fun l => (words l).tail) = (ls.map words).map List.tail := fun ls => by
    rw [List.map_map]
    rfl
  rw [damagedLines, damagedLines, htails, htails, h]

theorem centroids_congr (h : lines.map words = lines'.map words) : centroids float lines = centroids float lines' := by
  rw [centroids, centroids, h]

/-- Readable lines have one label each. -/
theorem centroids_of_readable (h : ∀ l ∈ lines, Readable float l) :
    centroids float lines = .ok (lines.map (centre float)) := by
  have hrows : (lines.map words).mapM (fun row => row.tail.mapM float) =
      some (lines.map fun l => ((words l).tail.mapM float).getD []) := by
    rw [mapM_eq_some, List.map_map, List.map_map]
    refine List.map_congr_left fun l hl => ?_
    obtain ⟨values, hvalues⟩ := Option.isSome_iff_exists.mp (h l hl).2.2
    simp only [Function.comp_apply, hvalues, Option.getD_some]
  have hall : (lines.map fun l => ((words l).tail.mapM float).getD []).filter (fun values => 4 ≤ values.length) =
      lines.map fun l => ((words l).tail.mapM float).getD [] := by
    refine List.filter_eq_self.mpr fun values hvalues => ?_
    obtain ⟨l, hl, rfl⟩ := List.mem_map.mp hvalues
    obtain ⟨values, hvalues⟩ := Option.isSome_iff_exists.mp (h l hl).2.2
    have hlength := congrArg List.length (mapM_eq_some.mp hvalues)
    rw [List.length_map, List.length_map] at hlength
    have hfour := (h l hl).1
    rw [hvalues, Option.getD_some, decide_eq_true_eq]
    omega
  rw [centroids, hrows]
  simp only [hall, List.map_map]
  rfl

private theorem readable_of_centroids {centres : List (R × R)} (hbad : damagedLines lines = [])
    (h : centroids float lines = .ok centres) : ∀ l ∈ lines, Readable float l := by
  intro l hl
  obtain ⟨hfour, heven⟩ := damagedLines_eq_nil.mp hbad l hl
  refine ⟨hfour, heven, ?_⟩
  rw [centroids] at h
  cases hrows : (lines.map words).mapM fun row => row.tail.mapM float with
  | none => rw [hrows] at h; cases h
  | some rows =>
    have hmap := mapM_eq_some.mp hrows
    rw [List.map_map] at hmap
    have hmem : (words l).tail.mapM float ∈ rows.map some := hmap ▸ List.mem_map_of_mem hl
    obtain ⟨values, -, hvalues⟩ := List.mem_map.mp hmem
    rw [← hvalues]
    rfl

/-- What is accepted of an export: every line is readable, and has its centre. -/
theorem readExport_ok {abspath : String → File} {files : Files} {path : String} {centres : List (R × R)}
    (h : readExport float abspath files path = .ok (lines, centres)) :
    ∃ text, files (abspath path) = some text ∧ lines = nonblank text ∧ (∀ l ∈ lines, Readable float l) ∧
      centres = lines.map (centre float) := by
  unfold readExport loadLabels at h
  cases htext : files (abspath path) with
  | none => rw [htext] at h; cases h
  | some text =>
    simp only [htext] at h
    split_ifs at h with hbad
    cases hcentres : centroids float (nonblank text) with
    | error e => rw [hcentres] at h; cases h
    | ok found =>
      rw [hcentres] at h
      obtain ⟨rfl, rfl⟩ := Prod.mk.inj (Except.ok.inj h)
      have hreadable := readable_of_centroids (not_not.mp hbad) hcentres
      rw [centroids_of_readable hreadable] at hcentres
      exact ⟨text, rfl, rfl, hreadable, (Except.ok.inj hcentres).symm⟩

/-- A file of readable lines reads as their centres, none damaged. -/
theorem loadLabels_ended {files : Files} {file : File} (hfile : files file = some (ended lines))
    (hlines : ∀ l ∈ lines, (∀ c ∈ l, ¬ isLineBreak c) ∧ words l ≠ []) (h : ∀ l ∈ lines, Readable float l) :
    loadLabels float files file = .ok (lines.map (centre float), 0) := by
  have hwords := map_words_nonblank_ended hlines
  have hbad : damagedLines lines = [] := damagedLines_eq_nil.mpr fun l hl => ⟨(h l hl).1, (h l hl).2.1⟩
  unfold loadLabels
  simp only [hfile]
  rw [centroids_congr hwords, damagedLines_congr hwords, centroids_of_readable h, hbad]
  rfl

end Kanat.LabelExports
