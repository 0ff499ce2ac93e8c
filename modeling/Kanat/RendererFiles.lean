import Kanat.PercentTexts
import Kanat.PosixPaths
import Mathlib.Logic.Function.Basic

/-! # The files the app serves its window

`electron/protocol.ts`: the built renderer under `app://kanat/`, on a POSIX system. -/
namespace Kanat.RendererFiles
open PosixPaths

structure KanatConfig where
  apiUrl : String
  mediaUrl : String
  grafanaUrl : String

/-- Header names are in lower case. -/
structure Response (Body : Type) where
  status : ℕ
  headers : String → Option String
  body : Option Body

variable {Body : Type}

def contentSecurityPolicy (config : KanatConfig) : String :=
  "; ".intercalate ["default-src 'self' " ++ config.apiUrl ++ " " ++ config.mediaUrl ++ " " ++ config.grafanaUrl,
    "frame-src " ++ config.grafanaUrl, "style-src 'self' 'unsafe-inline'", "img-src 'self' data: blob:",
    "script-src 'self' 'unsafe-eval'"]

def distDir (dirname : Directory) : List Char := join (text dirname.segments) "../dist".toList

def notFound : Response Body := ⟨404, fun _ => none, none⟩

def withPolicy (csp : String) (res : Response Body) : Response Body :=
  { res with headers := Function.update res.headers "content-security-policy" (some csp) }

/-- The answer to a request, nothing where `decodeURIComponent` throws; `fetch` reads a file. -/
def serveApp (dirname : Directory) (config : KanatConfig) (fetch : List Char → Response Body) (pathname : List Char) :
    Option (Response Body) :=
  (PercentTexts.decode pathname).map fun decoded =>
    let file := join (distDir dirname) decoded
    if (distDir dirname ++ ['/']).isPrefixOf file then withPolicy (contentSecurityPolicy config) (fetch file)
    else notFound

private theorem notMem_dist : ∀ s ∈ [['.', '.'], "dist".toList], '/' ∉ s := by
  intro s hs
  have hall : [['.', '.'], "dist".toList].all (fun s => s.all (· ≠ '/')) = true := rfl
  exact fun hmem => of_decide_eq_true (List.all_eq_true.mp (List.all_eq_true.mp hall s hs) _ hmem) rfl

def dist (dirname : Directory) : Directory where
  segments := walk dirname.segments [['.', '.'], "dist".toList]
  plain := plain_walk dirname.plain notMem_dist

variable {dirname : Directory}

theorem distDir_eq (dirname : Directory) : distDir dirname = text (dist dirname).segments := by
  have hsplit : "../dist".toList.splitOn '/' = [['.', '.'], "dist".toList] := rfl
  have hslash : slash "../dist".toList = [] := rfl
  rw [distDir, join_text, hsplit, hslash, List.append_nil]
  exact if_neg (List.append_ne_nil_of_right_ne_nil _ (List.cons_ne_nil _ _))

/-- Where a path leads from the folder it serves. -/
def reached (dirname : Directory) (decoded : List Char) : List Segment :=
  walk (dist dirname).segments (decoded.splitOn '/')

/-- In that folder, or the folder itself with a slash. -/
def Within (dirname : Directory) (decoded : List Char) : Prop :=
  ∃ rest, reached dirname decoded = (dist dirname).segments ++ rest ∧ (rest = [] → decoded.getLast? = some '/')

theorem plain_reached (dirname : Directory) (decoded : List Char) : ∀ s ∈ reached dirname decoded, Plain s :=
  plain_walk (dist dirname).plain fun _ hs => notMem_of_mem_splitOn hs

private theorem text_slash (segments : List Segment) (decoded : List Char) :
    text segments ++ slash decoded = text (segments ++ if decoded.getLast? = some '/' then [[]] else []) := by
  rw [text_append, slash]
  split_ifs <;> rfl

theorem dist_ne_nil (dirname : Directory) : (dist dirname).segments ≠ [] :=
  List.append_ne_nil_of_right_ne_nil _ (List.cons_ne_nil _ _)

private theorem notMem_segment {segments : List Segment} (h : ∀ s ∈ segments, Plain s) (decoded : List Char) :
    ∀ s ∈ segments ++ (if decoded.getLast? = some '/' then [[]] else []), '/' ∉ s := by
  intro s hs
  rcases List.mem_append.mp hs with hs | hs
  · exact (h s hs).2.2.2
  · split_ifs at hs
    · rw [List.mem_singleton.mp hs]
      exact List.not_mem_nil
    · exact absurd hs List.not_mem_nil

/-- The check lets through what is below the folder, and the folder asked for as one. -/
theorem isPrefixOf_join (dirname : Directory) (decoded : List Char) :
    (distDir dirname ++ ['/']).isPrefixOf (join (distDir dirname) decoded) ↔ Within dirname decoded := by
  have hdist : ∀ s ∈ (dist dirname).segments, '/' ∉ s := fun s hs => ((dist dirname).plain s hs).2.2.2
  refine Iff.trans List.isPrefixOf_iff_prefix ?_
  rw [distDir_eq, join_text]
  change text (dist dirname).segments ++ ['/'] <+:
    (if reached dirname decoded = [] then ['/'] else text (reached dirname decoded) ++ slash decoded) ↔ _
  split_ifs with hempty
  · change _ <+: text [[]] ↔ _
    rw [text_isPrefix hdist (fun s hs => by rw [List.mem_singleton.mp hs]; exact List.not_mem_nil)]
    constructor
    · rintro ⟨rest, hne, heq⟩
      have hlength := congrArg List.length heq
      have hpos := List.length_pos_iff.mpr hne
      have hdistpos := List.length_pos_iff.mpr (dist_ne_nil dirname)
      rw [List.length_append, List.length_singleton] at hlength
      omega
    · rintro ⟨rest, heq, -⟩
      rw [hempty] at heq
      exact absurd (List.append_eq_nil_iff.mp heq.symm).1 (dist_ne_nil dirname)
  · rw [text_slash, text_isPrefix hdist (notMem_segment (plain_reached dirname decoded) decoded)]
    split_ifs with hslash
    · constructor
      · rintro ⟨rest, hne, heq⟩
        obtain ⟨front, last, rfl⟩ := (List.eq_nil_or_concat' rest).resolve_left hne
        rw [← List.append_assoc] at heq
        exact ⟨front, (List.append_inj_left' heq rfl), fun _ => hslash⟩
      · rintro ⟨rest, heq, -⟩
        exact ⟨rest ++ [[]], by simp, by rw [heq, List.append_assoc]⟩
    · rw [List.append_nil]
      constructor
      · rintro ⟨rest, hne, heq⟩
        exact ⟨rest, heq, fun h => absurd h hne⟩
      · rintro ⟨rest, heq, hrest⟩
        exact ⟨rest, fun h => absurd (hrest h) hslash, heq⟩

private theorem reached_plain (dirname : Directory) {rest : List Segment} (h : ∀ s ∈ rest, Plain s) :
    reached dirname (text rest) = (dist dirname).segments ++ rest := by
  rw [reached, splitOn_text fun s hs => (h s hs).2.2.2]
  exact walk_plain h

private theorem decodeToBytes_text (rest : List Segment) :
    PercentTexts.decodeToBytes (text (rest.map PercentTexts.quote)) = some (PercentTexts.utf8 (text rest)) := by
  induction rest with
  | nil => rfl
  | cons s rest ih =>
    rw [List.map_cons, text_cons, PercentTexts.decodeToBytes_of_ne (by decide), PercentTexts.decodeToBytes_quote, ih,
      text_cons, PercentTexts.utf8, PercentTexts.utf8, PercentTexts.utf8, List.flatMap_cons, List.flatMap_append]
    rfl

private theorem decode_text (rest : List Segment) :
    PercentTexts.decode (text (rest.map PercentTexts.quote)) = some (text rest) := by
  rw [PercentTexts.decode, decodeToBytes_text, Option.bind_some, PercentTexts.utf8Decode_utf8]

private theorem join_of_within {decoded : List Char} (h : Within dirname decoded) :
    join (distDir dirname) decoded = text (reached dirname decoded) ++ slash decoded := by
  obtain ⟨rest, heq, -⟩ := h
  rw [distDir_eq, join_text]
  refine if_neg fun hempty => dist_ne_nil dirname ?_
  change reached dirname decoded = [] at hempty
  rw [heq] at hempty
  exact (List.append_eq_nil_iff.mp hempty).1

/-- Whatever path a page asks for, encoded or not: the answer is the file it leads to when that is within the served
folder, with the policy in its header, and not found otherwise; and every file below the folder is served under its
name. -/
theorem serves_dist (dirname : Directory) (config : KanatConfig) (fetch : List Char → Response Body) :
    (∀ pathname decoded, PercentTexts.decode pathname = some decoded →
      (∀ s ∈ reached dirname decoded, Plain s) ∧
        (Within dirname decoded ∧ serveApp dirname config fetch pathname = some (withPolicy
            (contentSecurityPolicy config) (fetch (text (reached dirname decoded) ++ slash decoded))) ∨
          ¬Within dirname decoded ∧ serveApp dirname config fetch pathname = some notFound)) ∧
      ∀ rest, rest ≠ [] → (∀ s ∈ rest, Plain s) →
        serveApp dirname config fetch (text (rest.map PercentTexts.quote)) = some (withPolicy
          (contentSecurityPolicy config) (fetch (distDir dirname ++ text rest))) := by
  have hserved : ∀ pathname decoded, PercentTexts.decode pathname = some decoded → Within dirname decoded →
      serveApp dirname config fetch pathname = some (withPolicy (contentSecurityPolicy config)
        (fetch (text (reached dirname decoded) ++ slash decoded))) := by
    intro pathname decoded hdecoded hwithin
    rw [serveApp, hdecoded, Option.map_some, if_pos ((isPrefixOf_join dirname decoded).mpr hwithin),
      join_of_within hwithin]
  refine ⟨fun pathname decoded hdecoded => ⟨plain_reached dirname decoded, ?_⟩, fun rest hne hrest => ?_⟩
  · by_cases hwithin : Within dirname decoded
    · exact .inl ⟨hwithin, hserved pathname decoded hdecoded hwithin⟩
    · refine .inr ⟨hwithin, ?_⟩
      rw [serveApp, hdecoded, Option.map_some, if_neg (mt (isPrefixOf_join dirname decoded).mp hwithin)]
  · have hreached := reached_plain dirname hrest
    have hfile : distDir dirname ++ text rest = text (reached dirname (text rest)) ++ slash (text rest) := by
      rw [slash_text hrest, hreached, text_append, distDir_eq, List.append_nil]
    rw [hfile]
    exact hserved _ _ (decode_text rest) ⟨rest, hreached, fun h => absurd h hne⟩

end Kanat.RendererFiles
