import Kanat.BulletRanks
import Kanat.CommaSeparated
import Kanat.PercentTexts
import Kanat.TimeTexts

/-! # A Session's exports

`services/export.py` and `routers/export.py`: the CSV of a Session's Bullet Holes, and the name its file is sent under.
A reader of either has the standard's rules only. -/
namespace Kanat.SessionExport
open Bullets Calendar PlainTexts

structure Seen (Instant K : Type) where
  firstSeenAt : Instant
  positionX : K
  positionY : K
  deriving DecidableEq

structure Session (Key Instant K : Type) where
  name : List Char
  startedAt : DateTime
  status : SessionStatus
  bulletHoles : List (BulletHole Key (Seen Instant K))

inductive Format where
  | pdf | csv | excel

def Format.ext : Format → List Char
  | .pdf => "pdf".toList
  | .csv => "csv".toList
  | .excel => "xlsx".toList

variable {Key Instant K : Type}

def wordChar (c : Char) : Bool := c.isAlphanum || c = '_'

/-- `encode("ascii", errors="replace")`. -/
def ascii (c : Char) : Char := if c.toNat < 128 then c else '?'

/-- `re.sub(r"[\s]+", "_", slug)`; `inRun` in a run of spaces. -/
def joinSpaces (inRun : Bool) : List Char → List Char
  | [] => []
  | c :: slug =>
    if isspace c then (if inRun then [] else ['_']) ++ joinSpaces true slug else c :: joinSpaces false slug

def asciiSlug (name : List Char) : List Char :=
  let slug := name.map ascii
  let slug := slug.map fun c => if wordChar c || isspace c || c = '-' then c else '_'
  let slug := strip (· = '_') (joinSpaces false slug)
  if slug = [] then "session".toList else slug

def dateStr (yearDigits : ℕ) (startedAt : DateTime) : List Char :=
  TimeTexts.strftime yearDigits [.year, .month, .day] startedAt

def fallback (yearDigits : ℕ) (session : Session Key Instant K) (format : Format) : List Char :=
  "session_".toList ++ asciiSlug session.name ++ '_' :: dateStr yearDigits session.startedAt ++ '.' :: format.ext

def utf8Name (yearDigits : ℕ) (session : Session Key Instant K) (format : Format) : List Char :=
  "session_".toList ++ session.name.map (fun c => if c = ' ' then '_' else c) ++
    '_' :: dateStr yearDigits session.startedAt ++ '.' :: format.ext

def contentDisposition (yearDigits : ℕ) (session : Session Key Instant K) (format : Format) : List Char :=
  "attachment; filename=\"".toList ++ fallback yearDigits session format ++ "\"; filename*=UTF-8''".toList ++
    PercentTexts.quote (utf8Name yearDigits session format)

def parameter (part : List Char) : List Char × List Char :=
  let part := part.dropWhile (· = ' ')
  (part.takeWhile (· ≠ '='), (part.dropWhile (· ≠ '=')).tail)

def quoted : List Char → Option (List Char)
  | '"' :: text => some (text.takeWhile (· ≠ '"'))
  | _ => none

def extended (value : List Char) : Option (List Char) :=
  (value.dropPrefix? "UTF-8''".toList).bind PercentTexts.unquote

/-- An attachment's two names. -/
def readDisposition (header : List Char) : Option (List Char × List Char) :=
  match (header.splitOn ';').map parameter with
  | [(kind, _), (plainKey, plain), (extendedKey, name)] =>
    if kind = "attachment".toList ∧ plainKey = "filename".toList ∧ extendedKey = "filename*".toList then
      (quoted plain).bind fun plain => (extended name).map fun name => (plain, name)
    else none
  | _ => none

def Source.text : Source → List Char
  | .model => "model".toList
  | .manual => "manual".toList

def ranked (session : Session Key Instant K) : List (BulletHole Key (Seen Instant K)) :=
  session.bulletHoles.mergeSort fun a b => a.rank ≤ b.rank

def headers : List CommaSeparated.Field :=
  ["rank".toList, "first_seen_at".toList, "position_x".toList, "position_y".toList, "source".toList]

def row (isoformat : Instant → List Char) (repr : K → List Char) (b : BulletHole Key (Seen Instant K)) :
    List CommaSeparated.Field :=
  [Nat.toDigits 10 b.rank, isoformat b.seen.firstSeenAt, repr b.seen.positionX, repr b.seen.positionY,
    Source.text b.source]

def generateCsv (isoformat : Instant → List Char) (repr : K → List Char) (session : Session Key Instant K) :
    List Char :=
  CommaSeparated.write (headers :: (ranked session).map (row isoformat repr))

def requireCompleted : Option (Session Key Instant K) → Except HTTPException (Session Key Instant K)
  | none => .error ⟨404, "Session not found"⟩
  | some session =>
    if session.status = .active then .error ⟨409, "Session is still active; close it before exporting"⟩
    else .ok session

structure Response where
  disposition : List Char
  content : List Char

def exportCsv (yearDigits : ℕ) (isoformat : Instant → List Char) (repr : K → List Char)
    (session : Option (Session Key Instant K)) : Except HTTPException Response := do
  let session ← requireCompleted session
  let content := generateCsv isoformat repr session
  return ⟨contentDisposition yearDigits session .csv, content⟩

/-- What `get_session_detail` finds: the Session with its rows that are not deleted, in some order. -/
def Loads (db : Database Key (Seen Instant K)) (sessionId : Uuid) : Option (Session Key Instant K) → Prop
  | none => db.status sessionId = none
  | some session => db.status sessionId = some session.status ∧ session.bulletHoles.Perm (db.current sessionId)

section

variable {c : Char} {l : List Char} {session : Session Key Instant K} {format : Format} {yearDigits : ℕ}
  {db : Database Key (Seen Instant K)} {sessionId : Uuid}

/-- What the plain name is made of. -/
def plainChar (c : Char) : Bool := wordChar c || c = '-' || c = '.'

theorem plainChar_wordChar (h : wordChar c) : plainChar c := by
  rw [plainChar, h]
  rfl

private theorem plainChar_of_isDigit (h : c.isDigit) : plainChar c := by
  refine plainChar_wordChar ?_
  rw [wordChar, Char.isAlphanum, h, Bool.or_true]
  rfl

private theorem plainChar_unreserved (h : plainChar c) : PercentTexts.unreserved c := by
  simp only [plainChar, wordChar, Bool.or_eq_true, decide_eq_true_eq] at h
  simp only [PercentTexts.unreserved, Bool.or_eq_true, decide_eq_true_eq]
  tauto

theorem unreserved_safe (h : PercentTexts.unreserved c) : 32 < c.toNat ∧ c.toNat < 127 ∧ c ≠ ';' := by
  refine ⟨?_, PercentTexts.unreserved_range h, ?_⟩
  · simp only [PercentTexts.unreserved, Bool.or_eq_true, decide_eq_true_eq] at h
    rcases h with (((h | rfl) | rfl) | rfl) | rfl
    · have hrange := isAlphanum_range h
      omega
    all_goals decide
  · intro heq
    subst heq
    exact absurd h (by decide)

private theorem mem_joinSpaces {inRun : Bool} (h : c ∈ joinSpaces inRun l) : c = '_' ∨ c ∈ l ∧ ¬isspace c := by
  induction l generalizing inRun with
  | nil => exact absurd h List.not_mem_nil
  | cons d l ih =>
    rw [joinSpaces] at h
    split_ifs at h with hspace hrun
    · exact (ih h).imp id fun hc => ⟨List.mem_cons_of_mem d hc.1, hc.2⟩
    · rcases List.mem_cons.mp h with rfl | h
      · exact .inl rfl
      · exact (ih h).imp id fun hc => ⟨List.mem_cons_of_mem d hc.1, hc.2⟩
    · rcases List.mem_cons.mp h with rfl | h
      · exact .inr ⟨List.mem_cons_self, hspace⟩
      · exact (ih h).imp id fun hc => ⟨List.mem_cons_of_mem d hc.1, hc.2⟩

private theorem mem_strip {p : Char → Bool} (h : c ∈ strip p l) : c ∈ l := by
  have hfront : strip p l <+: l.dropWhile p := List.rdropWhile_prefix p _
  exact (List.dropWhile_suffix p).subset (hfront.subset h)

private theorem plainChar_asciiSlug {name : List Char} (h : c ∈ asciiSlug name) : plainChar c := by
  simp only [asciiSlug] at h
  split_ifs at h with hempty
  · have hall : "session".toList.all plainChar = true := rfl
    exact List.all_eq_true.mp hall c h
  · rcases mem_joinSpaces (mem_strip h) with rfl | ⟨hc, hspace⟩
    · rfl
    · obtain ⟨d, -, rfl⟩ := List.mem_map.mp hc
      split_ifs at hspace ⊢ with hd
      · simp only [Bool.or_eq_true, decide_eq_true_eq] at hd
        rcases hd with (hword | hd) | rfl
        · exact plainChar_wordChar hword
        · exact absurd hd hspace
        · rfl
      · rfl

private theorem isDigit_dateStr {startedAt : DateTime} (h : c ∈ dateStr yearDigits startedAt) : c.isDigit := by
  obtain ⟨item, hitem, hc⟩ := List.mem_flatMap.mp h
  simp only [List.mem_cons, List.not_mem_nil, or_false] at hitem
  rcases hitem with rfl | rfl | rfl <;> exact digits_zeroPadded _ _ c hc

private theorem all_ext (format : Format) : format.ext.all plainChar = true := by
  cases format <;> rfl

private theorem plainChar_fallback (h : c ∈ fallback yearDigits session format) : plainChar c := by
  have hlead : "session_".toList.all plainChar = true := rfl
  rcases List.mem_append.mp h with h | h
  · rcases List.mem_append.mp h with h | h
    · rcases List.mem_append.mp h with h | h
      · exact List.all_eq_true.mp hlead c h
      · exact plainChar_asciiSlug h
    · rcases List.mem_cons.mp h with rfl | h
      · rfl
      · exact plainChar_of_isDigit (isDigit_dateStr h)
  · rcases List.mem_cons.mp h with rfl | h
    · rfl
    · exact List.all_eq_true.mp (all_ext format) c h

theorem mem_encoded {name : List Char} (h : c ∈ PercentTexts.quote name) : 32 < c.toNat ∧ c.toNat < 127 ∧ c ≠ ';' := by
  rcases PercentTexts.mem_quote h with h | rfl
  · exact unreserved_safe h
  · decide

/-- A header of three parts, as the reader splits it. -/
def parts (plain encoded : List Char) : List (List Char) :=
  ["attachment".toList, " filename=\"".toList ++ plain ++ ['"'], " filename*=UTF-8''".toList ++ encoded]

private theorem intercalate_three (a b l : List Char) : [';'].intercalate [a, b, l] = a ++ ';' :: (b ++ ';' :: l) := by
  simp [List.intercalate]

private theorem intercalate_parts (plain encoded : List Char) : [';'].intercalate (parts plain encoded) =
    "attachment; filename=\"".toList ++ plain ++ "\"; filename*=UTF-8''".toList ++ encoded := by
  have hfirst : "attachment; filename=\"".toList = "attachment".toList ++ ';' :: " filename=\"".toList := rfl
  have hlast : "\"; filename*=UTF-8''".toList = '"' :: ';' :: " filename*=UTF-8''".toList := rfl
  rw [parts, intercalate_three, hfirst, hlast]
  simp only [List.append_assoc, List.cons_append, List.nil_append]

theorem parameter_append {key : List Char} (hkey : key.all fun c => c ≠ ' ' && c ≠ '=') (hne : key ≠ [])
    (value : List Char) : parameter (' ' :: (key ++ '=' :: value)) = (key, value) := by
  have hequals : ∀ c ∈ key, decide (c ≠ '=') = true := fun c hc =>
    ((Bool.and_eq_true _ _).mp (List.all_eq_true.mp hkey c hc)).2
  have hdrop : (' ' :: (key ++ '=' :: value)).dropWhile (· = ' ') = key ++ '=' :: value := by
    obtain ⟨c, key, rfl⟩ := List.exists_cons_of_ne_nil hne
    have hc : c ≠ ' ' := of_decide_eq_true
      ((Bool.and_eq_true _ _).mp (List.all_eq_true.mp hkey c List.mem_cons_self)).1
    rw [List.dropWhile_cons_of_pos (by simp), List.cons_append, List.dropWhile_cons_of_neg (by simpa using hc)]
  rw [parameter, hdrop, List.takeWhile_append_of_pos hequals, List.dropWhile_append_of_pos hequals,
    List.takeWhile_cons_of_neg (by simp), List.dropWhile_cons_of_neg (by simp), List.append_nil, List.tail_cons]

theorem quoted_append {plain : List Char} (hplain : '"' ∉ plain) : quoted ('"' :: (plain ++ ['"'])) = some plain := by
  have hne : ∀ c ∈ plain, decide (c ≠ '"') = true := fun c hc => decide_eq_true fun heq => hplain (heq ▸ hc)
  rw [quoted, List.takeWhile_append_of_pos hne, List.takeWhile_cons_of_neg (by simp), List.append_nil]

private theorem extended_append (encoded : List Char) :
    extended ("UTF-8''".toList ++ encoded) = PercentTexts.unquote encoded := by
  rw [extended, List.dropPrefix?_eq_some_iff.mpr ⟨_, rfl, beq_self_eq_true _⟩]
  rfl

private theorem readDisposition_parts {plain encoded : List Char} (hplain : ';' ∉ plain) (hquote : '"' ∉ plain)
    (hencoded : ';' ∉ encoded) : readDisposition ([';'].intercalate (parts plain encoded)) =
      (PercentTexts.unquote encoded).map fun name => (plain, name) := by
  have hparts : ∀ part ∈ parts plain encoded, ';' ∉ part := by
    intro part hpart hmem
    simp only [parts, List.mem_cons, List.not_mem_nil, or_false] at hpart
    have hliterals : ("attachment".toList ++ " filename=\"".toList ++ " filename*=UTF-8''".toList).all (· ≠ ';') :=
      rfl
    rw [List.all_append, List.all_append, Bool.and_eq_true, Bool.and_eq_true] at hliterals
    rcases hpart with rfl | rfl | rfl
    · exact of_decide_eq_true (List.all_eq_true.mp hliterals.1.1 _ hmem) rfl
    · rcases List.mem_append.mp hmem with hmem | hmem
      · rcases List.mem_append.mp hmem with hmem | hmem
        · exact of_decide_eq_true (List.all_eq_true.mp hliterals.1.2 _ hmem) rfl
        · exact hplain hmem
      · exact absurd (List.mem_singleton.mp hmem) (by decide)
    · rcases List.mem_append.mp hmem with hmem | hmem
      · exact of_decide_eq_true (List.all_eq_true.mp hliterals.2 _ hmem) rfl
      · exact hencoded hmem
  have hkind : parameter "attachment".toList = ("attachment".toList, []) := rfl
  have hfirst : parameter (" filename=\"".toList ++ plain ++ ['"']) =
      ("filename".toList, '"' :: (plain ++ ['"'])) := by
    have hkey : "filename".toList.all fun c => c ≠ ' ' && c ≠ '=' := rfl
    rw [List.append_assoc]
    exact parameter_append hkey (List.cons_ne_nil _ _) _
  have hlast : parameter (" filename*=UTF-8''".toList ++ encoded) =
      ("filename*".toList, "UTF-8''".toList ++ encoded) := by
    have hkey : "filename*".toList.all fun c => c ≠ ' ' && c ≠ '=' := rfl
    exact parameter_append hkey (List.cons_ne_nil _ _) _
  have hmap : (([';'].intercalate (parts plain encoded)).splitOn ';').map parameter =
      [("attachment".toList, []), ("filename".toList, '"' :: (plain ++ ['"'])),
        ("filename*".toList, "UTF-8''".toList ++ encoded)] := by
    rw [List.splitOn_intercalate ';' hparts (List.cons_ne_nil _ _), parts, List.map_cons, List.map_cons,
      List.map_cons, List.map_nil, hkind, hfirst, hlast]
  rw [readDisposition, hmap]
  simp only [and_self, if_true]
  rw [quoted_append hquote, extended_append, Option.bind_some]

/-- Every format's file name, whatever the Session is called: the header is printable ASCII, its plain name is letters,
digits, hyphens, dots and underscores, and a reader finds that one and the whole one. -/
theorem disposition_reads_back (yearDigits : ℕ) (session : Session Key Instant K) (format : Format) :
    (∀ c ∈ contentDisposition yearDigits session format, 32 ≤ c.toNat ∧ c.toNat < 127) ∧
      (∀ c ∈ fallback yearDigits session format, plainChar c) ∧
      readDisposition (contentDisposition yearDigits session format) =
        some (fallback yearDigits session format, utf8Name yearDigits session format) := by
  have hplain : ∀ c ∈ fallback yearDigits session format, plainChar c := fun c hc => plainChar_fallback hc
  have hascii : ∀ c ∈ fallback yearDigits session format, 32 < c.toNat ∧ c.toNat < 127 ∧ c ≠ ';' := fun c hc =>
    unreserved_safe (plainChar_unreserved (hplain c hc))
  refine ⟨fun c hc => ?_, hplain, ?_⟩
  · have hliterals : ("attachment; filename=\"".toList ++ "\"; filename*=UTF-8''".toList).all
        fun c => 32 ≤ c.toNat && c.toNat < 127 := rfl
    rw [List.all_append, Bool.and_eq_true] at hliterals
    have hprintable : ∀ l : List Char, l.all (fun c => 32 ≤ c.toNat && c.toNat < 127) → c ∈ l →
        32 ≤ c.toNat ∧ c.toNat < 127 := fun l hl hc => by simpa using List.all_eq_true.mp hl c hc
    rcases List.mem_append.mp hc with hc | hc
    · rcases List.mem_append.mp hc with hc | hc
      · rcases List.mem_append.mp hc with hc | hc
        · exact hprintable _ hliterals.1 hc
        · exact ⟨(hascii c hc).1.le, (hascii c hc).2.1⟩
      · exact hprintable _ hliterals.2 hc
    · exact ⟨(mem_encoded hc).1.le, (mem_encoded hc).2.1⟩
  · have hquote : '"' ∉ fallback yearDigits session format := fun hc => absurd (hplain _ hc) (by decide)
    have heq : contentDisposition yearDigits session format = _ := (intercalate_parts _ _).symm
    rw [heq, readDisposition_parts (fun hc => (hascii _ hc).2.2 rfl) hquote fun hc => (mem_encoded hc).2.2 rfl,
      PercentTexts.unquote_quote, Option.map_some]

/-- Ranks tell the order the rows were created in, whatever order they were loaded in. -/
theorem ranked_eq (hsound : db.Sound) (hloaded : session.bulletHoles.Perm (db.current sessionId)) :
    ranked session = db.current sessionId := by
  have hranks : ((db.current sessionId).map BulletHole.rank).Pairwise (· < ·) := by
    rw [hsound.ranked sessionId]
    exact List.pairwise_lt_range'
  have hordered : (db.current sessionId).Pairwise fun a b => (a.rank ≤ b.rank : Bool) :=
    (List.pairwise_map.mp hranks).imp fun h => decide_eq_true h.le
  have hperm : (ranked session).Perm (db.current sessionId) := (List.mergeSort_perm _ _).trans hloaded
  have hsorted : (ranked session).Pairwise fun a b => (a.rank ≤ b.rank : Bool) :=
    List.pairwise_mergeSort (fun a b c hab hbc => by simp at *; omega) (fun a b => by simp; omega) _
  refine hperm.eq_of_pairwise (fun a b ha hb hab hba => ?_) hsorted hordered
  have hnodup : ((db.current sessionId).map BulletHole.rank).Nodup := hranks.imp ne_of_lt
  exact List.inj_on_of_nodup_map hnodup (hperm.subset ha) hb
    (le_antisymm (of_decide_eq_true hab) (of_decide_eq_true hba))

private theorem read_generateCsv (isoformat : Instant → List Char) (repr : K → List Char) (hsound : db.Sound)
    (hloaded : session.bulletHoles.Perm (db.current sessionId)) :
    CommaSeparated.read (generateCsv isoformat repr session) =
      headers :: (db.current sessionId).map (row isoformat repr) := by
  rw [generateCsv, CommaSeparated.read_write, ranked_eq hsound hloaded]

/-- After any requests, and in whatever order the rows are loaded: a Session that is there and not active has the CSV
that reads back as the headings and a line for each Bullet Hole it still has, in the order they were created in,
numbered from 1. -/
theorem csv_reads_back [DecidableEq Key] (status : Uuid → Option SessionStatus)
    (requests : List (Request Key (Seen Instant K))) (yearDigits : ℕ) (isoformat : Instant → List Char)
    (repr : K → List Char) {sessionId : Uuid} {loaded : Option (Session Key Instant K)}
    (hloaded : Loads ((Database.unused status).run requests) sessionId loaded) :
    let db := (Database.unused status).run requests
    match db.status sessionId with
    | none => exportCsv yearDigits isoformat repr loaded = .error ⟨404, "Session not found"⟩
    | some .active => exportCsv yearDigits isoformat repr loaded =
        .error ⟨409, "Session is still active; close it before exporting"⟩
    | some .completed => ∃ response, exportCsv yearDigits isoformat repr loaded = .ok response ∧
        CommaSeparated.read response.content = headers :: (db.current sessionId).map (row isoformat repr) ∧
        (CommaSeparated.read response.content).tail.map List.head? =
          (List.range' 1 (db.countActive sessionId)).map fun rank => some (Nat.toDigits 10 rank) := by
  intro db
  have hsound : db.Sound := sound_run (sound_unused status) requests
  cases loaded with
  | none =>
    have hnone : db.status sessionId = none := hloaded
    rw [hnone]
    rfl
  | some session =>
    obtain ⟨hstatus, hperm⟩ := hloaded
    change db.status sessionId = some session.status at hstatus
    rw [hstatus]
    cases hactive : session.status with
    | active =>
      have hrefused : requireCompleted (some session) =
          .error ⟨409, "Session is still active; close it before exporting"⟩ := if_pos hactive
      simp only [exportCsv, hrefused]
      rfl
    | completed =>
      have hcompleted : requireCompleted (some session) = .ok session := if_neg (by rw [hactive]; decide)
      have hread := read_generateCsv isoformat repr hsound hperm
      refine ⟨_, by rw [exportCsv, hcompleted]; rfl, hread, ?_⟩
      rw [hread, List.tail_cons, ← hsound.ranked sessionId, List.map_map, List.map_map]
      rfl

end

/-- Two holes of three, loaded latest first. -/
theorem csv_reads_back_twoHoles : let body : ℕ → BulletCreate ℕ (Seen ℕ ℕ) := fun x => ⟨.model, none, ⟨7, x, 3⟩⟩
    let requests := [.create 10 1 (body 4), .create 11 1 (body 5), .create 12 1 (body 6), .delete 1 11 9,
      .session 1 (some .completed)]
    let hole : ℕ → ℕ → ℕ → BulletHole ℕ (Seen ℕ ℕ) := fun id x rank => ⟨id, 1, ⟨7, x, 3⟩, .model, none, rank, none⟩
    let db := (Database.unused fun _ => some .active).run requests
    let startedAt : DateTime := ⟨⟨2026, 9, 14, by decide, by decide, by decide, by decide, by decide⟩, 10, 0, 0, 0,
      by decide, by decide, by decide, by decide, by decide⟩
    let session : Session ℕ ℕ ℕ := ⟨"A".toList, startedAt, .completed, [hole 12 6 2, hole 10 4 1]⟩
    ∃ response, exportCsv 4 (Nat.toDigits 10) (Nat.toDigits 10) (some session) = .ok response ∧
        CommaSeparated.read response.content =
          headers :: (db.current 1).map (row (Nat.toDigits 10) (Nat.toDigits 10)) ∧
        (CommaSeparated.read response.content).tail.map List.head? =
          (List.range' 1 (db.countActive 1)).map fun rank => some (Nat.toDigits 10 rank) := by
  intro body requests hole db startedAt session
  have hrows : db.current 1 = [hole 10 4 1, hole 12 6 2] := by decide
  have hloaded : Loads db 1 (some session) := ⟨rfl, by rw [hrows]; exact List.Perm.swap _ _ _⟩
  exact csv_reads_back (fun _ => some .active) requests 4 (Nat.toDigits 10) (Nat.toDigits 10) hloaded

end Kanat.SessionExport
