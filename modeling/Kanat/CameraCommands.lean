import Kanat.AcceptedCameras
import Kanat.ShellWords

/-! # The command of a camera

`path_config` of `services/camera_sync.py`, and what `run_record.sh` is started with. What MediaMTX does with the
command is taken as given: it puts in its RTSP port, and splits the command into words. -/
namespace Kanat.CameraCommands
open AcceptedCameras CameraSync PlainTexts ShellWords

/-- The variables `run_record.sh` sets from its arguments. -/
structure Arguments where
  iface : String
  mcastIp : String
  mcastPort : String
  rtspUrl : String
  deriving DecidableEq

inductive Ending where
  | parsed (arguments : Arguments)
  | help
  | missingValue (option : String)
  | unknown (word : String)
  deriving DecidableEq

/-- What an option with a value sets. -/
def setterOf (word : String) : Option (String → Arguments → Arguments) :=
  if word = "--iface" then some fun value a => { a with iface := value }
  else if word = "--mcast-ip" then some fun value a => { a with mcastIp := value }
  else if word = "--mcast-port" then some fun value a => { a with mcastPort := value }
  else if word = "--rtsp-url" then some fun value a => { a with rtspUrl := value }
  else none

/-- An argument that is no option with a value. -/
def endingOf (word : String) : Ending := if word = "-h" ∨ word = "--help" then .help else .unknown word

/-- The `while` loop: the words it took for options, and how it ended. -/
def argumentLoop (a : Arguments) : List String → List String × Ending
  | [] => ([], .parsed a)
  | [word] =>
    match setterOf word with
    | some _ => ([word], .missingValue word)
    | none => ([word], endingOf word)
  | word :: value :: rest =>
    match setterOf word with
    | some set =>
      -- an empty value is a missing one to `${2:?}`
      if value = "" then ([word], .missingValue word)
      else
        let (options, ending) := argumentLoop (set value a) rest
        (word :: options, ending)
    | none => ([word], endingOf word)

def unset : Arguments := ⟨"", "", "", ""⟩

/-- Options with their values, each of them known and given one, are all taken. -/
theorem argumentLoop_options (given : List (String × String)) (a : Arguments)
    (h : ∀ o ∈ given, (setterOf o.1).isSome ∧ o.2 ≠ "") :
    argumentLoop a (given.flatMap fun o => [o.1, o.2]) =
      (given.map Prod.fst, .parsed (given.foldl (fun a o => ((setterOf o.1).getD fun _ a => a) o.2 a) a)) := by
  induction given generalizing a with
  | nil => rfl
  | cons o given ih =>
    obtain ⟨⟨hs, hv⟩, hg⟩ := List.forall_mem_cons.mp h
    obtain ⟨set, hs⟩ := Option.isSome_iff_exists.mp hs
    simp only [List.flatMap_cons, List.cons_append, List.nil_append, argumentLoop, hs, if_neg hv, ih _ hg,
      List.map_cons, List.foldl_cons, Option.getD_some]

variable {camera : CameraInput} {c : Char}

/-- The options of a camera's command, with their values. -/
def options (camera : Camera) (url : String) : List (String × String) :=
  [("--mcast-ip", camera.mcastIp), ("--mcast-port", toString camera.mcastPort), ("--rtsp-url", url)] ++
    (camera.iface.map fun iface => ("--iface", iface)).toList

def url (rtspPort : ℕ) (camera : Camera) : String := "rtsp://127.0.0.1:" ++ toString rtspPort ++ "/" ++ camera.cameraAlias

/-- A value between double quotes. -/
def quoted (value : List Char) : List Char := '"' :: (value ++ ['"'])

/-- The command's line, each word as it is written. -/
def writtenWords (camera : Camera) (url : String) : List (List Char × List Char) :=
  [("exec".toList, "exec".toList), (recordScript.toList, recordScript.toList)] ++
    (options camera url).flatMap fun o => [(o.1.toList, o.1.toList), (quoted o.2.toList, o.2.toList)]

/-- And the script of the command, its RTSP port put in. -/
def scriptOf (camera : Camera) (url : String) : String :=
  "\n" ++ String.ofList ([' '].intercalate ((writtenWords camera url).map Prod.fst)) ++ "\n"

/-- The command up to MediaMTX's RTSP port, and from there on. -/
def beforePort (camera : Camera) : String :=
  "bash -lc '\nexec " ++ recordScript ++ " --mcast-ip \"" ++ camera.mcastIp ++ "\" --mcast-port \"" ++
    toString camera.mcastPort ++ "\"" ++ " --rtsp-url \"" ++ "rtsp://127.0.0.1:"

def afterPort (camera : Camera) : String :=
  "/" ++ camera.cameraAlias ++ "\"" ++
    (match camera.iface with
    | some iface => " --iface \"" ++ iface ++ "\""
    | none => "") ++ "\n" ++ "'"

private theorem runOnInit_eq (camera : Camera) (hi : ∀ i ∈ camera.iface, i ≠ "") :
    runOnInit camera = beforePort camera ++ "$\x7bRTSP_PORT\x7d" ++ afterPort camera := by
  have hurl : "rtsp://127.0.0.1:$\x7bRTSP_PORT\x7d/" = "rtsp://127.0.0.1:" ++ ("$\x7bRTSP_PORT\x7d" ++ "/") := by
    decide
  unfold runOnInit beforePort afterPort
  rw [hurl]
  cases h : camera.iface with
  | none => simp only [String.append_assoc]
  | some iface =>
    have hne : iface ≠ "" := hi iface (by rw [h]; rfl)
    simp only [if_neg hne, String.append_assoc]

private theorem command_eq (camera : Camera) (rtspPort : ℕ) :
    beforePort camera ++ toString rtspPort ++ afterPort camera =
      "bash -lc '" ++ scriptOf camera (url rtspPort camera) ++ "'" := by
  have h₁ : "bash -lc '\nexec " = "bash -lc '" ++ ("\n" ++ ("exec" ++ " ")) := by decide
  have h₂ : " --mcast-ip \"" = " " ++ ("--mcast-ip" ++ (" " ++ "\"")) := by decide
  have h₃ : "\" --mcast-port \"" = "\"" ++ (" " ++ ("--mcast-port" ++ (" " ++ "\""))) := by decide
  have h₄ : " --rtsp-url \"" = " " ++ ("--rtsp-url" ++ (" " ++ "\"")) := by decide
  have h₅ : " --iface \"" = " " ++ ("--iface" ++ (" " ++ "\"")) := by decide
  have hs : " ".toList = [' '] := by decide
  have hq : "\"".toList = ['"'] := by decide
  have he : "".toList = [] := by decide
  rw [← String.toList_inj]
  unfold beforePort afterPort scriptOf url writtenWords options
  rw [h₁, h₂, h₃, h₄, h₅]
  cases camera.iface <;>
    simp only [quoted, List.intercalate, String.toList_append, hs, hq, he, String.toList_ofList, Option.map_none,
      Option.map_some, Option.toList_none, Option.toList_some, List.append_nil, List.flatMap_cons, List.flatMap_nil,
      List.cons_append, List.nil_append, List.map_cons, List.map_nil, List.intersperse_cons_cons,
      List.intersperse_singleton, List.flatten_cons, List.flatten_nil, List.append_assoc]

variable {camera : CameraInput} {rtspPort : ℕ} {c : Char} {o : String × String}

def safeChar (c : Char) : Bool := ifaceChar c || c == '/'

theorem ne_of_safeChar (h : safeChar c) {d : Char} (hd : safeChar d = false) : c ≠ d := by
  rintro rfl
  rw [hd] at h
  cases h

theorem safeChar_of_ifaceChar (h : ifaceChar c) : safeChar c := by rw [safeChar, h, Bool.true_or]

theorem safeChar_toDigits (n : ℕ) : ∀ c ∈ Nat.toDigits 10 n, safeChar c := fun c hc => by
  simp [safeChar, ifaceChar, Char.isAlphanum, digits_toDigits n c hc]

theorem toList_toString (n : ℕ) : (toString n).toList = Nat.toDigits 10 n := by
  rw [Nat.toString_eq_ofList_toDigits, String.toList_ofList]

theorem url_safe (camera : CameraInput) (rtspPort : ℕ) : (url rtspPort (save camera)).toList ≠ [] ∧
    ∀ c ∈ (url rtspPort (save camera)).toList, safeChar c := by
  have hc : ∀ c ∈ "rtsp://127.0.0.1:".toList, safeChar c := List.all_eq_true.mp (by decide)
  have hsep : ∀ c ∈ "/".toList, safeChar c := List.all_eq_true.mp (by decide)
  have ha : ∀ c ∈ (save camera).cameraAlias.toList, ifaceChar c := forall_of_aliasPattern camera.alias_matches
  unfold url
  simp only [String.toList_append, toList_toString]
  refine ⟨fun h => ?_, fun c hm => ?_⟩
  · exact Nat.toDigits_ne_nil (List.append_eq_nil_iff.mp (List.append_eq_nil_iff.mp (List.append_eq_nil_iff.mp h).1).1).2
  · rw [List.mem_append, List.mem_append, List.mem_append] at hm
    rcases hm with ((hm | hm) | hm) | hm
    · exact hc c hm
    · exact safeChar_toDigits _ c hm
    · exact hsep c hm
    · exact safeChar_of_ifaceChar (ha c hm)

/-- Each option has a value, of characters no reader gives a meaning to between double quotes. -/
theorem options_safe (h : o ∈ options (save camera) (url rtspPort (save camera))) :
    o.1 ∈ ["--mcast-ip", "--mcast-port", "--rtsp-url", "--iface"] ∧ o.2.toList ≠ [] ∧ ∀ c ∈ o.2.toList, safeChar c := by
  rw [options, List.mem_append] at h
  rcases h with h | h
  · simp only [List.mem_cons, List.not_mem_nil, or_false] at h
    rcases h with rfl | rfl | rfl
    · refine ⟨by simp, ?_, fun c hc => safeChar_of_ifaceChar (forall_str camera.mcastIp c hc)⟩
      change camera.mcastIp.str.toList ≠ []
      simp [IPv4Address.toList_str, List.intercalate, List.ofFn_succ]
    · simp only [toList_toString]
      exact ⟨by simp, Nat.toDigits_ne_nil, safeChar_toDigits _⟩
    · exact ⟨by simp, (url_safe camera rtspPort).1, (url_safe camera rtspPort).2⟩
  · obtain ⟨iface, hi, rfl⟩ : ∃ iface ∈ camera.iface, ("--iface", iface) = o := by
      simpa [save] using h
    obtain ⟨hne, hc⟩ := forall_of_ifacePattern (camera.iface_matches iface hi)
    exact ⟨by simp, hne, fun c hm => safeChar_of_ifaceChar (hc c hm)⟩

private theorem verbatim_of_safeChar (h : safeChar c) : c ≠ '"' ∧ bash.verbatim c = true := by
  refine ⟨ne_of_safeChar h (by decide), ?_⟩
  have hm : c ∉ "$`\\!".toList := fun hm => by
    have hu : ∀ d ∈ "$`\\!".toList, (!safeChar d) = true := List.all_eq_true.mp (by decide)
    exact ne_of_safeChar h (Bool.not_eq_true' _ ▸ hu c hm) rfl
  simpa [bash] using hm

theorem bare_of_name {name : String} (h : name ∈ ["--mcast-ip", "--mcast-port", "--rtsp-url", "--iface"]) :
    name.toList ≠ [] ∧ ∀ c ∈ name.toList, safeChar c := by
  simp only [List.mem_cons, List.not_mem_nil, or_false] at h
  rcases h with rfl | rfl | rfl | rfl <;> exact ⟨by decide, List.all_eq_true.mp (by decide)⟩

private theorem bare_of_safeChar (h : safeChar c) : Bare bash c := by
  refine ⟨?_, ne_of_safeChar h (by decide), ne_of_safeChar h (by decide), ?_⟩
  · have h₁ := ne_of_safeChar h (d := ' ') (by decide)
    have h₂ := ne_of_safeChar h (d := '\t') (by decide)
    simp [bash, h₁, h₂]
  · simp only [safeChar, ifaceChar, Bool.or_eq_true, beq_iff_eq] at h
    rcases h with ((((h | rfl) | rfl) | rfl) | rfl) | rfl
    · simp [bash, h]
    all_goals decide

/-- Each word of the line is read as its value, and no quote or line end is among what it is written with. -/
theorem writtenWords_read {p : List Char × List Char}
    (h : p ∈ writtenWords (save camera) (url rtspPort (save camera))) :
    Stands bash p.1 p.2 ∧ ∀ c ∈ p.1, c ≠ '\'' ∧ c ≠ '\n' := by
  have hbare : ∀ w : List Char, w ≠ [] → (∀ c ∈ w, safeChar c) →
      Stands bash w w ∧ ∀ c ∈ w, c ≠ '\'' ∧ c ≠ '\n' := fun w hne hw =>
    ⟨stands_bare hne fun c hc => bare_of_safeChar (hw c hc),
      fun c hc => ⟨ne_of_safeChar (hw c hc) (by decide), ne_of_safeChar (hw c hc) (by decide)⟩⟩
  rw [writtenWords, List.mem_append] at h
  rcases h with h | h
  · simp only [List.mem_cons, List.not_mem_nil, or_false] at h
    rcases h with rfl | rfl
    · exact hbare _ (by decide) (List.all_eq_true.mp (by decide))
    · exact hbare _ (by decide) (List.all_eq_true.mp (by decide))
  · obtain ⟨o, ho, hp⟩ := List.mem_flatMap.mp h
    obtain ⟨hname, -, hval⟩ := options_safe ho
    simp only [List.mem_cons, List.not_mem_nil, or_false] at hp
    rcases hp with rfl | rfl
    · exact hbare _ (bare_of_name hname).1 (bare_of_name hname).2
    · refine ⟨stands_double fun c hc => verbatim_of_safeChar (hval c hc), fun c hc => ?_⟩
      simp only [quoted, List.mem_cons, List.mem_append, List.not_mem_nil, or_false] at hc
      rcases hc with rfl | hc | rfl
      · decide
      · exact ⟨ne_of_safeChar (hval c hc) (by decide), ne_of_safeChar (hval c hc) (by decide)⟩
      · decide

/-- The characters of the command's line. -/
theorem mem_line
    (h : c ∈ [' '].intercalate ((writtenWords (save camera) (url rtspPort (save camera))).map Prod.fst)) :
    c ≠ '\'' ∧ c ≠ '\n' := by
  rcases mem_intercalate h with rfl | ⟨l, hl, hc⟩
  · decide
  · obtain ⟨p, hp, rfl⟩ := List.mem_map.mp hl
    exact (writtenWords_read hp).2 c hc

theorem toList_scriptOf (camera : Camera) (url : String) : (scriptOf camera url).toList =
    '\n' :: ([' '].intercalate ((writtenWords camera url).map Prod.fst) ++ ['\n']) := by
  have hn : "\n".toList = ['\n'] := by decide
  unfold scriptOf
  simp only [String.toList_append, String.toList_ofList, hn, List.cons_append, List.nil_append]

/-- Split as `/bin/sh` splits it, the command is bash's with one script. -/
theorem words_command (camera : CameraInput) (rtspPort : ℕ) :
    words quoting ("bash -lc '" ++ scriptOf (save camera) (url rtspPort (save camera)) ++ "'") =
      some ["bash", "-lc", scriptOf (save camera) (url rtspPort (save camera))] := by
  generalize hscript : scriptOf (save camera) (url rtspPort (save camera)) = script
  have hq : ∀ c ∈ script.toList, c ≠ '\'' := by
    rw [← hscript, toList_scriptOf]
    intro c hc
    rcases List.mem_cons.mp hc with rfl | hc
    · decide
    · rcases List.mem_append.mp hc with hc | hc
      · exact (mem_line hc).1
      · rw [List.mem_singleton.mp hc]
        decide
  have hbare : ∀ w ∈ ["bash".toList, "-lc".toList], w ≠ [] ∧ ∀ c ∈ w, Bare quoting c := by
    have hplain : ["bash".toList, "-lc".toList].all (fun w => w ≠ [] ∧
        w.all fun c => quoting.separator c = false ∧ c ≠ '\'' ∧ c ≠ '"' ∧ quoting.plain c = true) = true := by
      decide
    simpa [Bare] using hplain
  have hread := wordsFrom_intercalate (d := quoting) (c := ' ') rfl
    [("bash".toList, "bash".toList), ("-lc".toList, "-lc".toList),
      ('\'' :: (script.toList ++ ['\'']), script.toList)] fun p hp => by
    simp only [List.mem_cons, List.not_mem_nil, or_false] at hp
    rcases hp with rfl | rfl | rfl
    · exact stands_bare (hbare _ (by simp)).1 (hbare _ (by simp)).2
    · exact stands_bare (hbare _ (by simp)).1 (hbare _ (by simp)).2
    · exact stands_single hq
  have ht : ("bash -lc '" ++ script ++ "'").toList =
      [' '].intercalate ["bash".toList, "-lc".toList, '\'' :: (script.toList ++ ['\''])] := by
    have h₁ : "bash -lc '".toList = "bash".toList ++ ' ' :: ("-lc".toList ++ [' ', '\'']) := by decide
    have h₂ : "'".toList = ['\''] := by decide
    simp only [String.toList_append, h₁, h₂, List.intercalate, List.intersperse_cons_cons,
      List.intersperse_singleton, List.flatten_cons, List.flatten_nil, List.append_assoc, List.cons_append,
      List.nil_append, List.append_nil]
  rw [words_of_wordsFrom (by rw [ht]; exact hread)]
  simp only [List.map_cons, List.map_nil, String.ofList_toList]

def argsOf (camera : Camera) (url : String) : List String := (options camera url).flatMap fun o => [o.1, o.2]

private theorem commands_script (camera : CameraInput) (rtspPort : ℕ) :
    commands (scriptOf (save camera) (url rtspPort (save camera))) =
      some ["exec" :: recordScript :: argsOf (save camera) (url rtspPort (save camera))] := by
  set link := url rtspPort (save camera) with hlink
  have hread := wordsFrom_intercalate (d := bash) (c := ' ') rfl (writtenWords (save camera) link)
    fun p hp => (writtenWords_read hp).1
  have hvalues : ((writtenWords (save camera) link).map Prod.snd).map String.ofList =
      "exec" :: recordScript :: argsOf (save camera) link := by
    rw [writtenWords, argsOf]
    simp only [List.map_cons, List.map_nil, List.map_flatMap, String.ofList_toList,
      List.cons_append, List.nil_append]
  refine commands_line (toList_scriptOf _ _) (fun hm => (mem_line hm).2 rfl) ?_ (by simp) ?_
  · rw [words_of_wordsFrom (by rw [String.toList_ofList]; exact hread), hvalues]
  · change "exec" ∉ reserved
    decide

/-- The options a camera's command gives. -/
def optionNames (camera : CameraInput) : List String :=
  ["--mcast-ip", "--mcast-port", "--rtsp-url"] ++ if camera.iface.isSome then ["--iface"] else []

private theorem argumentLoop_argsOf (camera : CameraInput) (rtspPort : ℕ) :
    argumentLoop unset (argsOf (save camera) (url rtspPort (save camera))) =
      (optionNames camera, .parsed ⟨camera.iface.getD "", camera.mcastIp.str, toString camera.mcastPort,
        url rtspPort (save camera)⟩) := by
  have hset : ∀ name ∈ ["--mcast-ip", "--mcast-port", "--rtsp-url", "--iface"], (setterOf name).isSome := by decide
  rw [argsOf, argumentLoop_options _ _ fun o ho => ?_]
  · cases h : camera.iface <;> simp [options, optionNames, save, h, setterOf, unset]
  · obtain ⟨hname, hne, -⟩ := options_safe ho
    exact ⟨hset _ hname, fun he => hne (by rw [he]; decide)⟩

private theorem dollar_notMem (camera : CameraInput) :
    '$' ∉ (beforePort (save camera)).toList ∧ '$' ∉ (afterPort (save camera)).toList := by
  have hip : '$' ∉ (save camera).mcastIp.toList := fun hm =>
    ne_of_safeChar (safeChar_of_ifaceChar (forall_str camera.mcastIp _ hm)) (by decide) rfl
  have hport : '$' ∉ (toString (save camera).mcastPort).toList := fun hm =>
    ne_of_safeChar (safeChar_toDigits _ _ (toList_toString _ ▸ hm)) (by decide) rfl
  have halias : '$' ∉ (save camera).cameraAlias.toList := fun hm =>
    ne_of_safeChar (safeChar_of_ifaceChar (forall_of_aliasPattern camera.alias_matches _ hm)) (by decide) rfl
  have hiface : ∀ i ∈ (save camera).iface, '$' ∉ i.toList := fun i hi hm =>
    ne_of_safeChar (safeChar_of_ifaceChar ((forall_of_ifacePattern (camera.iface_matches i hi)).2 _ hm)) (by decide) rfl
  have hbefore : '$' ∉ "bash -lc '\nexec ".toList ∧ '$' ∉ recordScript.toList ∧ '$' ∉ " --mcast-ip \"".toList ∧
      '$' ∉ "\" --mcast-port \"".toList ∧ '$' ∉ "\"".toList ∧ '$' ∉ " --rtsp-url \"".toList ∧
      '$' ∉ "rtsp://127.0.0.1:".toList :=
    ⟨by decide, by decide, by decide, by decide, by decide, by decide, by decide⟩
  have hafter : '$' ∉ "/".toList ∧ '$' ∉ "\"".toList ∧ '$' ∉ " --iface \"".toList ∧ '$' ∉ "".toList ∧
      '$' ∉ "\n".toList ∧ '$' ∉ "'".toList := by decide
  unfold beforePort afterPort
  cases h : (save camera).iface with
  | none =>
    simp only [String.toList_append, List.mem_append, not_or, hip, hport, halias, hbefore, hafter, not_false_eq_true,
      and_self]
  | some i =>
    simp only [String.toList_append, List.mem_append, not_or, hip, hport, halias, hbefore, hafter,
      hiface i (by rw [h]; rfl), not_false_eq_true, and_self]

/-- Every accepted camera's command starts `run_record.sh` and nothing else, with its values as they are; and its path
is known for a camera's, unless `mediamtx.yml` defines one of its name. -/
theorem runs_record_script (camera : CameraInput) (record : Bool) (rtspPort : ℕ) {expand : String → String}
    {split : String → Option (List String)}
    (hexpand : ∀ pre post : String, '$' ∉ pre.toList → '$' ∉ post.toList →
      expand (pre ++ "$\x7bRTSP_PORT\x7d" ++ post) = pre ++ toString rtspPort ++ post)
    (hsplit : ∀ text l, words quoting text = some l → split text = some l) :
    ∃ command script line args, (pathConfig (save camera) record).get "runOnInit" = some (.str command) ∧
      split (expand command) = some ["bash", "-lc", script] ∧
      commands script = some [line] ∧ programs [line] = [recordScript :: args] ∧
      argumentLoop unset args = (optionNames camera, .parsed ⟨camera.iface.getD "", camera.mcastIp.str,
        toString camera.mcastPort, "rtsp://127.0.0.1:" ++ toString rtspPort ++ "/" ++ camera.cameraAlias⟩) ∧
      (∀ configPaths : Option Recordings.ConfigPaths, (∀ c ∈ configPaths, c.defines camera.cameraAlias = false) →
        ∀ config, agrees config (pathConfig (save camera) record) →
          isCameraPath camera.cameraAlias config configPaths) ∧
      ∀ c : Recordings.ConfigPaths, c.defines camera.cameraAlias = false →
        ∀ config, agrees config ((save camera).wanted record) → isCameraPath camera.cameraAlias config (some c) := by
  have hcommand : expand (runOnInit (save camera)) =
      "bash -lc '" ++ scriptOf (save camera) (url rtspPort (save camera)) ++ "'" := by
    have hi : ∀ i ∈ (save camera).iface, i ≠ "" := fun i hi he =>
      (forall_of_ifacePattern (camera.iface_matches i hi)).1 (by rw [he]; decide)
    obtain ⟨hb, ha⟩ := dollar_notMem camera
    rw [runOnInit_eq _ hi, hexpand _ _ hb ha, command_eq]
  refine ⟨runOnInit (save camera), scriptOf (save camera) (url rtspPort (save camera)), _,
    argsOf (save camera) (url rtspPort (save camera)), rfl, ?_, commands_script camera rtspPort, rfl,
    argumentLoop_argsOf camera rtspPort, fun configPaths hc config ha => ?_,
    fun c hc config ha => isCameraPath_of_agrees hc ha⟩
  · rw [hcommand]
    exact hsplit _ _ (words_command camera rtspPort)
  · have hr : config.get "runOnInit" = some (.str (runOnInit (save camera))) :=
      agrees_iff.mp ha ("runOnInit", .str (runOnInit (save camera))) (by simp [pathConfig])
    have hs : runsScript config = true := by
      simp only [runsScript, hr]
      exact decide_eq_true (script_within _)
    unfold isCameraPath
    rw [if_pos hs]
    cases configPaths with
    | none => rfl
    | some c => simp [hc c rfl]

/-- The port put in at the first variable, if that is its name. -/
def putPort (rtspPort : ℕ) (text : String) : String :=
  let rest := text.toList.dropWhile (· ≠ '$')
  let name := "$\x7bRTSP_PORT\x7d".toList
  if name <+: rest then
    String.ofList (text.toList.takeWhile (· ≠ '$')) ++ toString rtspPort ++ String.ofList (rest.drop name.length)
  else text

private theorem putPort_append (rtspPort : ℕ) (pre post : String) (hpre : '$' ∉ pre.toList) :
    putPort rtspPort (pre ++ "$\x7bRTSP_PORT\x7d" ++ post) = pre ++ toString rtspPort ++ post := by
  have hall : ∀ c ∈ pre.toList, (decide (c ≠ '$')) = true := fun c hc =>
    decide_eq_true fun he => hpre (he ▸ hc)
  have hname : "$\x7bRTSP_PORT\x7d".toList = '$' :: "\x7bRTSP_PORT\x7d".toList := by decide
  have hdrop : (pre ++ "$\x7bRTSP_PORT\x7d" ++ post).toList.dropWhile (· ≠ '$') =
      "$\x7bRTSP_PORT\x7d".toList ++ post.toList := by
    simp only [String.toList_append, List.append_assoc]
    rw [List.dropWhile_append_of_pos hall, hname, List.cons_append, List.dropWhile_cons_of_neg (by simp)]
  have htake : (pre ++ "$\x7bRTSP_PORT\x7d" ++ post).toList.takeWhile (· ≠ '$') = pre.toList := by
    simp only [String.toList_append, List.append_assoc]
    rw [List.takeWhile_append_of_pos hall, hname, List.cons_append, List.takeWhile_cons_of_neg (by simp),
      List.append_nil]
  unfold putPort
  simp only [hdrop, htake, List.prefix_append, if_true, List.drop_left, String.ofList_toList]

/-- A camera on an interface named like an option. -/
def dashed : CameraInput where
  cameraAlias := "cam-1"
  mcastIp := ⟨![239, 0, 0, 1]⟩
  mcastPort := 5004
  iface := some "--help"
  enabled := true
  alias_matches := by decide
  multicast := by decide
  port_bounds := by decide
  iface_matches := by decide

theorem runs_record_script_dashed : ∃ command script line args,
    (pathConfig (save dashed) true).get "runOnInit" = some (.str command) ∧
    words quoting (putPort 8554 command) = some ["bash", "-lc", script] ∧
    commands script = some [line] ∧ programs [line] = [recordScript :: args] ∧
    argumentLoop unset args = (["--mcast-ip", "--mcast-port", "--rtsp-url", "--iface"],
      .parsed ⟨"--help", "239.0.0.1", "5004", "rtsp://127.0.0.1:8554/cam-1"⟩) := by
  obtain ⟨command, script, line, args, hget, hsplit, hone, hexec, hloop, -⟩ := @runs_record_script dashed true 8554 (putPort 8554)
    (words quoting) (fun pre post hpre _ => putPort_append 8554 pre post hpre) fun _ _ h => h
  refine ⟨command, script, line, args, hget, hsplit, hone, hexec, hloop.trans ?_⟩
  decide

end Kanat.CameraCommands
