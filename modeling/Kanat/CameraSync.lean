import Kanat.MediaMTX

/-! # Keeping MediaMTX's camera paths matching the cameras table

`services/camera_sync.py`. The calls a sync makes are told by what it listed first. -/
namespace Kanat.CameraSync
open InsertionOrderDict KeyedCollections MediaMTX Recordings RemoteChanges

structure Camera where
  cameraAlias : String
  mcastIp : String
  mcastPort : ℕ
  iface : Option String
  enabled : Bool

structure Database where
  cameras : List Camera
  sessions : List Sessions.Session
  /-- `uq_cameras_alias` -/
  aliases : (cameras.map Camera.cameraAlias).Nodup

/-- Whether an active Session is recording now. -/
def Database.recordingSessionActive (db : Database) : Bool :=
  db.sessions.any fun s => s.isActive && s.recordingIntervals.any Sessions.RecordingInterval.isOpen

def recording : Config :=
  [("recordPath", .str "./recordings/%path/%Y-%m-%d_%H-%M-%S-%f"), ("recordFormat", .str "fmp4"),
    ("recordPartDuration", .str "2s"), ("recordSegmentDuration", .str "10m0s"), ("recordDeleteAfter", .str "1d")]

def recordScript : String := "./run_record.sh"

def runOnInit (camera : Camera) : String :=
  let rtspUrl := "rtsp://127.0.0.1:$\x7bRTSP_PORT\x7d/" ++ camera.cameraAlias
  let ifaceArg := match camera.iface with
    | some iface => if iface = "" then "" else " --iface \"" ++ iface ++ "\""
    | none => ""
  "bash -lc '\nexec " ++ recordScript ++ " --mcast-ip \"" ++ camera.mcastIp ++ "\" --mcast-port \"" ++
    toString camera.mcastPort ++ "\"" ++ " --rtsp-url \"" ++ rtspUrl ++ "\"" ++ ifaceArg ++ "\n" ++ "'"

def pathConfig (camera : Camera) (record : Bool) : Config :=
  [("source", .str "publisher"), ("sourceOnDemand", .bool false), ("overridePublisher", .bool true),
    ("runOnInit", .str (runOnInit camera)), ("runOnInitRestart", .bool true), ("record", .bool record)] ++ recording

/-- A disabled camera's path: nothing runs or records on it, and its recordings stay playable. -/
def playbackOnlyConfig : Config :=
  [("source", .str "publisher"), ("sourceOnDemand", .bool false), ("overridePublisher", .bool true),
    ("runOnInit", .str ""), ("runOnInitRestart", .bool false), ("record", .bool false)] ++ recording

/-- `all(config.get(key) == value for key, value in wanted.items())` -/
def agrees (config wanted : Config) : Bool := wanted.all fun field => config.get field.1 = some field.2

/-- `_RECORD_SCRIPT in (config.get("runOnInit") or "")`, a field MediaMTX only ever gives a string. -/
def runsScript (config : Config) : Bool :=
  match config.get "runOnInit" with
  | some (.str command) => recordScript.toList <:+: command.toList
  | _ => false

/-- Whether a path is one of the cameras', which the sync may patch and delete. -/
def isCameraPath (name : String) (config : Config) (configPaths : Option ConfigPaths) : Bool :=
  if runsScript config then
    match configPaths with
    | none => true
    | some c => !c.defines name
  else
    match configPaths with
    | none => false
    | some c => if c.defines name then false else agrees config playbackOnlyConfig

def Camera.wanted (camera : Camera) (record : Bool) : Config :=
  if camera.enabled then pathConfig camera record else playbackOnlyConfig

/-- The paths wanted, by name. -/
def Database.wanted (db : Database) : Dict String Config :=
  let record := db.recordingSessionActive
  db.cameras.foldl (fun wanted camera => wanted.put camera.cameraAlias (camera.wanted record)) []

/-- What a sync that found `current` calls for a wanted path. -/
def apply (current : Dict String Config) (configPaths : ConfigPaths) (entry : String × Config) : Option Call :=
  let (name, config) := entry
  let existing := current.get name
  if configPaths.defines name || existing.any fun existing => !isCameraPath name existing (some configPaths) then none
  else match existing with
    | none => some (.add name config)
    | some existing =>
      let changed := config.filter fun field => existing.get field.1 ≠ some field.2
      if changed = [] then none else some (.patch name changed)

/-- And for a path that is there. -/
def remove (wanted : Dict String Config) (configPaths : ConfigPaths) (entry : String × Config) : Option Call :=
  let (name, existing) := entry
  if (wanted.get name).isNone && isCameraPath name existing (some configPaths) then some (.delete name) else none

def changes (current : Dict String Config) (configPaths : ConfigPaths) (wanted : Dict String Config) : List Call :=
  wanted.filterMap (apply current configPaths) ++ current.filterMap (remove wanted configPaths)

/-- The listing is answered first. Nothing is changed while `mediamtx.yml` is unknown. -/
def sync (defaults : Config) (configPaths : Option ConfigPaths) (db : Database) (m : Paths) (answers : List Answer) :
    Run Paths Call :=
  match answers.headD .made with
  | .made =>
    let current := listPathConfigs m
    match configPaths with
    | none => ⟨m, [], true⟩
    | some c => perform (server defaults) m (changes current c db.wanted) answers.tail
  | _ => ⟨m, [], false⟩

variable {camera : Camera} {record : Bool} {name : String} {config existing wanted : Config} {c : ConfigPaths}

theorem agrees_iff : agrees config wanted = true ↔ ∀ field ∈ wanted, config.get field.1 = some field.2 := by
  rw [agrees, List.all_eq_true]
  exact forall₂_congr fun field _ => decide_eq_true_iff

/-- Every camera's configuration sets the same fields, each once. -/
theorem keys_wanted (camera : Camera) (record : Bool) : (camera.wanted record).keys = playbackOnlyConfig.keys := by
  rw [Camera.wanted]
  split <;> rfl

theorem nodup_wanted (camera : Camera) (record : Bool) : (camera.wanted record).keys.Nodup := by
  rw [keys_wanted]
  decide

theorem agrees_update (h : wanted.keys.Nodup) (config : Config) : agrees (update config wanted) wanted = true := by
  refine agrees_iff.mpr fun field hf => ?_
  rw [get_update h, Dict.get_of_mem h hf, Option.some_or]

/-- Patching the fields that differ leaves none that does. -/
theorem agrees_changed (h : wanted.keys.Nodup) (existing : Config) :
    agrees (update existing (wanted.filter fun field => existing.get field.1 ≠ some field.2)) wanted = true := by
  have hn : (Dict.keys (wanted.filter fun field => existing.get field.1 ≠ some field.2)).Nodup :=
    h.sublist (List.filter_sublist.map _)
  refine agrees_iff.mpr fun field hf => ?_
  rw [get_update hn]
  by_cases he : existing.get field.1 = some field.2
  · have hnone : Dict.get (wanted.filter fun field => existing.get field.1 ≠ some field.2) field.1 = none := by
      refine Dict.get_eq_none.mpr fun hk => ?_
      obtain ⟨field', hm, hk⟩ := List.mem_map.mp hk
      obtain ⟨hw, hd⟩ := List.mem_filter.mp hm
      have hsome := Dict.get_of_mem h (show (field.1, field'.2) ∈ wanted from hk ▸ hw)
      rw [Dict.get_of_mem h hf] at hsome
      rw [hk, he, hsome] at hd
      simp at hd
    rw [hnone, he, Option.none_or]
  · rw [Dict.get_of_mem hn (List.mem_filter.mpr ⟨hf, decide_eq_true he⟩), Option.some_or]

private theorem within_append {p s t : String} (h : p.toList <:+: s.toList) : p.toList <:+: (s ++ t).toList := by
  rw [String.toList_append]
  exact h.trans (List.prefix_append _ _).isInfix

private theorem script_after (pre : String) : recordScript.toList <:+: (pre ++ recordScript).toList := by
  rw [String.toList_append]
  exact (List.suffix_append _ _).isInfix

theorem script_within (camera : Camera) : recordScript.toList <:+: (runOnInit camera).toList := by
  unfold runOnInit
  -- eleven pieces follow the script's name
  iterate 11 apply within_append
  exact script_after _

/-- A path that has what a camera wants is a camera's. -/
theorem isCameraPath_of_agrees (hc : c.defines name = false) (h : agrees config (camera.wanted record) = true) :
    isCameraPath name config (some c) = true := by
  rw [agrees_iff] at h
  cases he : camera.enabled with
  | true =>
    have hr : config.get "runOnInit" = some (.str (runOnInit camera)) :=
      h ("runOnInit", .str (runOnInit camera)) (by simp [Camera.wanted, he, pathConfig])
    have hs : runsScript config = true := by
      simp only [runsScript, hr]
      exact decide_eq_true (script_within camera)
    rw [isCameraPath, if_pos hs]
    simp [hc]
  | false =>
    have hw : camera.wanted record = playbackOnlyConfig := by rw [Camera.wanted, he]; rfl
    rw [hw] at h
    have hr : config.get "runOnInit" = some (.str "") := h ("runOnInit", .str "") (by simp [playbackOnlyConfig])
    have hs : runsScript config = false := by
      simp only [runsScript, hr]
      decide
    rw [isCameraPath, hs]
    simp [hc, agrees_iff.mpr h]

/-- `mediamtx.yml` defines none of the paths the sync may touch. -/
theorem defines_of_isCameraPath (h : isCameraPath name config (some c) = true) : c.defines name = false := by
  rw [isCameraPath] at h
  cases hd : c.defines name with
  | false => rfl
  | true => simp [hd] at h

end Kanat.CameraSync
