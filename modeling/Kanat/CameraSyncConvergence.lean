import Kanat.CameraSync

/-! # Camera sync converges

Which paths are out of the sync's reach is the same after every call, so after a sync that failed too. -/
namespace Kanat.CameraSync
open InsertionOrderDict KeyedCollections MediaMTX Recordings RemoteChanges

/-- A path there that is not one of the cameras'. -/
def Foreign (c : ConfigPaths) (m : Paths) (name : String) : Prop :=
  ∃ existing, m.get name = some existing ∧ isCameraPath name existing (some c) = false

def CameraPath (c : ConfigPaths) (m : Paths) (name : String) : Prop :=
  ∃ existing, m.get name = some existing ∧ isCameraPath name existing (some c) = true

/-- Not the sync's to change. -/
def Untouched (c : ConfigPaths) (m : Paths) (name : String) : Prop := c.defines name = true ∨ Foreign c m name

variable {c : ConfigPaths} {m m' : Paths} {db : Database} {defaults : Config} {answers : List Answer} {name : String}
  {current wanted : Dict String Config} {config : Config} {call : Call} {camera : Camera}

theorem CameraPath.reached (h : CameraPath c m name) : ¬ Untouched c m name := by
  obtain ⟨existing, hg, hp⟩ := h
  rintro (hd | ⟨existing', hg', hf⟩)
  · rw [defines_of_isCameraPath hp] at hd
    cases hd
  · rw [hg] at hg'
    cases hg'
    rw [hp] at hf
    cases hf

theorem defines_of_reached (h : ¬ Untouched c m name) : c.defines name = false := by
  cases hd : c.defines name with
  | false => rfl
  | true => exact absurd (.inl hd) h

theorem isCameraPath_of_reached {existing : Config} (h : ¬ Untouched c m name) (hg : m.get name = some existing) :
    isCameraPath name existing (some c) = true := by
  cases hp : isCameraPath name existing (some c) with
  | true => rfl
  | false => exact absurd (.inr ⟨existing, hg, hp⟩) h

theorem wanted_eq (db : Database) :
    db.wanted = db.cameras.map fun camera => (camera.cameraAlias, camera.wanted db.recordingSessionActive) := by
  obtain ⟨cameras, sessions, h⟩ := db
  simp only [Database.wanted, Database.recordingSessionActive]
  induction cameras using List.reverseRecOn with
  | nil => rfl
  | append_singleton cameras camera ih =>
    rw [List.map_append, List.nodup_append] at h
    rw [List.foldl_append, List.map_append, ih h.1, List.foldl_cons, List.foldl_nil]
    refine Dict.put_of_forall_ne fun entry he => ?_
    obtain ⟨camera', hm, rfl⟩ := List.mem_map.mp he
    exact h.2.2 _ (List.mem_map_of_mem hm) _ (List.mem_singleton_self _)

theorem nodup_keys_wanted (db : Database) : db.wanted.keys.Nodup := by
  rw [wanted_eq, Dict.keys, List.map_map]
  exact db.aliases

theorem get_wanted (h : camera ∈ db.cameras) :
    db.wanted.get camera.cameraAlias = some (camera.wanted db.recordingSessionActive) := by
  refine Dict.get_of_mem (nodup_keys_wanted db) ?_
  rw [wanted_eq]
  exact List.mem_map_of_mem h

theorem camera_of_get (h : db.wanted.get name = some config) :
    ∃ camera ∈ db.cameras, camera.cameraAlias = name ∧ config = camera.wanted db.recordingSessionActive := by
  have hm := Dict.mem_of_get h
  rw [wanted_eq] at hm
  obtain ⟨camera, hc, he⟩ := List.mem_map.mp hm
  cases he
  exact ⟨camera, hc, rfl, rfl⟩

theorem apply_eq_some (h : apply current c (name, config) = some call) :
    call.name = name ∧ c.defines name = false ∧ (∀ existing, current.get name = some existing →
      isCameraPath name existing (some c) = true) ∧
      (current.get name = none ∧ call = .add name config ∨ ∃ existing, current.get name = some existing ∧
        call = .patch name (config.filter fun field => existing.get field.1 ≠ some field.2)) := by
  simp only [apply] at h
  split at h
  · cases h
  next hf =>
    rw [Bool.or_eq_true, not_or, Bool.not_eq_true, Bool.not_eq_true] at hf
    obtain ⟨hd, hf⟩ := hf
    cases hg : current.get name with
    | none =>
      rw [hg] at h
      cases h
      exact ⟨rfl, hd, fun _ he => (by cases he), .inl ⟨rfl, rfl⟩⟩
    | some existing =>
      rw [hg] at h hf
      simp only [Option.any_some, Bool.not_eq_false'] at h hf
      split at h
      · cases h
      · cases h
        refine ⟨rfl, hd, fun _ he => ?_, .inr ⟨existing, rfl, rfl⟩⟩
        cases he
        exact hf

private theorem apply_eq_none (h : apply current c (name, config) = none) (hd : c.defines name = false)
    (hf : ∀ existing, current.get name = some existing → isCameraPath name existing (some c) = true) :
    ∃ existing, current.get name = some existing ∧ agrees existing config = true := by
  simp only [apply] at h
  cases hg : current.get name with
  | none =>
    rw [hg] at h
    simp [hd] at h
  | some existing =>
    rw [hg] at h
    simp only [hd, Option.any_some, hf existing hg, Bool.not_true, Bool.or_false, Bool.false_eq_true, if_false] at h
    split at h
    next hnil =>
      refine ⟨existing, rfl, agrees_iff.mpr fun field hm => ?_⟩
      have := List.filter_eq_nil_iff.mp hnil field hm
      simpa using this
    · cases h

theorem remove_eq_some {existing : Config} (h : remove wanted c (name, existing) = some call) :
    call = .delete name ∧ wanted.get name = none ∧ isCameraPath name existing (some c) = true := by
  simp only [remove] at h
  split at h
  next hr =>
    rw [Bool.and_eq_true, Option.isNone_iff_eq_none] at hr
    cases h
    exact ⟨rfl, hr⟩
  · cases h

/-- A listing turned into calls, no more than one an entry and each about its entry's name. -/
theorem names_filterMap {f : String × Config → Option Call} (h : ∀ entry call, f entry = some call → call.name = entry.1)
    (d : Dict String Config) : ((d.filterMap f).map Call.name).Sublist d.keys := by
  induction d with
  | nil => exact .slnil
  | cons entry d ih =>
    rw [List.filterMap_cons]
    cases hf : f entry with
    | none => exact ih.cons _
    | some call =>
      rw [List.map_cons, h _ _ hf]
      exact ih.cons_cons _

theorem nodup_changes (c : ConfigPaths) (hcurrent : current.keys.Nodup) (hwanted : wanted.keys.Nodup) :
    ((changes current c wanted).map Call.name).Nodup := by
  have happly : ∀ entry call, apply current c entry = some call → call.name = entry.1 :=
    fun entry call h => (apply_eq_some h).1
  have hremove : ∀ entry call, remove wanted c entry = some call → call.name = entry.1 := fun entry call h => by
    rw [(remove_eq_some h).1]
    rfl
  rw [changes, List.map_append, List.nodup_append]
  refine ⟨hwanted.sublist (names_filterMap happly _), hcurrent.sublist (names_filterMap hremove _), ?_⟩
  rintro name hn _ hr rfl
  obtain ⟨call, hm, rfl⟩ := List.mem_map.mp hr
  obtain ⟨entry, -, he⟩ := List.mem_filterMap.mp hm
  obtain ⟨rfl, hg, -⟩ := remove_eq_some he
  exact Dict.get_eq_none.mp hg ((names_filterMap happly _).subset hn)

/-- What a call makes of its path. -/
theorem effect_of_mem_changes (defaults : Config) (hlist : ∀ name, current.get name = m.get name) (hcurrent : current.keys.Nodup)
    (h : call ∈ changes current c db.wanted) :
    ¬ Untouched c m call.name ∧
      (db.wanted.get call.name = none ∧ call.effect defaults (m.get call.name) = none ∨
        ∃ camera ∈ db.cameras, camera.cameraAlias = call.name ∧ ∃ existing,
          call.effect defaults (m.get call.name) = some existing ∧
            agrees existing (camera.wanted db.recordingSessionActive) = true) := by
  rcases List.mem_append.mp h with h | h
  · obtain ⟨⟨name, config⟩, hm, he⟩ := List.mem_filterMap.mp h
    obtain ⟨rfl, hd, hf, hcall⟩ := apply_eq_some he
    obtain ⟨camera, hc, ha, rfl⟩ := camera_of_get (Dict.get_of_mem (nodup_keys_wanted db) hm)
    have hn := nodup_wanted camera db.recordingSessionActive
    refine ⟨?_, .inr ⟨camera, hc, ha, ?_⟩⟩
    · rintro (hd' | ⟨existing, hg, hfalse⟩)
      · rw [hd] at hd'
        cases hd'
      · rw [hf existing ((hlist _).trans hg)] at hfalse
        cases hfalse
    · rcases hcall with ⟨-, hcall⟩ | ⟨existing, hg, hcall⟩
      · rw [hcall]
        exact ⟨_, rfl, agrees_update hn _⟩
      · rw [hlist] at hg
        rw [hg]
        rw [hcall]
        exact ⟨_, rfl, agrees_changed hn _⟩
  · obtain ⟨⟨name, existing⟩, hm, he⟩ := List.mem_filterMap.mp h
    obtain ⟨rfl, hw, hp⟩ := remove_eq_some he
    refine ⟨?_, .inl ⟨hw, rfl⟩⟩
    rintro (hd | ⟨existing', hg, hfalse⟩)
    · rw [Call.name, defines_of_isCameraPath hp] at hd
      cases hd
    · rw [← hlist, Call.name, Dict.get_of_mem hcurrent hm] at hg
      cases hg
      rw [Call.name, hp] at hfalse
      cases hfalse

theorem sync_cases (defaults : Config) (c : ConfigPaths) (db : Database) (m : Paths) (answers : List Answer) :
    sync defaults (some c) db m answers = ⟨m, [], false⟩ ∨
      sync defaults (some c) db m answers =
        perform (server defaults) m (changes (listPathConfigs m) c db.wanted) answers.tail := by
  rw [sync]
  cases answers.headD .made with
  | made => exact .inr rfl
  | lost => exact .inl rfl
  | unanswered => exact .inl rfl

private theorem sync_of_completed (h : (sync defaults (some c) db m answers).completed = true) :
    sync defaults (some c) db m answers =
      perform (server defaults) m (changes (listPathConfigs m) c db.wanted) answers.tail := by
  rcases sync_cases defaults c db m answers with hs | hs
  · rw [hs] at h
    cases h
  · exact hs

/-- Whatever is answered, a path is as it was, or was the sync's to change and is gone or as a camera wants it. -/
theorem get_sync (hm : m.entries.length ≤ itemsPerPage) (defaults : Config) (c : ConfigPaths) (db : Database)
    (answers : List Answer) (name : String) :
    (sync defaults (some c) db m answers).state.get name = m.get name ∨
      ¬ Untouched c m name ∧ ((sync defaults (some c) db m answers).state.get name = none ∨
        CameraPath c (sync defaults (some c) db m answers).state name) := by
  rcases sync_cases defaults c db m answers with hs | hs
  · rw [hs]
    exact .inl rfl
  · rw [hs]
    have hnames := nodup_changes c (nodup_listPathConfigs m) (nodup_keys_wanted db)
    rcases get_perform (server defaults) hnames m answers.tail name with h | ⟨call, hc, rfl, h⟩
    · exact .inl h
    · obtain ⟨hu, he⟩ := effect_of_mem_changes defaults (get_listPathConfigs hm) (nodup_listPathConfigs m) hc
      refine .inr ⟨hu, ?_⟩
      rcases he with ⟨-, he⟩ | ⟨camera, -, -, existing, he, ha⟩
      · exact .inl (h.trans he)
      · exact .inr ⟨existing, h.trans he, isCameraPath_of_agrees (defines_of_reached hu) ha⟩

/-- What is out of reach stays so, and nothing else comes to be. -/
theorem untouched_sync (hm : m.entries.length ≤ itemsPerPage) (defaults : Config) (c : ConfigPaths) (db : Database)
    (answers : List Answer) (name : String) :
    Untouched c (sync defaults (some c) db m answers).state name ↔ Untouched c m name := by
  rcases get_sync hm defaults c db answers name with h | ⟨hu, h⟩
  · rw [Untouched, Untouched, Foreign, Foreign, h]
  · refine iff_of_false ?_ hu
    rcases h with h | h
    · rintro (hd | ⟨existing, hg, -⟩)
      · exact hu (.inl hd)
      · rw [h] at hg
        cases hg
    · exact h.reached

private theorem get_sync_of_untouched (hm : m.entries.length ≤ itemsPerPage) (hu : Untouched c m name) :
    (sync defaults (some c) db m answers).state.get name = m.get name := by
  rcases get_sync hm defaults c db answers name with h | ⟨hn, -⟩
  · exact h
  · exact absurd hu hn

/-- What is in reach is as its camera wants it, or gone. -/
theorem get_sync_of_reached (hm : m.entries.length ≤ itemsPerPage)
    (hs : (sync defaults (some c) db m answers).completed = true) (hu : ¬ Untouched c m name) :
    (db.wanted.get name = none ∧ (sync defaults (some c) db m answers).state.get name = none) ∨
      ∃ camera ∈ db.cameras, camera.cameraAlias = name ∧ ∃ existing,
        (sync defaults (some c) db m answers).state.get name = some existing ∧
          agrees existing (camera.wanted db.recordingSessionActive) = true := by
  have hrun := sync_of_completed hs
  rw [hrun] at hs ⊢
  have hlist := get_listPathConfigs hm
  have hnames := nodup_changes c (nodup_listPathConfigs m) (nodup_keys_wanted db)
  by_cases hcall : ∃ call ∈ changes (listPathConfigs m) c db.wanted, call.name = name
  · obtain ⟨call, hc, rfl⟩ := hcall
    have hmade : (perform (server defaults) m (changes (listPathConfigs m) c db.wanted) answers.tail).state.get call.name =
        call.effect defaults (m.get call.name) := get_of_completed (server defaults) hnames hs hc
    obtain ⟨-, he⟩ := effect_of_mem_changes defaults hlist (nodup_listPathConfigs m) hc
    rw [hmade]
    exact he
  · have hsame : (perform (server defaults) m (changes (listPathConfigs m) c db.wanted) answers.tail).state.get name =
        m.get name := by
      rcases get_perform (server defaults) hnames m answers.tail name with h | ⟨call, hc, hk, -⟩
      · exact h
      · exact absurd ⟨call, hc, hk⟩ hcall
    rw [hsame]
    cases hw : db.wanted.get name with
    | none =>
      refine .inl ⟨rfl, ?_⟩
      cases hg : m.get name with
      | none => rfl
      | some existing =>
        have hr : remove db.wanted c (name, existing) = some (.delete name) := by
          simp [remove, hw, isCameraPath_of_reached hu hg]
        have hmem : (name, existing) ∈ listPathConfigs m := Dict.mem_of_get ((hlist name).trans hg)
        exact absurd ⟨_, List.mem_append_right _ (List.mem_filterMap.mpr ⟨_, hmem, hr⟩), rfl⟩ hcall
    | some config =>
      obtain ⟨camera, hc, ha, rfl⟩ := camera_of_get hw
      refine .inr ⟨camera, hc, ha, ?_⟩
      cases happly : apply (listPathConfigs m) c (name, camera.wanted db.recordingSessionActive) with
      | some call =>
        have hmem := List.mem_filterMap.mpr ⟨_, Dict.mem_of_get hw, happly⟩
        exact absurd ⟨call, List.mem_append_left _ hmem, (apply_eq_some happly).1⟩ hcall
      | none =>
        obtain ⟨existing, hg, hagrees⟩ := apply_eq_none happly (defines_of_reached hu) fun existing hg =>
          isCameraPath_of_reached hu ((hlist name).symm.trans hg)
        exact ⟨existing, (hlist name).symm.trans hg, hagrees⟩

/-- No path of the cameras' is left without a camera. -/
theorem camera_of_cameraPath (hm : m.entries.length ≤ itemsPerPage)
    (hs : (sync defaults (some c) db m answers).completed = true)
    (hp : CameraPath c (sync defaults (some c) db m answers).state name) :
    ∃ camera ∈ db.cameras, camera.cameraAlias = name ∧ ∃ existing,
      (sync defaults (some c) db m answers).state.get name = some existing ∧
        agrees existing (camera.wanted db.recordingSessionActive) = true := by
  have hu : ¬ Untouched c m name := by
    rw [← untouched_sync hm defaults c db answers]
    exact hp.reached
  obtain ⟨existing, hg, -⟩ := hp
  rcases get_sync_of_reached hm hs hu with ⟨-, hnone⟩ | h
  · rw [hnone] at hg
    cases hg
  · exact h

theorem cameraPath_iff (hm : m.entries.length ≤ itemsPerPage)
    (hs : (sync defaults (some c) db m answers).completed = true) :
    CameraPath c (sync defaults (some c) db m answers).state name ↔
      ¬ Untouched c m name ∧ ∃ camera ∈ db.cameras, camera.cameraAlias = name := by
  constructor
  · intro hp
    obtain ⟨camera, hc, ha, -⟩ := camera_of_cameraPath hm hs hp
    exact ⟨fun hu => hp.reached ((untouched_sync hm defaults c db answers name).mpr hu), camera, hc, ha⟩
  · rintro ⟨hu, camera, hc, rfl⟩
    rcases get_sync_of_reached hm hs hu with ⟨hw, -⟩ | ⟨camera', -, -, existing, hg, h⟩
    · rw [get_wanted hc] at hw
      cases hw
    · exact ⟨existing, hg, isCameraPath_of_agrees (defines_of_reached hu) h⟩

private theorem apply_of_untouched (hlist : ∀ name, current.get name = m.get name) (hu : Untouched c m name) :
    apply current c (name, config) = none := by
  simp only [apply]
  rcases hu with hd | ⟨existing, hg, hf⟩
  · rw [hd, Bool.true_or, if_pos rfl]
  · rw [hlist, hg, Option.any_some, hf, Bool.not_false, Bool.or_true, if_pos rfl]

private theorem apply_of_agrees {existing : Config} (hg : current.get name = some existing)
    (ha : agrees existing config = true) : apply current c (name, config) = none := by
  have hnil : (config.filter fun field => existing.get field.1 ≠ some field.2) = [] :=
    List.filter_eq_nil_iff.mpr fun field hf => by simpa using agrees_iff.mp ha field hf
  simp only [apply, hg, hnil, if_true]
  split <;> rfl

/-- Once a sync has completed there is nothing to call for. -/
theorem changes_of_completed (hm : m.entries.length ≤ itemsPerPage)
    (hs : (sync defaults (some c) db m answers).completed = true)
    (hm' : (sync defaults (some c) db m answers).state.entries.length ≤ itemsPerPage) :
    changes (listPathConfigs (sync defaults (some c) db m answers).state) c db.wanted = [] := by
  have hlist := get_listPathConfigs hm'
  rw [changes, List.append_eq_nil_iff, List.filterMap_eq_nil_iff, List.filterMap_eq_nil_iff]
  constructor
  · rintro ⟨name, config⟩ hmem
    have hw := Dict.get_of_mem (nodup_keys_wanted db) hmem
    by_cases hu : Untouched c m name
    · exact apply_of_untouched hlist ((untouched_sync hm defaults c db answers name).mpr hu)
    · rcases get_sync_of_reached hm hs hu with ⟨hnone, -⟩ | ⟨camera, hc, rfl, existing, hg, ha⟩
      · rw [hw] at hnone
        cases hnone
      · obtain rfl : camera.wanted db.recordingSessionActive = config := Option.some.inj ((get_wanted hc).symm.trans hw)
        exact apply_of_agrees ((hlist _).trans hg) ha
  · rintro ⟨name, existing⟩ hmem
    cases hr : remove db.wanted c (name, existing) with
    | none => rfl
    | some call =>
      obtain ⟨-, hw, hp⟩ := remove_eq_some hr
      have hg := (hlist name).symm.trans (Dict.get_of_mem (nodup_listPathConfigs _) hmem)
      obtain ⟨camera, hc, rfl, -⟩ := camera_of_cameraPath hm hs ⟨existing, hg, hp⟩
      rw [get_wanted hc] at hw
      cases hw

private theorem sent_of_changes (h : changes (listPathConfigs m) c db.wanted = []) :
    (sync defaults (some c) db m answers).sent = [] := by
  rcases sync_cases defaults c db m answers with hs | hs
  · rw [hs]
  · rw [hs, h]
    rfl

/-- The same names, and the same in every field a camera's configuration sets. -/
def SameCameraPaths (c : ConfigPaths) (m m' : Paths) : Prop :=
  ∀ name, (CameraPath c m name ↔ CameraPath c m' name) ∧
    (CameraPath c m name → ∀ existing existing', m.get name = some existing → m'.get name = some existing' →
      ∀ key ∈ playbackOnlyConfig.keys, existing.get key = existing'.get key)

/-- Two syncs of the same cameras, from paths with the same out of their reach. -/
theorem sameCameraPaths {answers' : List Answer} (hm : m.entries.length ≤ itemsPerPage) (hm' : m'.entries.length ≤ itemsPerPage)
    (hu : ∀ name, Untouched c m name ↔ Untouched c m' name)
    (hs : (sync defaults (some c) db m answers).completed = true)
    (hs' : (sync defaults (some c) db m' answers').completed = true) :
    SameCameraPaths c (sync defaults (some c) db m answers).state (sync defaults (some c) db m' answers').state := by
  have hiff : ∀ name, CameraPath c (sync defaults (some c) db m answers).state name ↔
      CameraPath c (sync defaults (some c) db m' answers').state name := fun name => by
    rw [cameraPath_iff hm hs, cameraPath_iff hm' hs', hu]
  refine fun name => ⟨hiff name, fun hp existing existing' hg hg' key hk => ?_⟩
  obtain ⟨camera, hc, rfl, e, he, ha⟩ := camera_of_cameraPath hm hs hp
  obtain ⟨camera', hc', hname, e', he', ha'⟩ := camera_of_cameraPath hm' hs' ((hiff _).mp hp)
  obtain rfl : existing = e := Option.some.inj (hg.symm.trans he)
  obtain rfl : existing' = e' := Option.some.inj (hg'.symm.trans he')
  have hcamera : camera' = camera := List.inj_on_of_nodup_map db.aliases hc' hc hname
  rw [hcamera] at ha'
  rw [← keys_wanted camera db.recordingSessionActive] at hk
  obtain ⟨field, hf, rfl⟩ := List.mem_map.mp hk
  rw [agrees_iff.mp ha field hf, agrees_iff.mp ha' field hf]

theorem sync_converges (goRegexp : String → Option (String → Bool)) (file : Option (List String)) (c : ConfigPaths)
    (hfile : configPaths goRegexp file = some c) (defaults : Config) (db : Database) (m : Paths) (answers : List Answer)
    (hm : m.entries.length ≤ itemsPerPage)
    (hs : (sync defaults (configPaths goRegexp file) db m answers).completed = true) :
    let m' := (sync defaults (configPaths goRegexp file) db m answers).state
    (∀ camera ∈ db.cameras, c.defines camera.cameraAlias = false → ¬ Foreign c m camera.cameraAlias →
      ∃ existing, m'.get camera.cameraAlias = some existing ∧
        agrees existing (camera.wanted db.recordingSessionActive) = true) ∧
    (∀ name, CameraPath c m' name → ∃ camera ∈ db.cameras, camera.cameraAlias = name) ∧
    (∀ name, c.defines name = true ∨ Foreign c m name → m'.get name = m.get name) ∧
    (m'.entries.length ≤ itemsPerPage → ∀ again,
      (sync defaults (configPaths goRegexp file) db m' again).sent = []) ∧
    ∀ failing db' later later',
      let failed := (sync defaults (configPaths goRegexp file) db m failing).state
      failed.entries.length ≤ itemsPerPage → m'.entries.length ≤ itemsPerPage →
      (sync defaults (configPaths goRegexp file) db' failed later).completed = true →
      (sync defaults (configPaths goRegexp file) db' m' later').completed = true →
      SameCameraPaths c (sync defaults (configPaths goRegexp file) db' failed later).state
        (sync defaults (configPaths goRegexp file) db' m' later').state := by
  rw [hfile] at hs ⊢
  refine ⟨fun camera hc hd hf => ?_, fun name hp => ?_, fun name hu => get_sync_of_untouched hm hu, fun hm' again => ?_,
    fun failing db' later later' hfailed hm' hl hl' => ?_⟩
  · have hu : ¬ Untouched c m camera.cameraAlias := by
      rintro (hd' | hf')
      · rw [hd] at hd'
        cases hd'
      · exact hf hf'
    have hp := (cameraPath_iff hm hs).mpr ⟨hu, camera, hc, rfl⟩
    obtain ⟨camera', hc', ha, h⟩ := camera_of_cameraPath hm hs hp
    rw [List.inj_on_of_nodup_map db.aliases hc' hc ha] at h
    exact h
  · obtain ⟨camera, hc, ha, -⟩ := camera_of_cameraPath hm hs hp
    exact ⟨camera, hc, ha⟩
  · exact sent_of_changes (changes_of_completed hm hs hm')
  · refine sameCameraPaths hfailed hm' (fun name => ?_) hl hl'
    rw [untouched_sync hm, untouched_sync hm]

def noRegexp : String → Option (String → Bool) := fun _ => none

/-- A camera switched off, whose path is only there for its recordings. -/
def lane : Camera := ⟨"lane", "226.226.226.112", 112, none, false⟩

def oneCamera : Database := ⟨[lane], [], by decide⟩

def noCameras : Database := ⟨[], [], by decide⟩

theorem sync_converges_lane :
    ∃ existing, (sync [] (configPaths noRegexp (some ["loopdemo"])) oneCamera ⟨[], by decide⟩ []).state.get "lane" = some existing ∧
      agrees existing playbackOnlyConfig = true := by
  have h := sync_converges noRegexp (some ["loopdemo"]) ⟨["loopdemo"], [], false⟩ rfl [] oneCamera ⟨[], by decide⟩ [] (by decide)
    (by decide)
  refine h.1 lane (List.mem_singleton_self _) (by decide) ?_
  rintro ⟨existing, hg, -⟩
  cases hg

/-- A thousand paths of others, listed before a camera's that was deleted. -/
def others : Dict String Config := (List.range 1000).map fun i => (String.ofList (List.replicate (i + 1) 'a'), [])

private theorem others_le_lane : ∀ entry ∈ others, entry.1 < "lane" := by
  intro entry he
  obtain ⟨i, -, rfl⟩ := List.mem_map.mp he
  rw [String.lt_iff_toList_lt, String.toList_ofList, List.replicate_succ]
  exact List.cons_lt_cons_iff.mpr (.inl (by decide))

private theorem others_ordered : others.Pairwise fun a b => a.1 < b.1 := by
  refine List.pairwise_map.mpr (List.pairwise_lt_range.imp fun {i j} hij => ?_)
  have hp : List.replicate (i + 1) 'a' <+: List.replicate (j + 1) 'a' := by
    refine ⟨List.replicate (j - i) 'a', ?_⟩
    rw [List.replicate_append_replicate]
    congr 1
    omega
  have hne : String.ofList (List.replicate (i + 1) 'a') ≠ String.ofList (List.replicate (j + 1) 'a') := by
    intro he
    have := congrArg List.length (String.ofList_injective he)
    simp only [List.length_replicate] at this
    omega
  refine lt_of_le_of_ne (not_lt.mp fun h => hp.le ?_) hne
  simpa only [String.toList_ofList] using String.lt_iff_toList_lt.mp h

def crowdedEntries : Dict String Config := others ++ [("lane", playbackOnlyConfig)]

theorem crowded_ordered : crowdedEntries.Pairwise fun a b => a.1 < b.1 := by
  refine List.pairwise_append.mpr ⟨others_ordered, List.pairwise_singleton _ _, fun a ha b hb => ?_⟩
  rw [List.mem_singleton.mp hb]
  exact others_le_lane a ha

def crowded : Paths := ⟨crowdedEntries, List.pairwise_map.mpr (crowded_ordered.imp fun h => h.ne)⟩

private theorem listPathConfigs_crowded : listPathConfigs crowded = others := by
  have hs : sorted crowdedEntries = crowdedEntries := (crowded_ordered.imp fun h => h.le).insertionSort_eq
  have hl : others.length = itemsPerPage := by rw [others, List.length_map, List.length_range, itemsPerPage]
  change (sorted crowdedEntries).take itemsPerPage = others
  rw [hs, ← hl]
  exact List.take_left

/-- With `mediamtx.yml` defining no path. -/
def syncAlone (defaults : Config) (db : Database) (m : Paths) (answers : List Answer) : Run Paths Call :=
  sync defaults (configPaths noRegexp (some [])) db m answers

private theorem sync_crowded : syncAlone [] noCameras crowded [] = ⟨crowded, [], true⟩ := by
  have hc : changes others ⟨[], [], false⟩ noCameras.wanted = [] := by
    rw [changes, List.append_eq_nil_iff]
    refine ⟨rfl, List.filterMap_eq_nil_iff.mpr fun entry he => ?_⟩
    obtain ⟨i, -, rfl⟩ := List.mem_map.mp he
    rfl
  change perform (server []) crowded (changes (listPathConfigs crowded) ⟨[], [], false⟩ noCameras.wanted) [] = _
  rw [listPathConfigs_crowded, hc]
  rfl

def drifted : Paths := ⟨[("lane", playbackOnlyConfig ++ [("maxReaders", .other "5")])], by decide⟩

/-- The camera is deleted and comes back. -/
def comesBack (answers : List Answer) : Run Paths Call :=
  syncAlone [("maxReaders", .other "0")] oneCamera
    (syncAlone [("maxReaders", .other "0")] noCameras drifted answers).state []

theorem not_converging :
    ((syncAlone [] noCameras crowded []).completed = true ∧ noCameras.cameras = [] ∧
      CameraPath ⟨[], [], false⟩ (syncAlone [] noCameras crowded []).state "lane") ∧
    (syncAlone [("maxReaders", .other "0")] noCameras drifted []).completed = true ∧ (comesBack []).completed = true ∧
      (comesBack [.made, .lost]).completed = true ∧
      (comesBack [.made, .lost]).state.get "lane" ≠ (comesBack []).state.get "lane" := by
  refine ⟨?_, by decide⟩
  rw [sync_crowded]
  refine ⟨rfl, rfl, playbackOnlyConfig, ?_, by decide⟩
  exact Dict.get_of_mem crowded.nodup (List.mem_append_right _ (List.mem_singleton_self _))

end Kanat.CameraSync
