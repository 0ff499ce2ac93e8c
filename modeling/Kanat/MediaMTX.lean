import Mathlib.Data.String.Basic
import Kanat.KeyedCollections
import Kanat.Recordings
import Kanat.RemoteChanges

/-! # MediaMTX's configured paths

What its Control API is asked for by `services/mediamtx.py`, and what `mediamtx.yml` is read as. -/
namespace Kanat.MediaMTX
open InsertionOrderDict KeyedCollections Recordings RemoteChanges

inductive Value
  | str (s : String)
  | bool (b : Bool)
  /-- Of any other type, as JSON. -/
  | other (json : String)
  deriving DecidableEq

abbrev Config := Dict String Value

/-- `dict.update` -/
def update (config fields : Config) : Config := fields.foldl (fun config field => config.put field.1 field.2) config

/-- The paths it holds, one of a name. -/
structure Paths where
  entries : Dict String Config
  nodup : entries.keys.Nodup

namespace Paths

def get (m : Paths) (name : String) : Option Config := m.entries.get name

def put (m : Paths) (name : String) (config : Config) : Paths := ⟨m.entries.put name config, Dict.nodup_put m.nodup⟩

def pop (m : Paths) (name : String) : Paths := ⟨m.entries.pop name, Dict.nodup_pop m.nodup name⟩

end Paths

inductive Call
  | add (name : String) (config : Config)
  | patch (name : String) (fields : Config)
  | delete (name : String)
  deriving DecidableEq

def Call.name : Call → String
  | .add name _ => name
  | .patch name _ => name
  | .delete name => name

/-- What a call answered without an error makes of its path. A new path's other fields are `defaults`. -/
def Call.effect (defaults : Config) : Call → Option Config → Option Config
  | .add _ config, _ => some (update defaults config)
  | .patch _ fields, existing => existing.map (update · fields)
  | .delete _, _ => none

/-- A path is added once, and only one that is there is changed or deleted. -/
def take (defaults : Config) (m : Paths) : Call → Option Paths
  | .add name config => if (m.get name).isSome then none else some (m.put name (update defaults config))
  | .patch name fields => (m.get name).map fun existing => m.put name (update existing fields)
  | .delete name => if (m.get name).isSome then some (m.pop name) else none

def itemsPerPage : ℕ := 1000

/-- `list_path_configs`: the answer's first page, in the order of their names. -/
def listPathConfigs (m : Paths) : Dict String Config := (sorted m.entries).take itemsPerPage

/-- `config_paths`'s loop over the keys of `paths`. A regular expression that is not trusted ends it. -/
def readKeys (goRegexp : String → Option (String → Bool)) (c : ConfigPaths) : List String → Option ConfigPaths
  | [] => some c
  | key :: keys =>
    let c := { c with names := c.names ++ [key] }
    if key.toList.head? = some '~' then
      match goRegexp (String.ofList key.toList.tail) with
      | none => none
      | some pattern => readKeys goRegexp { c with patterns := c.patterns ++ [pattern] } keys
    else if key = "all_others" ∨ key = "all" then readKeys goRegexp { c with catchAll := true } keys
    else readKeys goRegexp c keys

/-- The file's `paths`, where it has any; `none` where it cannot be read. -/
def configPaths (goRegexp : String → Option (String → Bool)) (file : Option (List String)) : Option ConfigPaths :=
  file.bind (readKeys goRegexp ⟨[], [], false⟩)

variable {config fields : Config} {defaults : Config} {m m' : Paths} {name : String} {call : Call}

theorem get_update (h : fields.keys.Nodup) (config : Config) (key : String) :
    (update config fields).get key = (fields.get key).or (config.get key) := by
  induction fields generalizing config with
  | nil => rfl
  | cons field fields ih =>
    obtain ⟨hn, hf⟩ := List.nodup_cons.mp h
    rw [update, List.foldl_cons]
    change (update (config.put field.1 field.2) fields).get key = _
    rw [ih hf]
    by_cases hk : field.1 = key
    · subst hk
      rw [Dict.get_eq_none.mpr hn, Dict.get_put_self]
      simp [Dict.get]
    · rw [Dict.get_put_of_ne hk]
      simp [Dict.get, hk]

theorem get_take (h : take defaults m call = some m') : m'.get call.name = call.effect defaults (m.get call.name) := by
  cases call with
  | add name config =>
    simp only [take] at h
    split at h
    · cases h
    · cases h
      exact Dict.get_put_self
  | patch name fields =>
    obtain ⟨existing, he, rfl⟩ := Option.map_eq_some_iff.mp h
    simp only [Call.name, Call.effect, he]
    exact Dict.get_put_self
  | delete name =>
    simp only [take] at h
    split at h
    · cases h
      exact Dict.get_pop_self
    · cases h

theorem get_take_of_ne (h : take defaults m call = some m') (hn : name ≠ call.name) : m'.get name = m.get name := by
  cases call with
  | add _ config =>
    simp only [take] at h
    split at h
    · cases h
    · cases h
      exact Dict.get_put_of_ne hn.symm
  | patch _ fields =>
    obtain ⟨existing, he, rfl⟩ := Option.map_eq_some_iff.mp h
    exact Dict.get_put_of_ne hn.symm
  | delete _ =>
    simp only [take] at h
    split at h
    · cases h
      exact Dict.get_pop_of_ne hn.symm
    · cases h

/-- MediaMTX as a store of configurations by name. -/
def server (defaults : Config) : Store Paths Call String Config where
  get := Paths.get
  key := Call.name
  take := take defaults
  effect := Call.effect defaults
  get_take := get_take
  get_take_of_ne := get_take_of_ne

/-- A listing that fits on one page is of every path. -/
theorem get_listPathConfigs (h : m.entries.length ≤ itemsPerPage) (name : String) :
    (listPathConfigs m).get name = m.get name := by
  have hp := sorted_perm m.entries
  have hk : (sorted m.entries).keys.Nodup := (hp.map Prod.fst).nodup_iff.mpr m.nodup
  rw [listPathConfigs, List.take_of_length_le (hp.length_eq.trans_le h), Paths.get]
  cases hg : m.entries.get name with
  | none =>
    rw [Dict.get_eq_none] at hg ⊢
    exact fun hm => hg ((hp.map Prod.fst).mem_iff.mp hm)
  | some config => exact Dict.get_of_mem hk (hp.mem_iff.mpr (Dict.mem_of_get hg))

theorem nodup_listPathConfigs (m : Paths) : (listPathConfigs m).keys.Nodup := by
  have hk : (sorted m.entries).keys.Nodup := ((sorted_perm m.entries).map Prod.fst).nodup_iff.mpr m.nodup
  exact hk.sublist ((List.take_sublist _ _).map _)

variable {goRegexp : String → Option (String → Bool)} {c c' : ConfigPaths} {keys : List String}

theorem names_readKeys (h : readKeys goRegexp c keys = some c') : c'.names = c.names ++ keys := by
  induction keys generalizing c with
  | nil =>
    cases h
    exact (List.append_nil _).symm
  | cons key keys ih =>
    simp only [readKeys] at h
    rw [← List.singleton_append, ← List.append_assoc]
    split at h
    · split at h
      · cases h
      · exact ih h
    · split at h
      · exact ih h
      · exact ih h

/-- Every key is in names too. -/
theorem defines_of_mem (h : configPaths goRegexp (some keys) = some c) (hk : name ∈ keys) : c.defines name = true := by
  have hn : c.names = keys := names_readKeys h
  rw [ConfigPaths.defines, hn, List.contains_iff_mem.mpr hk, Bool.true_or]

end Kanat.MediaMTX
