import ProjectCheck.Settings.Load

/-!
Sources of settings. Where they can be read the caller, the environment and the configuration file
each give a value for a setting or none, and the first one that there is counts.
-/
namespace ProjectCheck

open Text

theorem SettingKey.name_injective {key other : SettingKey} (h : key.name = other.name) :
    key = other := by
  cases key <;> cases other <;> first | rfl | exact absurd h (by decide)

namespace Source

def ofValues (values : SettingKey → Option Json) (keys : List SettingKey) : Source :=
  keys.filterMap fun key => (values key).map fun value => (key.name, value)

theorem ofValues_cons (values : SettingKey → Option Json) (key : SettingKey)
    (rest : List SettingKey) : ofValues values (key :: rest) =
      match values key with
      | none => ofValues values rest
      | some value => (key.name, value) :: ofValues values rest := by
  rw [ofValues, List.filterMap_cons]
  cases values key <;> rfl

theorem get?_ofValues (values : SettingKey → Option Json) (keys : List SettingKey)
    (key : SettingKey) :
    (ofValues values keys).get? key.name = if key ∈ keys then values key else none := by
  induction keys with
  | nil => rfl
  | cons first rest ih =>
    rw [ofValues_cons]
    by_cases hfirst : first = key
    · subst hfirst
      rw [if_pos List.mem_cons_self]
      cases hvalue : values first with
      | none =>
        rw [ih]
        split
        · exact hvalue
        · rfl
      | some value => exact if_pos rfl
    · have hne : first.name ≠ key.name := fun h => hfirst (SettingKey.name_injective h)
      have hmem : (key ∈ first :: rest) = (key ∈ rest) := by simp [Ne.symm hfirst]
      simp only [hmem, ← ih]
      cases values first with
      | none => rfl
      | some value => exact if_neg hne

def fromCaller? (given : Members Json) (key : SettingKey) : Option Json :=
  (given.find? fun member => asciiLower member.1 = key.name).map Prod.snd

def listValue? (text : String) : Option Json :=
  match Json.parse text with
  | .ok .null => none
  | .ok value => some value
  | .error _ => none

/-- What the environment gives for a setting: the text of its variable, or the value that the text
writes where the setting is a list. -/
def fromEnvironment? (environment : List (String × String)) (key : SettingKey) : Option Json :=
  (variableFor? environment key).bind fun text =>
    if key.isList then listValue? text else some (.string text)

def fromFile? (file : Source) (key : SettingKey) : Option Json := file.get? key.name

def HasLists (environment : List (String × String)) : Prop :=
  ∀ key text, SettingKey.isList key = true → variableFor? environment key = some text →
    ∃ value, Json.parse text = .ok value

variable {environment : List (String × String)}

theorem variableValue_eq {key : SettingKey} {text : String}
    (h : key.isList = true → ∃ value, Json.parse text = .ok value) :
    variableValue key text =
      .ok (if key.isList then listValue? text else some (.string text)) := by
  rw [variableValue, listValue?]
  cases hlist : key.isList with
  | false => rfl
  | true =>
    obtain ⟨value, hvalue⟩ := h hlist
    rw [hvalue]
    cases value <;> rfl

theorem ofVariables_eq (h : HasLists environment) (keys : List SettingKey) :
    ofVariables environment keys = .ok (ofValues (fromEnvironment? environment) keys) := by
  induction keys with
  | nil => rfl
  | cons key rest ih =>
    rw [ofVariables, ofValues_cons, fromEnvironment?]
    cases htext : variableFor? environment key with
    | none => exact ih
    | some text =>
      simp only [variableValue_eq fun hlist => h key text hlist htext, ih, Option.bind_some]
      cases (if key.isList then listValue? text else some (.string text)) <;> rfl

theorem ofOverrides_eq (given : Members Json) :
    ofOverrides given = ofValues (fromCaller? given) SettingKey.all := by
  rw [ofOverrides, ofValues]
  simp only [fromCaller?, Option.map_map]
  rfl

def offers (given : Members Json) (environment : List (String × String)) (file : Source)
    (key : SettingKey) : List (Option Json) :=
  [fromCaller? given key, fromEnvironment? environment key, fromFile? file key]

def resolved (given : Members Json) (environment : List (String × String)) (file : Source)
    (key : SettingKey) : Option Json :=
  (offers given environment file key).findSome? id

theorem get?_combine (given : Members Json) (environment : List (String × String)) (file : Source)
    (key : SettingKey) :
    (combine [ofOverrides given, ofValues (fromEnvironment? environment) SettingKey.all,
      file]).get? key.name = resolved given environment file key := by
  have hcombine : ∀ sources : List Source, combine sources =
      ofValues (fun key => sources.findSome? fun source => source.get? key.name)
        SettingKey.all := fun _ => rfl
  rw [hcombine, get?_ofValues, if_pos key.mem_all, ofOverrides_eq]
  simp only [List.findSome?_cons, get?_ofValues, key.mem_all, if_true, resolved, offers, id]
  rfl

inductive AgreeToFirst : List (Option Json) → List (Option Json) → Prop
  | nil : AgreeToFirst [] []
  | given (value : Json) (rest other : List (Option Json)) :
      AgreeToFirst (some value :: rest) (some value :: other)
  | silent {rest other : List (Option Json)} (h : AgreeToFirst rest other) :
      AgreeToFirst (none :: rest) (none :: other)

theorem AgreeToFirst.findSome?_eq {first other : List (Option Json)}
    (h : AgreeToFirst first other) : first.findSome? id = other.findSome? id := by
  induction h with
  | nil => rfl
  | given => rfl
  | silent _ ih => exact ih

end Source

open Source

/-! Machines whose sources can be read. -/

namespace Machine

inductive ReadsConfig (m : Machine) : Source → Prop
  | missing {path : Path} (hpath : m.configFile = .ok path)
      (hmissing : m.readOctets path = .error (.lookup .missing path.text)) : ReadsConfig m []
  | tables {path : Path} {octets : Bytes} {text : List Char} {tables : Source}
      (hpath : m.configFile = .ok path) (hoctets : m.readOctets path = .ok octets)
      (htext : decodeUtf8? octets = some text) (htables : Toml.read text = .ok tables) :
      ReadsConfig m tables

structure HasSources (m : Machine) (file : Source) : Prop where
  file : m.ReadsConfig file
  lists : HasLists m.environment

theorem ReadsConfig.ofConfigFile {m : Machine} {file : Source} (h : m.ReadsConfig file) :
    Source.ofConfigFile m = .ok file := by
  cases h with
  | missing hpath hmissing =>
    rw [Source.ofConfigFile, hpath]
    simp only [Except.bind, bind, hmissing]
  | tables hpath hoctets htext htables =>
    rw [Source.ofConfigFile, hpath]
    simp only [Except.bind, bind, hoctets, ofToml, htext, htables]

end Machine

end ProjectCheck
