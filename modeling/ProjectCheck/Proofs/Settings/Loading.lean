import ProjectCheck.Proofs.Json.Lossless
import ProjectCheck.Proofs.Settings.Fields
import ProjectCheck.Proofs.Settings.Sources

/-!
Loading settings. Each setting is what the first source gives that gives it, else its default, so
that what later sources give for it makes no difference, valid or not. Loaded settings are sound,
and given to a load they are what it loads.
-/
namespace ProjectCheck

open Text Source

/-- Where the sources can be read the settings are checked as they are resolved. -/
theorem Machine.HasSources.load_eq {m : Machine} {file : Source} (h : m.HasSources file)
    (given : Members Json) : ∃ fields : Members Json,
      (∀ key : SettingKey, fields.get? key.name = resolved given m.environment file key) ∧
      Settings.load m given = (Settings.ofFields fields).orFail Settings.modelName := by
  refine ⟨_, get?_combine given m.environment file, ?_⟩
  rw [Settings.load, h.file.ofConfigFile, ofEnvironment, ofVariables_eq h.lists]
  rfl

namespace Settings

/-- What a load does with the values that the caller gives, where the sources can be read. It gives
the settings that are made of what is resolved, or all the faults of that. It is the same as any
other load whose sources give the same for each setting up to the first that gives something. What
it gives is sound and passes its own checks unchanged, and any load to which a caller gives it gives
it back. -/
structure LoadsFrom (m : Machine) (file : Source) (given : Members Json) : Prop where
  accepts : ∀ s, load m given = .ok s ↔ s.IsMadeOf (resolved given m.environment file)
  refuses : ∀ failure, load m given = .error failure ↔
    faults (resolved given m.environment file) ≠ [] ∧
      failure = .invalid modelName (faults (resolved given m.environment file))
  blind : ∀ other otherFile otherGiven, other.HasSources otherFile →
    (∀ key, AgreeToFirst (offers given m.environment file key)
      (offers otherGiven other.environment otherFile key)) →
    load other otherGiven = load m given
  sound : ∀ s, load m given = .ok s → s.IsSound
  unchanged : ∀ s, load m given = .ok s → ofFields s.fields = .valid s
  again : ∀ s, load m given = .ok s → ∀ other otherFile, other.HasSources otherFile →
    load other s.fields = .ok s

variable {m : Machine} {file : Source} {given : Members Json} {s : Settings}

theorem load_eq_ok_iff (h : m.HasSources file) :
    load m given = .ok s ↔ s.IsMadeOf (resolved given m.environment file) := by
  obtain ⟨fields, hfields, hload⟩ := h.load_eq given
  rw [hload, ← ofFields_eq_valid_iff hfields]
  cases ofFields fields <;> simp [Checked.orFail]

theorem load_eq_error_iff (h : m.HasSources file) {failure : Failure} :
    load m given = .error failure ↔ faults (resolved given m.environment file) ≠ [] ∧
      failure = .invalid modelName (faults (resolved given m.environment file)) := by
  obtain ⟨fields, hfields, hload⟩ := h.load_eq given
  have hinvalid : load m given = .error failure ↔
      ∃ issues, ofFields fields = .invalid issues ∧ failure = .invalid modelName issues := by
    rw [hload]
    cases ofFields fields <;> simp [Checked.orFail, eq_comm]
  rw [hinvalid]
  constructor
  · rintro ⟨issues, hissues, rfl⟩
    obtain ⟨hne, rfl⟩ := (ofFields_eq_invalid_iff hfields).1 hissues
    exact ⟨hne, rfl⟩
  · rintro ⟨hne, rfl⟩
    exact ⟨_, (ofFields_eq_invalid_iff hfields).2 ⟨hne, rfl⟩, rfl⟩

/-- Loads that are given the same values resolve all settings alike. -/
theorem load_congr {other : Machine} {otherFile : Source} {otherGiven : Members Json}
    (h : m.HasSources file) (hother : other.HasSources otherFile)
    (hvalues : resolved given m.environment file =
      resolved otherGiven other.environment otherFile) :
    load other otherGiven = load m given := by
  -- Both outcomes, settings and failures, are read off what is resolved.
  cases hload : load m given with
  | ok s => rwa [load_eq_ok_iff hother, ← hvalues, ← load_eq_ok_iff h]
  | error failure => rwa [load_eq_error_iff hother, ← hvalues, ← load_eq_error_iff h]

/-- The fields of some settings give each setting its value. -/
theorem fromCaller?_fields (s : Settings) (key : SettingKey) :
    fromCaller? s.fields key = some (s.value key) := by
  have hlower : ∀ other : SettingKey, asciiLower other.name = other.name := by
    intro other
    cases other <;> decide
  have hfind : SettingKey.all.find? (fun other => other.name = key.name) = some key := by
    cases key <;> decide
  rw [fromCaller?, fields, List.find?_map]
  simp only [Function.comp_def, hlower, hfind]
  rfl

/-- Where the sources can be read each setting is loaded from the first of them that gives it. -/
theorem loads_from_sources (h : m.HasSources file) (given : Members Json) :
    LoadsFrom m file given where
  accepts _ := load_eq_ok_iff h
  refuses _ := load_eq_error_iff h
  blind other otherFile otherGiven hother hagree :=
    load_congr h hother (funext fun key => (hagree key).findSome?_eq)
  sound s hload := ((load_eq_ok_iff h).1 hload).isSound
  unchanged s hload := (ofFields_eq_valid_iff s.get?_fields).2 ((load_eq_ok_iff h).1 hload).again
  again s hload other otherFile hother := by
    have hvalues : resolved s.fields other.environment otherFile =
        fun key => some (s.value key) := by
      funext key
      rw [resolved, offers, fromCaller?_fields]
      rfl
    rw [load_eq_ok_iff hother, hvalues]
    exact ((load_eq_ok_iff h).1 hload).again

/-! A load whose sources differ in the names to ignore. -/

/-- A machine with a configuration file, and with a text for the names to ignore in its
environment. -/
def configured (octets : Bytes) (text : String) : Machine where
  files := .directory [(".dirdiag", .directory [("config.toml", .file octets)])]
  workingDirectory := []
  environment := [("DIRDIAG_IGNORED_DIRECTORIES", text)]

def configPath : Path := ((Path.ofText "/").child ".dirdiag").child "config.toml"

theorem readsConfig_configured {octets : Bytes} {chars : List Char} {tables : Source}
    (hchars : decodeUtf8? octets = some chars) (htables : Toml.read chars = .ok tables)
    (text : String) : (configured octets text).ReadsConfig tables := by
  have hpath : (configured octets text).configFile = .ok configPath := by
    have hhome : (configured octets text).lookupVariable homeVariable = none := rfl
    rw [Machine.configFile, Machine.home, hhome]
    rfl
  have hfind : (configured octets text).find configPath.text =
      .ok ([".dirdiag", "config.toml"], .file octets) := by rfl
  have hoctets : (configured octets text).readOctets configPath = .ok octets := by
    rw [Machine.readOctets, hfind]
  exact .tables hpath hoctets hchars htables

theorem variableFor?_configured (octets : Bytes) (text : String) (key : SettingKey) :
    variableFor? (configured octets text).environment key =
      if key = .ignoredDirectories then some text else none := by
  have hname : lower "DIRDIAG_IGNORED_DIRECTORIES" = "dirdiag_ignored_directories" := by
    decide +kernel
  rw [variableFor?, configured]
  simp only [List.reverse_singleton, List.find?_cons, hname]
  cases key <;> rfl

theorem hasSources_configured {octets : Bytes} {chars : List Char} {tables : Source}
    (hchars : decodeUtf8? octets = some chars) (htables : Toml.read chars = .ok tables)
    {text : String} {value : Json} (hvalue : Json.parse text = .ok value) :
    (configured octets text).HasSources tables := by
  refine ⟨readsConfig_configured hchars htables text, fun key found _ hfound => ?_⟩
  rw [variableFor?_configured] at hfound
  split at hfound
  · cases hfound
    exact ⟨value, hvalue⟩
  · cases hfound

theorem fromCaller?_ignored (value : Json) (key : SettingKey) :
    fromCaller? [("ignored_directories", value)] key =
      if key = .ignoredDirectories then some value else none := by
  have hname : asciiLower "ignored_directories" = "ignored_directories" := by decide
  rw [fromCaller?]
  simp only [List.find?_cons, hname]
  cases key <;> rfl

theorem resolved_ignored {tables : Source}
    (hfile : ∀ key : SettingKey, key ≠ .ignoredDirectories → tables.get? key.name = none)
    (octets : Bytes) (text : String) (value : Json) :
    resolved [("ignored_directories", value)] (configured octets text).environment tables =
      fun key => if key = .ignoredDirectories then some value else none := by
  funext key
  rw [resolved, offers, fromCaller?_ignored, fromEnvironment?, variableFor?_configured, fromFile?]
  by_cases hkey : key = .ignoredDirectories
  · simp only [if_pos hkey]
    rfl
  · simp only [if_neg hkey, hfile key hkey]
    rfl

theorem isMadeOf_ignored (names : List LooseText) :
    IsMadeOf
      (fun key => if key = .ignoredDirectories then some (.array (names.map .ofText)) else none)
      ⟨defaultTimeout, defaultWait, 0, cleanNames names, []⟩ where
  timeout := rfl
  positive := isPositive_defaultTimeout
  wait := rfl
  nonnegative := isNonnegative_defaultWait
  retries := rfl
  ignored := ⟨names, Check.items_map 0 fun name _ => Check.string_ofText name,
    areFirstOccurrences_eraseDups _⟩
  servers := rfl

theorem read_write (value : Json) :
    Json.read (Json.write value) = Json.readChars (Json.writeChars value) := by
  rw [Json.read, Json.write, String.toList_ofList]

theorem parse_write {value : Json} (h : value.isLossless Json.depthLimit = true) :
    Json.parse (Json.write value) = .ok value := by
  rw [Json.parse, read_write, Json.readChars_of_isLossless h]

/-- The names to ignore are the caller's, though the environment has others, and all else is as it
is by default. -/
theorem loads_from_sources_configured :
    let given : Members Json :=
      [("ignored_directories", .array [.string "a", .string "", .string "a"])]
    ∃ m tables, m.HasSources tables ∧
      fromEnvironment? m.environment .ignoredDirectories = some (.array [.string "vendor"]) ∧
      load m given = .ok ⟨defaultTimeout, defaultWait, 0, ["a"], []⟩ := by
  intro given
  let vendor := Json.array [.string "vendor"]
  let m := configured (utf8 "# no settings\n") (Json.write vendor)
  have hchars : decodeUtf8? (utf8 "# no settings\n") = some "# no settings\n".toList := by
    decide +kernel
  have hvalue : Json.parse (Json.write vendor) = .ok vendor := parse_write rfl
  have hsources : m.HasSources [] := hasSources_configured hchars rfl hvalue
  have henvironment : fromEnvironment? m.environment .ignoredDirectories = some vendor := by
    rw [fromEnvironment?, variableFor?_configured, if_pos rfl, Option.bind_some,
      if_pos (show SettingKey.ignoredDirectories.isList = true from rfl), listValue?, hvalue]
  refine ⟨m, [], hsources, henvironment, ((loads_from_sources hsources given).accepts _).2 ?_⟩
  rw [resolved_ignored fun _ _ => rfl]
  have hclean : cleanNames ["a", [], "a"] = [("a" : LooseText)] := by decide
  exact hclean ▸ isMadeOf_ignored ["a", [], "a"]

def longText : String := Json.write (.array [.int (Int.pow 10 digitLimit)])

theorem read_longText : Json.read longText = .error (.tooManyDigits (digitLimit + 1)) := by
  have hdigits : (Nat.toDigits 10 (Int.pow 10 digitLimit).natAbs).length = digitLimit + 1 := by
    decide +kernel
  have hnumber : Json.rereadInt (Int.pow 10 digitLimit) =
      .error (.tooManyDigits (digitLimit + 1)) := by
    rw [Json.rereadInt, hdigits, if_pos (Nat.lt_succ_self _)]
  rw [longText, read_write, Json.readChars_writeChars rfl, show Json.depthLimit = 979 + 1 from rfl,
    Json.reread, Json.rereadItems, Json.reread, hnumber]
  rfl

theorem ofEnvironment_longText :
    ofEnvironment (configured [] longText).environment = .error (.badSetting
      ("error parsing value for field \"ignored_directories\" " ++
        "from source \"EnvSettingsSource\"")) := by
  have hvalue : variableValue .ignoredDirectories longText = .error (.badSetting
      ("error parsing value for field \"ignored_directories\" " ++
        "from source \"EnvSettingsSource\"")) := by
    rw [variableValue, Json.parse, read_longText]
    rfl
  simp only [ofEnvironment, SettingKey.all, ofVariables, variableFor?_configured, reduceCtorEq,
    if_false, if_true, hvalue]
  rfl

/-- Where the environment has a number of too many digits for the names to ignore nothing is loaded,
though the names are the caller's. -/
theorem load_refuses_long_number :
    let given : Members Json := [("ignored_directories", .array [.string "a"])]
    load (configured [] (Json.write (.array []))) given =
        .ok ⟨defaultTimeout, defaultWait, 0, ["a"], []⟩ ∧
      load (configured [] (Json.write (.array [.int (Int.pow 10 digitLimit)]))) given =
        .error (.badSetting ("error parsing value for field \"ignored_directories\" " ++
          "from source \"EnvSettingsSource\"")) := by
  intro given
  have hempty : decodeUtf8? [] = some [] := rfl
  constructor
  · have hvalue : Json.parse (Json.write (.array [])) = .ok (.array []) := parse_write rfl
    rw [load_eq_ok_iff (hasSources_configured hempty rfl hvalue), resolved_ignored fun _ _ => rfl]
    exact isMadeOf_ignored ["a"]
  · have hfile := (readsConfig_configured hempty rfl longText).ofConfigFile
    rw [show Json.write (.array [.int (Int.pow 10 digitLimit)]) = longText from rfl, load, hfile,
      ofEnvironment_longText]
    rfl

end Settings

end ProjectCheck
