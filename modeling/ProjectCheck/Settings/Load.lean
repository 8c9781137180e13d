import ProjectCheck.Settings.Basic
import ProjectCheck.Settings.Home
import ProjectCheck.Text.LetterCase
import ProjectCheck.Toml.Document

/-!
Loading settings. The values given by the caller come before those of the environment, and these
before those of the configuration file. The file is read first, whether its values are used or not.
-/
namespace ProjectCheck

open Text

abbrev Source := Members Json

namespace Source

/-- The values that a caller gives. Letter case does not matter in their names; the first value
with the name of a setting counts. -/
def ofOverrides (given : Members Json) : Source :=
  SettingKey.all.filterMap fun key =>
    (given.find? fun member => asciiLower member.1 = key.name).map fun member =>
      (key.name, member.2)

def variablePrefix : String := "dirdiag_"

def variableFor? (environment : List (String × String)) (key : SettingKey) : Option String :=
  (environment.reverse.find? fun entry => lower entry.1 = variablePrefix ++ key.name).map Prod.snd

def variableValue (key : SettingKey) (text : String) : Except Failure (Option Json) :=
  if !key.isList then .ok (some (.string text))
  else match Json.parse text with
    | .ok .null => .ok none
    | .ok value => .ok (some value)
    | .error .tooDeep => .error .tooDeep
    | .error _ => .error (.badSetting
        s!"error parsing value for field \"{key.name}\" from source \"EnvSettingsSource\"")

def ofVariables (environment : List (String × String)) : List SettingKey → Except Failure Source
  | [] => .ok []
  | key :: rest =>
    match variableFor? environment key with
    | none => ofVariables environment rest
    | some text => do
      let value ← variableValue key text
      let others ← ofVariables environment rest
      return match value with
        | some value => (key.name, value) :: others
        | none => others

def ofEnvironment (environment : List (String × String)) : Except Failure Source :=
  ofVariables environment SettingKey.all

def ofToml (path : LooseText) (octets : Bytes) : Except Failure Source :=
  match decodeUtf8? octets with
  | none => .error .undecodable
  | some text =>
    match Toml.read text with
    | .ok tables => .ok tables
    | .error .malformed => .error (.badConfiguration s!"Invalid TOML in {path}")
    | .error (.tooManyDigits count) => .error (.number (.tooManyDigits count))
    | .error .tooDeep => .error .tooDeep

def ofConfigFile (m : Machine) : Except Failure Source := do
  let path ← m.configFile
  match m.readOctets path with
  | .ok octets => ofToml path.text octets
  | .error (.lookup .missing _) => .ok []
  | .error (.lookup .zeroByte text) => .error (.lookup .zeroByte text)
  | .error (.lookup .unencodable text) => .error (.lookup .unencodable text)
  | .error failure => .error (.badConfiguration s!"Cannot read {path.text}: {failure.message}")

def combine (sources : List Source) : Source :=
  SettingKey.all.filterMap fun key =>
    (sources.findSome? fun source => source.get? key.name).map fun value => (key.name, value)

end Source

def Settings.load (m : Machine) (given : Members Json) : Except Failure Settings := do
  let file ← Source.ofConfigFile m
  let environment ← Source.ofEnvironment m.environment
  (Settings.ofFields (Source.combine [Source.ofOverrides given, environment, file])).orFail
    Settings.modelName

end ProjectCheck
