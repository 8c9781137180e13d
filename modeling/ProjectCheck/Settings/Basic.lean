import ProjectCheck.Server.Spec

/-!
Settings: how long a checker may take, how patient a survey is, what it passes over, and the user's
entries for language servers. Each setting comes from the first source that gives it, else it has a
default.
-/
namespace ProjectCheck

open Decimal

structure Settings where
  checkerTimeout : Binary64
  publicationWait : Binary64
  publicationRetries : Nat
  ignoredDirectories : List LooseText
  serverOverrides : List ServerOverride
  deriving Repr

inductive SettingKey where
  | checkerTimeout
  | publicationWait
  | publicationRetries
  | ignoredDirectories
  | serverOverrides
  deriving Repr, DecidableEq

namespace SettingKey

def all : List SettingKey :=
  [checkerTimeout, publicationWait, publicationRetries, ignoredDirectories, serverOverrides]

def name : SettingKey → String
  | checkerTimeout => "external_process_timeout"
  | publicationWait => "lsp_diagnostics_wait"
  | publicationRetries => "lsp_diagnostics_retries"
  | ignoredDirectories => "ignored_directories"
  | serverOverrides => "lsp_servers"

def isList : SettingKey → Bool
  | ignoredDirectories | serverOverrides => true
  | _ => false

theorem mem_all (key : SettingKey) : key ∈ all := by cases key <;> decide

end SettingKey

namespace Settings

def modelName : String := "DiagnosticsConfig"

def defaultTimeout : Binary64 := .ofInt 300

def defaultWait : Binary64 := .ofDecimal false 3 (-1)

def defaultIgnored : List LooseText := ["node_modules", "dist", "build", ".git"]

def cleanNames (names : List LooseText) : List LooseText := (names.filter (· ≠ [])).eraseDups

def positive : Check Binary64 := fun value =>
  (Check.float value).andThen (.require .greaterThan (·.isPositive))

def nonnegative : Check Binary64 := fun value =>
  (Check.float value).andThen (.require .greaterThanEqual (·.isNonnegative))

def ofFields (fields : Members Json) : Checked Settings :=
  ((fields.withDefault SettingKey.checkerTimeout.name positive defaultTimeout).map mk
    |>.ap (fields.withDefault SettingKey.publicationWait.name nonnegative defaultWait)
    |>.ap (fields.withDefault SettingKey.publicationRetries.name .count 0)
    |>.ap ((fields.withDefault SettingKey.ignoredDirectories.name (.list .string)
      defaultIgnored).map cleanNames)
    |>.ap (fields.withDefault SettingKey.serverOverrides.name
      (.list (.model ServerOverride.ofFields)) []))

end Settings

end ProjectCheck
