import ProjectCheck.Validation

/-!
Diagnostics: what a checker says about one place of one file.
-/
namespace ProjectCheck

inductive Severity where
  | error
  | warning
  deriving Repr, DecidableEq

def Severity.name : Severity → String
  | error => "error"
  | warning => "warning"

def Severity.ofName? : String → Option Severity
  | "error" => some .error
  | "warning" => some .warning
  | _ => none

theorem Severity.ofName?_name (s : Severity) : ofName? s.name = some s := by cases s <;> rfl

structure Diagnostic where
  file : LooseText
  line : Nat
  column : Nat
  message : LooseText
  severity : Severity
  code : Option LooseText := none
  deriving Repr, DecidableEq

namespace Diagnostic

def modelName : String := "Diagnostic"

def ofFields (fields : Members Json) : Checked Diagnostic :=
  ((fields.required "file" .string).map mk
    |>.ap (fields.required "line" .count)
    |>.ap (fields.required "column" .count)
    |>.ap (fields.required "message" .string)
    |>.ap (fields.required "severity" (.oneOf Severity.ofName?))
    |>.ap (fields.withDefault "code" (.optional .string) none))

def fields (d : Diagnostic) : Members Json := [
  ("file", .ofText d.file), ("line", .int d.line), ("column", .int d.column),
  ("message", .ofText d.message), ("severity", .string d.severity.name),
  ("code", d.code.elim .null .ofText)]

def crashFile : LooseText := "."

def crashSuffix : LooseText := "-crash"

def isCrashSentinel (d : Diagnostic) : Bool :=
  d.file = crashFile && match d.code with
    | some code => crashSuffix.isSuffixOf code
    | none => false

def crash (tool : LooseText) : Diagnostic where
  file := crashFile
  line := 0
  column := 0
  message := tool ++ " exited with errors but produced no diagnostic output " ++
    "(possible configuration issue)"
  severity := .error
  code := some (tool ++ crashSuffix)

def isError (d : Diagnostic) : Bool := d.severity = .error

def reportLine (d : Diagnostic) : LooseText :=
  let code : LooseText := match d.code with
    | some code => if code = [] then [] else " [" ++ code ++ "]"
    | none => []
  s!"  {d.line}:{d.column} - {d.severity.name}" ++ code ++ ": " ++ d.message

end Diagnostic

end ProjectCheck
