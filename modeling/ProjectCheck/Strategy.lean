import ProjectCheck.Failure

/-!
How a directory is checked. Four languages have a checker of their own, chosen by the files at the
top of a project; everything else is left to language servers.
-/
namespace ProjectCheck

inductive Language where
  | typescript
  | go
  | rust
  | python
  deriving Repr, DecidableEq

namespace Language

def all : List Language := [typescript, go, rust, python]

def projectTypeName : Language → String
  | typescript => "typescript"
  | go => "go"
  | rust => "rust"
  | python => "python"

def strategyName : Language → String
  | typescript => "tsc"
  | go => "go"
  | rust => "rust"
  | python => "python"

def ofStrategyName? (name : String) : Option Language :=
  all.find? fun language => language.strategyName = name

def markers : Language → List LooseText
  | typescript => ["tsconfig.json"]
  | go => ["go.mod"]
  | rust => ["Cargo.toml"]
  | python => ["pyproject.toml", "requirements.txt", "setup.py"]

def displayName : Language → String
  | typescript => "TypeScript"
  | go => "Go"
  | rust => "Rust"
  | python => "Python"

def checkName : Language → String
  | typescript => "TypeScript check"
  | go => "Go vet"
  | rust => "Cargo check"
  | python => "Python"

end Language

abbrev ProjectType := Option Language

def ProjectType.name : ProjectType → String
  | some language => language.projectTypeName
  | none => "unknown"

inductive Strategy where
  | checker (language : Language)
  | lsp
  | auto
  deriving Repr, DecidableEq

namespace Strategy

def name : Strategy → String
  | checker language => language.strategyName
  | lsp => "lsp"
  | auto => "auto"

def ofName? (name : String) : Option Strategy :=
  if name = "lsp" then some lsp
  else if name = "auto" then some auto
  else (Language.ofStrategyName? name).map checker

theorem ofName?_name (s : Strategy) : ofName? s.name = some s := by
  cases s with
  | checker language => cases language <;> decide
  | lsp => rfl
  | auto => rfl

def ofValue (value : Json) : Except Failure Strategy :=
  match value.asString?.bind ofName? with
  | some strategy => .ok strategy
  | none => .error (.notAMember (String.ofList value.shownChars) "DiagnosticsStrategy")

def ofProjectType : ProjectType → Strategy
  | some language => checker language
  | none => lsp

end Strategy

inductive Reported where
  | checker (language : Language)
  | lsp
  | skipped
  deriving Repr, DecidableEq

namespace Reported

def name : Reported → String
  | checker language => language.strategyName
  | lsp => "lsp"
  | skipped => "skipped"

def ofName? (name : String) : Option Reported :=
  if name = "lsp" then some lsp
  else if name = "skipped" then some skipped
  else (Language.ofStrategyName? name).map checker

def ofValue (value : Json) : Except Failure Reported :=
  match value.asString?.bind ofName? with
  | some reported => .ok reported
  | none => .error (.notAMember (String.ofList value.shownChars) "ReportedStrategy")

def shown (reported : Reported) : String :=
  let upper := String.ofList (reported.name.toList.map Char.toUpper)
  s!"<ReportedStrategy.{upper}: {Text.quote reported.name}>"

end Reported

end ProjectCheck
