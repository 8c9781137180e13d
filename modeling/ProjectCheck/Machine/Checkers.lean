import ProjectCheck.Checker.Cargo
import ProjectCheck.Checker.GoVet
import ProjectCheck.Checker.Mypy
import ProjectCheck.Checker.Pylint
import ProjectCheck.Checker.Tsc
import ProjectCheck.Machine.Files
import ProjectCheck.Machine.Tool
import ProjectCheck.Strategy

/-!
The checkers of the four languages. Each looks for the marker of its language, runs its tool, and
reads what the tool said. Python has two tools, of which the second is run only where the first is
not found. Which checker a directory is for is told by the markers that it holds.
-/
namespace ProjectCheck

structure CheckTool where
  name : String
  arguments : List String
  streams : List OutputStream
  read : String → Except Failure ToolResult

namespace CheckTool

def tsc : CheckTool where
  name := "tsc"
  arguments := ["--noEmit", "--pretty", "false"]
  streams := OutputStream.usual
  read text := ofIntegerFault (Checker.Tsc.read text)

def goVet : CheckTool where
  name := "go"
  arguments := ["vet", "./..."]
  streams := [.stderr, .stdout]
  read text := ofIntegerFault (Checker.GoVet.read text)

def cargo : CheckTool where
  name := "cargo"
  arguments := ["check", "--message-format=json"]
  streams := OutputStream.usual
  read := Checker.Cargo.read

/-- The error stream holds complaints about usage and configuration, which are no findings. -/
def mypy : CheckTool where
  name := "mypy"
  arguments := [".", "--ignore-missing-imports", "--show-column-numbers", "--show-error-codes",
    "--no-error-summary", "--no-pretty"]
  streams := [.stdout]
  read text := ofIntegerFault (Checker.Mypy.read text)

def pylint : CheckTool where
  name := "pylint"
  arguments := ["--output-format=text", "--score=no", "--recursive=y", "."]
  streams := OutputStream.usual
  read text := ofIntegerFault (Checker.Pylint.read text)

def conclude (tool : CheckTool) (outcome : Outcome) : Run Machine ToolResult := do
  let verdict := outcome.verdict tool.streams
  if verdict = .silent then
    Machine.log .warning s!"{tool.name} failed without producing any output"
  .ofExcept (verdict.result tool.name tool.read)

def run (tool : CheckTool) (directory : Path) (timeout : Timeout) : Run Machine Outcome :=
  Machine.runTool tool.name tool.arguments directory timeout

end CheckTool

namespace Language

def noMarkerLog (directory : LooseText) : Language → String
  | typescript => s!"Skipping tsc for {directory}: no tsconfig.json"
  | go => s!"Skipping go vet for {directory}: no go.mod"
  | rust => s!"Skipping cargo check for {directory}: no Cargo.toml"
  | python => s!"Skipping Python checks for {directory}: no project files"

def noMarkerReason : Language → String
  | typescript => "no tsconfig.json found in directory"
  | go => "no go.mod found in directory"
  | rust => "no Cargo.toml found in directory"
  | python => "no Python project files found (pyproject.toml, requirements.txt, or setup.py)"

def onlyTool : Language → Option CheckTool
  | typescript => some .tsc
  | go => some .goVet
  | rust => some .cargo
  | python => none

def runPythonTools (directory : Path) (timeout : Timeout) : Run Machine ToolResult := do
  let outcome ← CheckTool.mypy.run directory timeout
  if outcome.kind ≠ .missing then return ← CheckTool.mypy.conclude outcome
  let outcome ← CheckTool.pylint.run directory timeout
  if outcome.kind ≠ .missing then return ← CheckTool.pylint.conclude outcome
  return .skip "neither mypy nor pylint found in PATH" none

def check (language : Language) (directory : Path) (timeout : Option Timeout) :
    Run Machine ToolResult := do
  if !(← .ofExcept ((← get).holdsAny directory language.markers)) then
    Machine.log .info (language.noMarkerLog directory.text)
    return .skip language.noMarkerReason (language.onlyTool.map fun tool => tool.name)
  match language.onlyTool with
  | some tool => tool.conclude (← tool.run directory (.orUsual timeout))
  | none => runPythonTools directory (.orUsual timeout)

end Language

def detectAmong (m : Machine) (directory : Path) : List Language → Except Failure ProjectType
  | [] => .ok none
  | language :: rest =>
    match m.holdsAny directory language.markers with
    | .ok true => .ok (some language)
    | .ok false => detectAmong m directory rest
    | .error failure => .error failure

def detectProjectType (m : Machine) (directory : Path) : Except Failure ProjectType :=
  detectAmong m directory Language.all

def Strategy.resolve (strategy : Strategy) (directory : Path) : Run Machine Strategy := do
  match strategy with
  | .auto =>
    let kind ← .ofExcept (detectProjectType (← get) directory)
    let chosen := Strategy.ofProjectType kind
    Machine.log .debug
      s!"Detected {kind.name} project in {directory.text}, using {chosen.name}"
    return chosen
  | chosen => return chosen

end ProjectCheck
