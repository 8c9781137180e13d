import ProjectCheck.Machine.Checkers
import ProjectCheck.Proofs.Checker.Lines

/-!
The tools that check projects, what they do when they are run, and what comes of it.
-/
namespace ProjectCheck

open Text

inductive Tool where
  | tsc
  | goVet
  | cargo
  | mypy
  | pylint
  deriving Repr, DecidableEq

namespace Tool

def checkTool : Tool → CheckTool
  | tsc => .tsc
  | goVet => .goVet
  | cargo => .cargo
  | mypy => .mypy
  | pylint => .pylint

def language : Tool → Language
  | tsc => .typescript
  | goVet => .go
  | cargo => .rust
  | mypy | pylint => .python

def name (tool : Tool) : String := tool.checkTool.name

def streams (tool : Tool) : List OutputStream := tool.checkTool.streams

def readLine : Tool → List Char → Except Failure (Option Diagnostic)
  | tsc => Checker.reading Checker.Tsc.readLine
  | goVet => Checker.reading Checker.GoVet.readLine
  | cargo => Checker.Cargo.readLine
  | mypy => Checker.reading Checker.Mypy.readLine
  | pylint => Checker.reading Checker.Pylint.readLine

theorem read_eq (tool : Tool) (text : String) :
    tool.checkTool.read text = Checker.readLines tool.name tool.readLine text := by
  cases tool with
  | tsc => exact Checker.ofIntegerFault_readOutput _ _ text
  | goVet => exact Checker.ofIntegerFault_readOutput _ _ text
  | cargo => rfl
  | mypy => exact Checker.ofIntegerFault_readOutput _ _ text
  | pylint => exact Checker.ofIntegerFault_readOutput _ _ text

def ofLanguage : Language → List Tool
  | .typescript => [tsc]
  | .go => [goVet]
  | .rust => [cargo]
  | .python => [mypy, pylint]

def used? (language : Language) (m : Machine) : Option Tool :=
  (ofLanguage language).find? fun tool => (m.resolveCommand tool.name).isSome

/-- The tool is the one that is run for its language: it is found, and what is preferred to it is
not. -/
def IsUsed (tool : Tool) (m : Machine) : Prop :=
  (∃ command, m.resolveCommand tool.name = some command) ∧
    (tool = pylint → m.resolveCommand mypy.name = none)

theorem used?_eq_some_iff {language : Language} {tool : Tool} {m : Machine} :
    used? language m = some tool ↔ tool.language = language ∧ tool.IsUsed m := by
  rw [IsUsed, ← Option.isSome_iff_exists]
  cases language with
  | typescript | go | rust =>
    rw [used?, ofLanguage, List.find?_singleton]
    cases tool <;> simp [Tool.language, Option.isSome_iff_ne_none]
  | python =>
    rw [used?, ofLanguage, List.find?_cons, List.find?_singleton]
    cases hmypy : m.resolveCommand mypy.name <;> cases tool <;>
      simp [Tool.language, hmypy, Option.isSome_iff_ne_none]

end Tool

namespace ToolBehaviour

def fails : ToolBehaviour → Bool
  | finishes exitCode _ _ => exitCode ≠ 0
  | timesOut _ _ => true
  | cannotStart _ => false

def textOn : ToolBehaviour → OutputStream → String
  | finishes _ stdout _, .stdout => stdout.getD ""
  | finishes _ _ stderr, .stderr => stderr.getD ""
  | timesOut stdout _, .stdout => stdout.toText
  | timesOut _ stderr, .stderr => stderr.toText
  | cannotStart _, _ => ""

def said? (behaviour : ToolBehaviour) (streams : List OutputStream) : Option String :=
  (streams.map behaviour.textOn).find? fun text => !isBlankText text.toList

end ToolBehaviour

def Machine.behaviourOf (m : Machine) (tool : Tool) : ToolBehaviour :=
  (m.tools.get? tool.name).getD (.finishes 0 (some "") (some ""))

def Machine.CanStart (m : Machine) : Prop := ∀ tool cause, m.behaviourOf tool ≠ .cannotStart cause

namespace Tool

/-- What is concluded from a tool that failed: nothing but its failure when it is silent, else what
it said. -/
def conclusion (tool : Tool) (behaviour : ToolBehaviour) : Except Failure ToolResult :=
  match behaviour.said? tool.streams with
  | some text => tool.checkTool.read text
  | none => .ok (.crash tool.name)

def result (tool : Tool) : ToolBehaviour → Except Failure ToolResult
  | .cannotStart cause => .error (.notStarted cause ("/usr/bin/" ++ tool.name : String))
  | behaviour =>
    if behaviour.fails then tool.conclusion behaviour
    else .ok (.ofDiagnostics [] (some tool.name))

theorem result_eq {behaviour : ToolBehaviour} (hstarts : ∀ cause, behaviour ≠ .cannotStart cause)
    (tool : Tool) :
    tool.result behaviour = if behaviour.fails then tool.conclusion behaviour
      else .ok (.ofDiagnostics [] (some tool.name)) := by
  cases behaviour with
  | cannotStart cause => exact absurd rfl (hstarts cause)
  | timesOut _ _ | finishes _ _ _ => rfl

theorem result_of_fails {tool : Tool} {behaviour : ToolBehaviour}
    (hfails : behaviour.fails = true) : tool.result behaviour = tool.conclusion behaviour := by
  have hstarts : ∀ cause, behaviour ≠ .cannotStart cause := by
    rintro cause rfl
    cases hfails
  rw [result_eq hstarts, if_pos hfails]

/-- A run that comes to a result has found something or nothing. -/
theorem result_eq_ok {tool : Tool} {behaviour : ToolBehaviour} {result : ToolResult}
    (h : tool.result behaviour = .ok result) :
    ∃ diagnostics, result = .ofDiagnostics diagnostics (some tool.name) := by
  have hstarts : ∀ cause, behaviour ≠ .cannotStart cause := by
    rintro cause rfl
    cases h
  rw [result_eq hstarts] at h
  split at h
  · rw [conclusion] at h
    split at h
    · rw [read_eq] at h
      obtain ⟨diagnostics, hread, -⟩ | ⟨failure, hread, -⟩ :=
        Checker.readLines_cases tool.name tool.readLine _
      · exact ⟨diagnostics, (Except.ok.inj (hread.symm.trans h)).symm⟩
      · cases hread.symm.trans h
    · obtain rfl := Except.ok.inj h
      exact ⟨_, rfl⟩
  · obtain rfl := Except.ok.inj h
    exact ⟨[], rfl⟩

end Tool

end ProjectCheck
