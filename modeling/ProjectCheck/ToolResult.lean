import ProjectCheck.Diagnostic
import ProjectCheck.Json.Writer

/-!
The result of one run of a checker: its diagnostics with their counts, or the reason why there was
no run. A result is only accepted when its counts and its verdict agree with its diagnostics.
-/
namespace ProjectCheck

structure ToolResult where
  success : Bool := true
  diagnostics : List Diagnostic := []
  errorCount : Nat := 0
  warningCount : Nat := 0
  skipped : Option LooseText := none
  tool : Option LooseText := none
  deriving Repr, DecidableEq

namespace ToolResult

def modelName : String := "ToolResult"

def countErrors (diagnostics : List Diagnostic) : Nat := diagnostics.countP (·.isError)

def countWarnings (diagnostics : List Diagnostic) : Nat := diagnostics.countP (!·.isError)

def disagreement? (r : ToolResult) : Option String :=
  let errors := countErrors r.diagnostics
  let warnings := r.diagnostics.length - errors
  if r.errorCount ≠ errors ∨ r.warningCount ≠ warnings then
    some (s!"counts {r.errorCount}/{r.warningCount} do not match diagnostics {errors}/{warnings}")
  else if r.success ≠ (errors = 0 : Bool) then
    some "success must be true exactly when there are no errors"
  else if r.skipped.isSome ∧ r.diagnostics ≠ [] then
    some "a skipped result cannot carry diagnostics"
  else none

def checkAgreement (r : ToolResult) : Checked ToolResult :=
  match r.disagreement? with
  | some message => .fail (.value ("Value error, " ++ message))
  | none => .valid r

def ofFields (fields : Members Json) : Checked ToolResult :=
  ((fields.withDefault "success" .bool true).map mk
    |>.ap (fields.withDefault "diagnostics" (.list (.model Diagnostic.ofFields)) [])
    |>.ap (fields.withDefault "error_count" .count 0)
    |>.ap (fields.withDefault "warning_count" .count 0)
    |>.ap (fields.withDefault "skipped" (.optional .string) none)
    |>.ap (fields.withDefault "tool" (.optional .string) none)).andThen checkAgreement

def ofDiagnostics (diagnostics : List Diagnostic) (tool : Option LooseText) : ToolResult where
  success := countErrors diagnostics = 0
  diagnostics := diagnostics
  errorCount := countErrors diagnostics
  warningCount := countWarnings diagnostics
  tool := tool

def skip (reason : LooseText) (tool : Option LooseText) : ToolResult where
  skipped := some reason
  tool := tool

def crash (tool : LooseText) : ToolResult := ofDiagnostics [Diagnostic.crash tool] (some tool)

def toolOf (tool : Json) : Checked (Option LooseText) :=
  (Check.optional .string tool).within (.field "tool")

def ofRun (diagnostics : List Diagnostic) (tool : Json) : Checked ToolResult :=
  (toolOf tool).map (ofDiagnostics diagnostics)

def ofSkip (reason tool : Json) : Checked ToolResult :=
  ofFields [("skipped", reason), ("tool", tool)]

def ofCrash (tool : Json) : Checked ToolResult := ofRun [Diagnostic.crash tool.plain] tool

theorem countErrors_add_countWarnings (ds : List Diagnostic) :
    countErrors ds + countWarnings ds = ds.length := by
  simpa [countErrors, countWarnings] using
    (List.length_eq_countP_add_countP (·.isError) (l := ds)).symm

end ToolResult

end ProjectCheck
