import ProjectCheck.Strategy
import ProjectCheck.Survey
import ProjectCheck.ToolResult

/-!
Reports: what is shown for a directory. Diagnostics stand in blocks, one block a file, in the order
in which the files first come, and a summary counts them.
-/
namespace ProjectCheck

structure DirectoryReport where
  strategy : Reported
  success : Bool
  errorCount : Nat
  warningCount : Nat
  text : LooseText
  summary : LooseText
  deriving Repr, DecidableEq

def groupBy {α κ : Type} [DecidableEq κ] (key : α → κ) (items : List α) : List (κ × List α) :=
  (items.map key).eraseDups.map fun k => (k, items.filter fun item => key item = k)

namespace DirectoryReport

def modelName : String := "DirectoryDiagnosticResult"

def skip (summary : LooseText) : DirectoryReport where
  strategy := .skipped
  success := true
  errorCount := 0
  warningCount := 0
  text := []
  summary := summary

def ofSkip (summary : Json) : Checked DirectoryReport :=
  ((Check.string summary).within (.field "summary")).map skip

def statusWord (success : Bool) : String := if success then "passed" else "failed"

def checkName (language : Language) (tool : Option LooseText) : String :=
  match language, tool.bind (·.string?) with
  | .python, some "mypy" => "Mypy"
  | .python, some "pylint" => "Pylint"
  | language, _ => language.checkName

def fileBlock (file : LooseText) (diagnostics : List Diagnostic) : LooseText :=
  file ++ .char ':' :: .char '\n' :: diagnostics.flatMap fun d => d.reportLine ++ [.char '\n']

def blocks (diagnostics : List Diagnostic) : LooseText :=
  [.char '\n'].intercalate
    ((groupBy (·.file) diagnostics).map fun (file, group) => fileBlock file group)

def ofToolResult (language : Language) (result : ToolResult) : DirectoryReport :=
  match result.skipped with
  | some reason => skip (s!"{language.displayName} diagnostics skipped: " ++ reason)
  | none =>
    let name := checkName language result.tool
    if result.diagnostics.isEmpty then {
      strategy := .checker language
      success := result.success
      errorCount := result.errorCount
      warningCount := result.warningCount
      text := s!"No diagnostics found. {name} passed!"
      summary := s!"{name} passed: 0 errors, 0 warnings" }
    else {
      strategy := .checker language
      success := result.success
      errorCount := result.errorCount
      warningCount := result.warningCount
      text := blocks result.diagnostics
      summary := s!"{name} {statusWord result.success}: {result.errorCount} errors, " ++
        s!"{result.warningCount} warnings" }

def ofReported (reported : Reported) (result : ToolResult) : Except Failure DirectoryReport :=
  match reported with
  | .checker language => .ok (ofToolResult language result)
  | other => .error (.noEntry other.shown)

def findingsBlock (file : LooseText) (findings : List FileFinding) : Except Failure LooseText := do
  let lines ← findings.mapM fun finding => Published.reportLine finding.diagnostic
  return file ++ .char ':' :: .char '\n' :: [.char '\n'].intercalate lines

def findingsText (findings : List FileFinding) (filesChecked : LooseText) :
    Except Failure LooseText := do
  if findings.isEmpty then return "Checked " ++ filesChecked ++ " files. No diagnostics found!"
  let blocks ← (groupBy (·.file) findings).mapM fun (file, group) => findingsBlock file group
  return [.char '\n', .char '\n'].intercalate blocks

def findingsSummary (findings : List FileFinding) (tally : Tally) : LooseText :=
  let files := " (" ++ tally.filesChecked.plain ++ " files)"
  if findings.isEmpty then "LSP check passed: 0 errors, 0 warnings" ++ files
  else s!"LSP check {statusWord tally.success.isTruthy}: " ++ tally.errorCount.plain ++
    " errors, " ++ tally.warningCount.plain ++ " warnings" ++ files

def ofFindings (findings : List FileFinding) (tally : Tally) : Except Failure DirectoryReport := do
  let text ← findingsText findings tally.filesChecked.plain
  (((Check.bool tally.success).within (.field "success")).map (mk .lsp)
    |>.ap ((Check.count tally.errorCount).within (.field "error_count"))
    |>.ap ((Check.count tally.warningCount).within (.field "warning_count"))
    |>.map fun report => report text (findingsSummary findings tally)).orFail modelName

def ofSurvey (survey : Survey) : Except Failure DirectoryReport :=
  ofFindings survey.findings survey.tally

end DirectoryReport

end ProjectCheck
