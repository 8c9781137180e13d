import ProjectCheck.Server.Published

/-!
Surveys: the diagnostics that language servers published for the files of a directory, and how many
files were checked.
-/
namespace ProjectCheck

structure FileFinding where
  file : LooseText
  diagnostic : Json

structure Survey where
  findings : List FileFinding
  errorCount : Nat
  warningCount : Nat
  filesChecked : Nat

namespace Survey

def success (survey : Survey) : Bool := survey.errorCount = 0

def countSeverity (n : Int) (findings : List FileFinding) : Except Failure Nat := do
  let _ ← findings.mapM fun finding => finding.diagnostic.members
  return findings.countP fun finding => Published.hasSeverity n finding.diagnostic

def ofFindings (findings : List FileFinding) (filesChecked : Nat) : Except Failure Survey := do
  let errors ← countSeverity 1 findings
  let warnings ← countSeverity 2 findings
  return ⟨findings, errors, warnings, filesChecked⟩

end Survey

structure Tally where
  success : Json
  errorCount : Json
  warningCount : Json
  filesChecked : Json

def Survey.tally (survey : Survey) : Tally where
  success := .bool survey.success
  errorCount := .int survey.errorCount
  warningCount := .int survey.warningCount
  filesChecked := .int survey.filesChecked

end ProjectCheck
