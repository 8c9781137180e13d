import ProjectCheck.Discovery
import ProjectCheck.Survey

/-!
Surveys of a directory by language servers. Each wanted file is opened in the session for it, there
is a wait, and some more while nothing was published for the file, and then its diagnostics are
read. A file whose steps fail is left out and does not disturb the others.
-/
namespace ProjectCheck

open Decimal

/-- What a survey works with: the sessions for files, what can be done with a session, waiting and
logging. -/
structure SurveyMeans (σ ι : Type) where
  session? : Path → Run σ (Option ι)
  openDocument : ι → Path → Run σ Unit
  hasPublished : ι → Path → Run σ Bool
  diagnostics : ι → Path → Run σ (List Json)
  sleep : Binary64 → Run σ Unit
  log : Level → String → Run σ Unit

/-- How long to wait for a file's diagnostics, and how many times more, unless what was given for
that is no number of times. -/
structure Patience where
  wait : Binary64
  retries : Except Failure Nat

namespace SurveyMeans

variable {σ ι : Type}

def awaitPublication (means : SurveyMeans σ ι) (wait : Binary64) (session : ι) (path : Path) :
    Nat → Run σ Unit
  | 0 => pure ()
  | retries + 1 => do
    if !(← means.hasPublished session path) then
      means.sleep wait
      means.awaitPublication wait session path retries

def collect (means : SurveyMeans σ ι) (patience : Patience) (path : Path) :
    Run σ (Option (List Json)) := do
  match ← means.session? path with
  | none => return none
  | some session =>
    means.openDocument session path
    means.sleep patience.wait
    means.awaitPublication patience.wait session path (← .ofExcept patience.retries)
    return some (← means.diagnostics session path)

def collectOrSkip (means : SurveyMeans σ ι) (patience : Patience) (path : Path) :
    Run σ (Option (List FileFinding)) := do
  match ← (means.collect patience path).attempt with
  | .ok found => return found.map fun diagnostics => diagnostics.map fun d => ⟨path.text, d⟩
  | .error failure =>
    means.log .warning s!"LSP diagnostics failed for {path.text}: {failure.message}"
    return none

def surveyFiles (means : SurveyMeans σ ι) (patience : Patience) (files : List Path) :
    Run σ Survey := do
  let found ← files.mapM (means.collectOrSkip patience)
  let checked := found.filterMap id
  .ofExcept (Survey.ofFindings checked.flatten checked.length)

def survey [HasMachine σ] (means : SurveyMeans σ ι) (patience : Patience) (ignored : List LooseText)
    (directory : Path) (extensions : List LooseText) : Run σ Survey := do
  let files ← (Machine.findFiles directory (.of extensions ignored)).onMachine
  means.log .info s!"LSP fallback: {files.length} candidate files under {directory.text}"
  means.surveyFiles patience files

end SurveyMeans

end ProjectCheck
