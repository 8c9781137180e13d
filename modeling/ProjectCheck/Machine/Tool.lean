import ProjectCheck.Machine.Command
import ProjectCheck.Outcome

/-!
Running tools. A tool that is not found is not run; otherwise the run is recorded, and its outcome
is what the tool said before it ended or its time was over.
-/
namespace ProjectCheck

open Text Decimal

inductive Timeout where
  | whole (seconds : Int)
  | real (seconds : Binary64)
  deriving Repr, DecidableEq

namespace Timeout

def usual : Timeout := .real (.ofInt 300)

def isZero : Timeout → Bool
  | whole n => n == 0
  | real x => !x.isNonzero

def orUsual : Option Timeout → Timeout
  | some t => if t.isZero then usual else t
  | none => usual

def seconds : Timeout → Binary64
  | whole n => .ofInt n
  | real x => x

def text : Timeout → String
  | whole n => toString n
  | real x => x.text

end Timeout

def PartialOutput.toText : PartialOutput → String
  | nothing => ""
  | text s => s
  | octets bytes => String.ofList (decodeUtf8Lossy bytes)

namespace Machine

def finish (tool command : String) (timeout : Timeout) (milliseconds : Binary64) :
    ToolBehaviour → Run Machine Outcome
  | .cannotStart cause => .fail (.notStarted cause command)
  | .timesOut stdout stderr => do
    log .warning s!"{tool} timed out after {timeout.text}s"
    return { kind := .timedOut, stdout := stdout.toText, stderr := stderr.toText, milliseconds }
  | .finishes exitCode stdout stderr => do
    log .debug s!"{tool} exited with {exitCode} after {milliseconds.wholeText} ms"
    return {
      kind := .completed
      stdout := stdout.getD ""
      stderr := stderr.getD ""
      exitCode := some exitCode
      milliseconds }

def runTool (tool : String) (arguments : List String) (directory : Path) (timeout : Timeout) :
    Run Machine Outcome := do
  let m ← get
  match m.resolveCommand tool with
  | none =>
    log .info s!"{tool} not found in PATH"
    return { kind := .missing }
  | some command =>
    let line := " ".intercalate arguments
    log .info s!"Running {tool} {line} in {directory.text}"
    record fun j => { j with
      calls := j.calls ++ [⟨command :: arguments, directory.text, timeout.seconds⟩] }
    finish tool command timeout (m.elapsed.mul (.ofInt 1000))
      ((m.tools.get? tool).getD (.finishes 0 (some "") (some "")))

end Machine

end ProjectCheck
