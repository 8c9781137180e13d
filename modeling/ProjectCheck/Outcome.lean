import ProjectCheck.Failure
import ProjectCheck.Text.Blank
import ProjectCheck.ToolResult

/-!
Outcomes of tool runs and what they mean. A tool that is not there was skipped, one that succeeded
found nothing, and one that failed is believed if it said anything; if it did not, the run itself is
reported as failed.
-/
namespace ProjectCheck

open Text Decimal

inductive OutcomeKind where
  | missing
  | completed
  | timedOut
  deriving Repr, DecidableEq

namespace OutcomeKind

def name : OutcomeKind → String
  | missing => "missing"
  | completed => "completed"
  | timedOut => "timed_out"

def ofName? : String → Option OutcomeKind
  | "missing" => some missing
  | "completed" => some completed
  | "timed_out" => some timedOut
  | _ => none

def ofValue (value : Json) : Except Failure OutcomeKind :=
  match value.asString?.bind ofName? with
  | some kind => .ok kind
  | none => .error (.notAMember (String.ofList value.shownChars) "ProcessOutcomeKind")

end OutcomeKind

inductive OutputStream where
  | stdout
  | stderr
  deriving Repr, DecidableEq

namespace OutputStream

def ofName? : String → Option OutputStream
  | "stdout" => some stdout
  | "stderr" => some stderr
  | _ => none

def ofValue (value : Json) : Except Failure OutputStream :=
  match value.asString?.bind ofName? with
  | some stream => .ok stream
  | none => .error (.notAMember (String.ofList value.shownChars) "OutputStream")

def usual : List OutputStream := [stdout, stderr]

end OutputStream

structure Outcome where
  kind : OutcomeKind
  stdout : String := ""
  stderr : String := ""
  exitCode : Option Int := none
  milliseconds : Binary64 := .zero false

namespace Outcome

def output (o : Outcome) : OutputStream → String
  | .stdout => o.stdout
  | .stderr => o.stderr

def succeeded (o : Outcome) : Bool := o.kind = .completed && o.exitCode = some 0

def said? (o : Outcome) (streams : List OutputStream) : Option String :=
  (streams.map o.output).find? fun text => !isBlankText text.toList

inductive Verdict where
  | notFound
  | clean
  | silent
  | said (text : String)
  deriving Repr, DecidableEq

def verdict (o : Outcome) (streams : List OutputStream) : Verdict :=
  if o.kind = .missing then .notFound
  else if o.succeeded then .clean
  else match o.said? streams with
    | some text => .said text
    | none => .silent

def Verdict.result (tool : String) (read : String → Except Failure ToolResult) :
    Verdict → Except Failure ToolResult
  | .notFound => .ok (.skip ("`" ++ tool ++ "` binary not found in PATH") (some tool))
  | .clean => .ok (.ofDiagnostics [] (some tool))
  | .silent => .ok (.crash tool)
  | .said text => read text

def classify (o : Outcome) (tool : String) (read : String → Except Failure ToolResult)
    (streams : List OutputStream) : Except Failure ToolResult :=
  (o.verdict streams).result tool read

end Outcome

end ProjectCheck
