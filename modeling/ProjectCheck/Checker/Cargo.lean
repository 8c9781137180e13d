import ProjectCheck.Failure
import ProjectCheck.Text.Line
import ProjectCheck.ToolResult

/-!
Output of cargo check: one JSON record a line. Compiler messages of errors and warnings are kept,
each at its first primary span; those without one, and all other records and lines, say nothing.
-/
namespace ProjectCheck.Checker.Cargo

open Text

def toolName : String := "cargo"

def primarySpan? : Json → Option (Members Json)
  | .array spans => spans.findSome? fun span =>
    match span with
    | .object members =>
      if (Members.get? "is_primary" members).any Json.isTruthy then some members else none
    | _ => none
  | _ => none

def level? (message : Members Json) : Option Severity :=
  (message.get? "level").bind Json.asString? |>.bind Severity.ofName?

def compilerMessage? (record : Json) : Option (Members Json) := do
  let members ← record.asObject?
  let reason ← members.get? "reason" >>= Json.asString?
  if reason ≠ "compiler-message" then none
  else members.get? "message" >>= Json.asObject?

def codeOf (message : Members Json) : Json :=
  match message.get? "code" with
  | some (.object code) =>
    let value := (Members.get? "code" code).getD .null
    if value.isTruthy then value else .null
  | _ => .null

/-- The diagnostic of a message with its severity and its span. The span's places are read first,
then all fields are checked. -/
def diagnosticOf (message : Members Json) (severity : Severity) (span : Members Json) :
    Except Failure Diagnostic := do
  let line ← ((span.get? "line_start").getD (.int 0)).toInteger
  let column ← ((span.get? "column_start").getD (.int 0)).toInteger
  (Diagnostic.ofFields [
    ("file", ((span.get? "file_name").getD (.string "")).toText),
    ("line", .int line), ("column", .int column),
    ("severity", .string severity.name), ("code", codeOf message),
    ("message", ((message.get? "message").getD (.string "")).toText)]).orFail
    Diagnostic.modelName

def ofRecord (record : Json) : Except Failure (Option Diagnostic) :=
  match (do
    let message ← compilerMessage? record
    let severity ← level? message
    let span ← primarySpan? ((message.get? "spans").getD .null)
    return (message, severity, span)) with
  | none => .ok none
  | some (message, severity, span) => (diagnosticOf message severity span).map some

def readLine (line : List Char) : Except Failure (Option Diagnostic) :=
  let body := trimBlanks line
  if body.isEmpty then .ok none
  else match Json.parse (String.ofList body) with
    | .ok record => ofRecord record
    | .error .malformedJson => .ok none
    | .error failure => .error failure

def read (output : String) : Except Failure ToolResult := do
  let diagnostics ← (splitLines output.toList).mapM readLine
  return ToolResult.ofDiagnostics (diagnostics.filterMap id) (some toolName)

end ProjectCheck.Checker.Cargo
