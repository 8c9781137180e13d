import ProjectCheck.Failure

/-!
Diagnostics as language servers publish them. They are JSON values of any shape, so showing one can
fail: a value without members, or a place or severity that is no number.
-/
namespace ProjectCheck.Published

def severityWord (n : Int) : String :=
  if n = 1 then "error"
  else if n = 2 then "warning"
  else if n = 3 then "information"
  else if n = 4 then "hint"
  else "issue"

def severityName (diagnostic : Json) : Except Failure String := do
  match (← diagnostic.members).get? "severity" with
  | none | some .null => return "issue"
  | some severity => return severityWord (← severity.toInteger)

def position (diagnostic : Json) : Except Failure (Int × Int) := do
  let range := ((← diagnostic.members).get? "range").getD (.object [])
  let start := ((← range.members).get? "start").getD (.object [])
  let line ← (((← start.members).get? "line").getD (.int 0)).toInteger
  let column ← (((← start.members).get? "character").getD (.int 0)).toInteger
  return (line + 1, column + 1)

def codeText : Option Json → LooseText
  | none | some .null => []
  | some code => if code.asString? = some "" then [] else " [" ++ code.plain ++ "]"

def sourceText : Option Json → LooseText
  | some source => if source.isTruthy then " (" ++ source.plain ++ ")" else []
  | none => []

def messageText (message : Option Json) : LooseText :=
  (message.getD (.string "Unknown issue")).plain.map fun code =>
    if code = .char '\n' then .char ' ' else code

def reportLine (diagnostic : Json) : Except Failure LooseText := do
  let (line, column) ← position diagnostic
  let severity ← severityName diagnostic
  let members ← diagnostic.members
  let code := codeText (members.get? "code")
  let source := sourceText (members.get? "source")
  let message := messageText (members.get? "message")
  let line ← writeInteger line
  let column ← writeInteger column
  return s!"  {line}:{column} - {severity}" ++ code ++ ": " ++ message ++ source

def hasSeverity (n : Int) (diagnostic : Json) : Bool :=
  ((diagnostic.get? "severity").map (Json.equalsInt n)).getD false

end ProjectCheck.Published
