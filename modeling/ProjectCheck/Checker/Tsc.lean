import ProjectCheck.Checker.Line

/-!
Lines of the TypeScript compiler, `file(line,column): severity TSnumber: message`. The file reaches
as far as the line allows.
-/
namespace ProjectCheck.Checker.Tsc

open Text

def toolName : String := "tsc"

structure Rest where
  line : List Char
  column : List Char
  severity : Severity
  code : List Char
  message : List Char

def readRest? (s : List Char) : Option Rest := do
  let s ← after? ['('] s
  let (line, s) ← numberThen? ',' s
  let (column, s) ← numberThen? ')' s
  let s ← after? [':'] s
  let s ← afterBlanks? s
  let (severity, s) ← word? severityWords s
  let s ← afterBlanks? s
  let s ← after? ['T', 'S'] s
  let (number, s) ← numberThen? ':' s
  let message ← messageAfterBlanks? s
  return ⟨line, column, severity, 'T' :: 'S' :: number, message⟩

def readLine (s : List Char) : Option Finding := do
  let (file, rest) ← nonemptySplit (splitLast readRest?) s
  return ⟨file, rest.line, rest.column, rest.severity, some rest.code, rest.message⟩

def read (output : String) : Except IntegerFault ToolResult := readOutput toolName readLine output

def writeLine (d : Diagnostic) : String :=
  let code := d.code.getD ""
  s!"{d.file}({d.line},{d.column}): {d.severity.name} {code}: {d.message}"

end ProjectCheck.Checker.Tsc
