import ProjectCheck.Checker.Line

/-!
Lines of go vet, `file:line:column: message`. The file is as short as possible. Findings are not
graded, so all of them are warnings.
-/
namespace ProjectCheck.Checker.GoVet

open Text

def toolName : String := "go"

structure Rest where
  line : List Char
  column : List Char
  message : List Char

def readRest? (s : List Char) : Option Rest := do
  let s ← after? ".go:".toList s
  let (line, s) ← numberThen? ':' s
  let (column, s) ← numberThen? ':' s
  let message ← messageAfterBlanks? s
  return ⟨line, column, message⟩

def readLine (s : List Char) : Option Finding := do
  let (stem, rest) ← nonemptySplit (splitFirst readRest?) s
  return ⟨stem ++ ".go".toList, rest.line, rest.column, .warning, none, rest.message⟩

def read (output : String) : Except IntegerFault ToolResult := readOutput toolName readLine output

def writeLine (d : Diagnostic) : String :=
  s!"{d.file}:{d.line}:{d.column}: {d.message}"

end ProjectCheck.Checker.GoVet
