import ProjectCheck.Checker.Line

/-!
Lines of pylint, `file:line:column: code: message`, where a code is a capital letter and digits. The
file is as short as possible. Codes of errors and fatal errors start with E and F; all others are
warnings.
-/
namespace ProjectCheck.Checker.Pylint

open Text

def toolName : String := "pylint"

structure Rest where
  line : List Char
  column : List Char
  letter : Char
  number : List Char
  message : List Char

def capital? : List Char → Option (Char × List Char)
  | c :: rest => if c.isUpper then some (c, rest) else none
  | [] => none

def readRest? (s : List Char) : Option Rest := do
  let s ← after? ".py:".toList s
  let (line, s) ← numberThen? ':' s
  let (column, s) ← numberThen? ':' s
  let s ← after? [' '] s
  let (letter, s) ← capital? s
  let (number, s) ← numberThen? ':' s
  let message ← after? [' '] s
  if message.isEmpty then none else some ⟨line, column, letter, number, message⟩

def severityOf (letter : Char) : Severity :=
  if letter = 'E' ∨ letter = 'F' then .error else .warning

def readLine (s : List Char) : Option Finding := do
  let (stem, rest) ← nonemptySplit (splitFirst readRest?) s
  return ⟨stem ++ ".py".toList, rest.line, rest.column, severityOf rest.letter,
    some (rest.letter :: rest.number), rest.message⟩

def read (output : String) : Except IntegerFault ToolResult := readOutput toolName readLine output

def writeLine (d : Diagnostic) : String :=
  let code := d.code.getD ""
  s!"{d.file}:{d.line}:{d.column}: {code}: {d.message}"

end ProjectCheck.Checker.Pylint
