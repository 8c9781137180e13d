import ProjectCheck.Checker.Line

/-!
Lines of mypy, `file:line:column: severity: message [code]` with column and code optional. The file
is as short as possible, then the message; notes belong to another diagnostic and are left out.
-/
namespace ProjectCheck.Checker.Mypy

open Text

def toolName : String := "mypy"

def gradeWords : List (String × Option Severity) := [
  ("error", some .error), ("warning", some .warning), ("note", none)]

def codeAtEnd? (s : List Char) : Option (Option (List Char)) :=
  if s.isEmpty then some none
  else do
    let s ← afterBlanks? s
    let s ← after? ['['] s
    let code := s.takeWhile (· ≠ ']')
    if code.isEmpty || s.drop code.length ≠ [']'] then none else some (some code)

structure Rest where
  line : List Char
  column : List Char
  grade : Option Severity
  code : Option (List Char)
  message : List Char

def column? (s : List Char) : List Char × List Char :=
  match numberThen? ':' s with
  | some (column, rest) => (column, rest)
  | none => ([], s)

def afterExtension? (s : List Char) : Option (List Char) := do
  let s ← after? ".py".toList s
  return (after? ['i'] s).getD s

def readRest? (s : List Char) : Option (List Char × Rest) := do
  let afterFile ← afterExtension? s
  let extension := s.take (s.length - afterFile.length)
  let s ← after? [':'] afterFile
  let (line, s) ← numberThen? ':' s
  let (column, s) := column? s
  let s ← after? [' '] s
  let (grade, s) ← word? gradeWords s
  let s ← after? [':', ' '] s
  let (message, code) ← nonemptySplit (splitFirst codeAtEnd?) s
  return (extension, ⟨line, column, grade, code, message⟩)

def readLine (s : List Char) : Option Finding := do
  let (stem, extension, rest) ← nonemptySplit (splitFirst readRest?) s
  let severity ← rest.grade
  return ⟨stem ++ extension, rest.line, rest.column, severity, rest.code, rest.message⟩

def read (output : String) : Except IntegerFault ToolResult := readOutput toolName readLine output

def writeLine (withColumn : Bool) (d : Diagnostic) : String :=
  let column := if withColumn then toString d.column ++ ":" else ""
  let code := match d.code with
    | some code => "  [" ++ code ++ "]"
    | none => ""
  s!"{d.file}:{d.line}:{column} {d.severity.name}: {d.message}{code}"

end ProjectCheck.Checker.Mypy
