import ProjectCheck.Text.Integer
import ProjectCheck.Text.Line
import ProjectCheck.ToolResult

/-!
Parts of the lines that checkers print, and the reading of whole outputs. A line that does not have
a checker's form says nothing; the numbers of a line that does are read afterwards, the line number
first.
-/
namespace ProjectCheck.Checker

open Text

structure Finding where
  file : List Char
  line : List Char
  column : List Char
  severity : Severity
  code : Option (List Char)
  message : List Char
  deriving Repr, DecidableEq

def Finding.diagnostic (f : Finding) : Except IntegerFault Diagnostic := do
  let line ← readDigits f.line
  let column ← readDigits f.column
  return {
    file := String.ofList f.file
    line := line
    column := column
    message := String.ofList f.message
    severity := f.severity
    code := f.code.map fun code => String.ofList code }

def readOutput (tool : String) (readLine : List Char → Option Finding) (output : String) :
    Except IntegerFault ToolResult := do
  let diagnostics ← ((splitLines output.toList).filterMap readLine).mapM Finding.diagnostic
  return ToolResult.ofDiagnostics diagnostics (some tool)

def after? : List Char → List Char → Option (List Char)
  | [], s => some s
  | c :: word, d :: s => if c = d then after? word s else none
  | _ :: _, [] => none

def digits? (s : List Char) : Option (List Char × List Char) :=
  let run := s.takeWhile isDigit
  if run.isEmpty then none else some (run, s.dropWhile isDigit)

def afterBlanks? (s : List Char) : Option (List Char) :=
  match s with
  | c :: rest => if isBlank c then some (dropBlanks rest) else none
  | [] => none

/-- The message after a run of blanks, at least one of each. When nothing but blanks is left, the
last of them is the message. -/
def messageAfterBlanks? (s : List Char) : Option (List Char) :=
  match afterBlanks? s with
  | none => none
  | some [] => if s.length ≥ 2 then s.getLast?.map ([·]) else none
  | some message => some message

def word? {α : Type} (words : List (String × α)) (s : List Char) : Option (α × List Char) :=
  words.findSome? fun (word, value) => (after? word.toList s).map (value, ·)

def severityWords : List (String × Severity) := [("error", .error), ("warning", .warning)]

def splitFirst {α : Type} (readRest : List Char → Option α) :
    List Char → Option (List Char × α)
  | [] => (readRest []).map ([], ·)
  | c :: rest =>
    match readRest (c :: rest) with
    | some a => some ([], a)
    | none => (splitFirst readRest rest).map fun found => (c :: found.1, found.2)

def splitLast {α : Type} (readRest : List Char → Option α) :
    List Char → Option (List Char × α)
  | [] => (readRest []).map ([], ·)
  | c :: rest =>
    match splitLast readRest rest with
    | some found => some (c :: found.1, found.2)
    | none => (readRest (c :: rest)).map ([], ·)

/-- Puts back the first character of a text whose rest was split, so that the first part of the
split is not empty. -/
def nonemptySplit {α : Type} (split : List Char → Option (List Char × α)) :
    List Char → Option (List Char × α)
  | [] => none
  | c :: rest => (split rest).map fun found => (c :: found.1, found.2)

def numberThen? (mark : Char) (s : List Char) : Option (List Char × List Char) := do
  let (run, rest) ← digits? s
  let rest ← after? [mark] rest
  return (run, rest)

end ProjectCheck.Checker
