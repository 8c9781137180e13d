import ProjectCheck.Log.Level
import ProjectCheck.Machine.Files
import ProjectCheck.Settings.Home
import ProjectCheck.Text.Integer
import ProjectCheck.Text.LetterCase

/-!
Where a run is logged: to a file in the program's directory, from a level that the environment
chooses, or nowhere when the file cannot be written.
-/
namespace ProjectCheck

open Text

def Machine.logLevel (m : Machine) : Level :=
  if m.lookupVariable "DEBUG_MODE" = some "true" then .debug
  else (Level.ofName? (asciiUpper ((m.lookupVariable "LOG_LEVEL").getD "WARNING"))).getD .warning

def defaultMaxBytes : Int := 10 * 1024 * 1024

inductive LogTarget where
  | nowhere
  | file (location : List LooseText) (level : Level) (maxBytes : Int)

namespace Machine

/-- Makes a directory and those that it is in. There is no result where something else is in the
way. -/
def makeDirectory (m : Machine) (path : Path) : Option Machine :=
  match m.find path.text with
  | .ok (_, node) => if node.isDirectory then some m else none
  | .error .missing =>
    if (m.files.at? (m.placeFor path)).isSome then none
    else if _ : path.parts = [] then none
    else (makeDirectory m path.parent).map fun m => m.place path (.directory [])
  | .error _ => none
  termination_by path.parts.length
  decreasing_by
    simp only [Path.parent, List.length_dropLast]
    have := List.length_pos_iff.2 ‹¬path.parts = []›
    omega

def openForAppending (m : Machine) (path : Path) : Option (Machine × List LooseText) :=
  match m.find path.text with
  | .ok (location, node) => if node.isFile then some (m, location) else none
  | .error .missing =>
    let location := (m.files.realPath m.workingDirectory path.text).parts
    match m.files.at? location.dropLast with
    | some (.directory _) =>
      some ({ m with files := Node.put (.file []) location m.files }, location)
    | _ => none
  | .error _ => none

def maxLogBytes (m : Machine) : Except Failure Int :=
  match m.lookupVariable "LOG_MAX_BYTES" with
  | some text => ofIntegerFault (readInteger text)
  | none => .ok defaultMaxBytes

def setUpLog : Run Machine LogTarget := do
  let m ← get
  let maxBytes ← .ofExcept m.maxLogBytes
  let directory ← .ofExcept m.logDirectory
  match m.makeDirectory directory with
  | none => return .nowhere
  | some m =>
    set m
    let file ← .ofExcept m.logFile
    match m.openForAppending file with
    | none => return .nowhere
    | some (m, location) =>
      set m
      return .file location m.logLevel maxBytes

def appendLine (target : LogTarget) (level : Level) (line : LooseText) : Run Machine Unit := do
  match target, line.string? with
  | .file location lowest _, some text =>
    if level.reaches lowest then
      modify fun m => match m.files.at? location with
        | some (.file content) =>
          { m with files := Node.put (.file (content ++ utf8 (text ++ "\n"))) location m.files }
        | _ => m
  | _, _ => return

end Machine

end ProjectCheck
