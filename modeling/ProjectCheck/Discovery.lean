import ProjectCheck.Machine.Files
import ProjectCheck.Server.Spec

/-!
Finding files by their extension. A directory is walked in the order of the names in it, each
directory in its place. Links to directories and ignored directories are not entered; links to files
count as files. What cannot be read is passed over. Directories inside one another are walked by
calls inside one another, so that a walk breaks off where the stack has no room for one more.
-/
namespace ProjectCheck

open Text

structure Search where
  extensions : List LooseText
  ignored : List LooseText

def Search.of (extensions ignored : List LooseText) : Search := ⟨extensions.map lower, ignored⟩

def Search.wants (search : Search) (path : Path) : Bool := search.extensions.contains path.extension

/-- Something met on a walk: a wanted file, something that could not be read, or a directory that
there is no room to go into. -/
inductive Sighting where
  | file (path : Path)
  | unreadable (text : String)
  | tooDeep
  deriving Repr, DecidableEq

def Sighting.file? : Sighting → Option Path
  | file path => some path
  | unreadable _ | tooDeep => none

def Sighting.text? : Sighting → Option String
  | unreadable text => some text
  | file _ | tooDeep => none

mutual

def Node.sorted : Node → Node
  | .directory entries =>
    .directory ((Node.sortedEntries entries).mergeSort fun a b => decide (a.1 ≤ b.1))
  | other => other

def Node.sortedEntries : List (LooseText × Node) → List (LooseText × Node)
  | [] => []
  | (name, node) :: rest => (name, node.sorted) :: Node.sortedEntries rest

end

namespace Machine

/-- What a link counts as on a walk: a file if it leads to one. It is followed by its whole text, so
that the links before it count too. -/
def sightLink (m : Machine) (search : Search) (directory : Path) (name : LooseText) :
    List Sighting :=
  let path := directory.child name
  match m.find (directory.entryText name) with
  | .ok (_, .file _) => if search.wants path then [.file path] else []
  | .ok _ | .error .missing => []
  | .error fault =>
    let reason := fault.message (directory.entryText name)
    [.unreadable s!"Skipping unreadable path {path.text}: {reason}"]

def skippedDirectory (path : Path) (reason : String) : Sighting :=
  .unreadable s!"Skipping unreadable directory {path.text}: {reason}"

mutual

/-- What is met below a directory that is reached by `path` and stands at `location`, with room to
go down `room` directories more. A path may have 4095 octets. -/
def sight (m : Machine) (search : Search) (room : Nat) (path : Path) (location : List LooseText) :
    Node → List Sighting
  | .directory entries =>
    if path.text.octets.length > 4095 then
      [skippedDirectory path (LookupFault.nameTooLong.message path.text)]
    else if m.unlistable.contains location then
      [skippedDirectory path (Failure.unlistable path.text).message]
    else m.sightEntries search room path location entries
  | _ => [skippedDirectory path (LookupFault.notDirectory.message path.text)]

def sightEntries (m : Machine) (search : Search) (room : Nat) (path : Path)
    (location : List LooseText) : List (LooseText × Node) → List Sighting
  | [] => []
  | (name, .directory entries) :: rest =>
    (if search.ignored.contains name then []
      else if room = 0 then [.tooDeep]
      else m.sight search (room - 1) (path.child name) (location ++ [name]) (.directory entries)) ++
      m.sightEntries search room path location rest
  | (name, .file _) :: rest =>
    (if search.wants (path.child name) then [.file (path.child name)] else []) ++
      m.sightEntries search room path location rest
  | (name, .link _) :: rest =>
    m.sightLink search path name ++ m.sightEntries search room path location rest

end

def encounters (m : Machine) (search : Search) (directory : Path) :
    Except Failure (List Sighting) :=
  match m.find directory.text with
  | .ok (location, node) => .ok (m.sight search m.walkRoom directory location node.sorted)
  | .error .zeroByte => .error (.lookup .zeroByte directory.text)
  | .error .unencodable => .error (.lookup .unencodable directory.text)
  | .error fault => .ok [skippedDirectory directory (fault.message directory.text)]

def sightings (m : Machine) (search : Search) (directory : Path) :
    Except Failure (List Sighting) := do
  let met ← m.encounters search directory
  if .tooDeep ∈ met then .error .tooDeep else return met

/-- The wanted files below a directory, in the order of the walk. What is passed over is said, up to
where the walk ends or breaks off. -/
def findFiles (directory : Path) (search : Search) : Run Machine (List Path) := do
  let m ← get
  let met ← .ofExcept (m.encounters search directory)
  ((met.takeWhile (· ≠ .tooDeep)).filterMap Sighting.text?).forM (log .debug)
  return (← .ofExcept (m.sightings search directory)).filterMap Sighting.file?

end Machine

end ProjectCheck
