import ProjectCheck.Machine.Files

/-!
The root of a project, as language servers are told: the nearest directory above a file that has one
of the markers, if it is not too far up, else the file's own directory.
-/
namespace ProjectCheck

def rootMarkers : List LooseText :=
  ["tsconfig.json", "jsconfig.json", "package.json", "go.mod", "Cargo.toml", "pyproject.toml",
    "setup.py", "requirements.txt", ".git"]

def rootDepth : Nat := 100

def hasMarker (m : Machine) (markers : List LooseText) (directory : Path) : Bool :=
  markers.any fun marker =>
    match m.holds (directory.join (Path.ofText marker)) with
    | .ok found => found
    | .error _ => false

def ancestors : Nat → Path → List Path
  | 0, directory => [directory]
  | room + 1, directory =>
    if directory.parent = directory then [directory]
    else directory :: ancestors room directory.parent

def nearestRoot (m : Machine) (markers : List LooseText) (start : Path) : Path :=
  ((ancestors rootDepth start).find? (hasMarker m markers)).getD start

def findProjectRoot (m : Machine) (start : Path) (markers : List LooseText) :
    Except Failure String := do
  let directory := if ← m.holdsDirectory start then start else start.parent
  m.uriOf (nearestRoot m markers directory)

end ProjectCheck
