import ProjectCheck.Text.Loose

/-!
Paths as texts. A path is kept as its root and its parts; empty parts and single dots are dropped,
and nothing else is simplified, since a double dot may stand behind a link.
-/
namespace ProjectCheck

structure Path where
  slashes : Nat
  parts : List LooseText
  deriving Repr, DecidableEq, Inhabited

namespace Path

def leadingSlashes (text : LooseText) : Nat :=
  match (text.takeWhile (· = .char '/')).length with
  | 0 => 0
  | 2 => 2
  | _ => 1

def splitOn {α : Type} [DecidableEq α] (separator : α) : List α → List (List α)
  | [] => [[]]
  | c :: rest =>
    if c = separator then [] :: splitOn separator rest
    else match splitOn separator rest with
      | [] => [[c]]
      | first :: more => (c :: first) :: more

def names (text : LooseText) : List LooseText :=
  (splitOn (.char '/') text).filter fun name => name ≠ [] ∧ name ≠ "."

def ofText (text : LooseText) : Path :=
  ⟨leadingSlashes text, names text⟩

def ofLocation (names : List LooseText) : Path := ⟨1, names⟩

def joined (names : List LooseText) : LooseText := [.char '/'].intercalate names

def isAbsolute (path : Path) : Bool := path.slashes != 0

def text (path : Path) : LooseText :=
  if path.slashes = 0 ∧ path.parts.isEmpty then "."
  else List.replicate path.slashes (.char '/') ++ joined path.parts

def name (path : Path) : LooseText := path.parts.getLast?.getD []

def parent (path : Path) : Path := { path with parts := path.parts.dropLast }

def suffixOf (name : LooseText) : LooseText :=
  let ending := (name.reverse.takeWhile (· ≠ .char '.')).reverse
  let before := name.length - ending.length
  if ending.isEmpty || before ≤ 1 then [] else .char '.' :: ending

def suffix (path : Path) : LooseText := suffixOf path.name

def entryText (path : Path) (name : LooseText) : LooseText :=
  if path.isAbsolute && path.parts.isEmpty then path.text ++ name
  else path.text ++ .char '/' :: name

def child (path : Path) (name : LooseText) : Path := { path with parts := path.parts ++ [name] }

def join (path other : Path) : Path :=
  if other.isAbsolute then other else { path with parts := path.parts ++ other.parts }

end Path

end ProjectCheck
