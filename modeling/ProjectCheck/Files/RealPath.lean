import ProjectCheck.Files.Tree

/-!
Real paths. The real path of a path has no dots and no links in it. It exists for every path: names
that lead to nothing are kept, and at a link that leads back to itself what is left of the text is
put after the link as it stands, so that a second slash there starts again from the root.
-/
namespace ProjectCheck

/-- One name after those of a stack, last name first: a dot adds nothing and a double dot takes the
last name away. -/
def collapseStep (stack : List LooseText) (name : LooseText) : List LooseText :=
  if name = "." then stack else if name = ".." then stack.tail else name :: stack

def collapse (names : List LooseText) : List LooseText :=
  (names.foldl collapseStep []).reverse

namespace Path

def pieces (text : LooseText) : List LooseText := splitOn (.char '/') text

def above (path : Path) : Path :=
  if path.isAbsolute || path.parts.any (· ≠ "..") then path.parent else path.child ".."

def locationFrom (start : List LooseText) (path : Path) : List LooseText :=
  collapse (if path.isAbsolute then path.parts else start ++ path.parts)

def joinPieces (path : Path) (pieces : List LooseText) : Path :=
  path.join (ofText (joined pieces))

end Path

abbrev LinksMet := List (Path × Option Path)

structure RealWalk where
  path : Path
  met : LinksMet
  complete : Bool

/-- Follows the pieces of a text and the links that they lead to, from a path that is itself taken
from `start`. The fuel bounds how many links are followed inside one another. -/
def Node.realWalk (root : Node) (start : List LooseText) (fuel : Nat) (met : LinksMet)
    (path : Path) :
    List LooseText → RealWalk
  | [] => ⟨path, met, true⟩
  | name :: rest =>
    if name = [] || name = "." then root.realWalk start fuel met path rest
    else if name = ".." then root.realWalk start fuel met path.above rest
    else
      let next := path.child name
      match root.at? (next.locationFrom start) with
      | some (.link target) =>
        match met.lookup next with
        | some (some real) => root.realWalk start fuel met real rest
        | some none => ⟨next.joinPieces rest, met, false⟩
        | none =>
          match fuel with
          | 0 => ⟨next.joinPieces rest, met, false⟩
          | fuel + 1 =>
            let inner := root.realWalk start fuel ((next, none) :: met)
              (if isAbsoluteText target then .ofLocation [] else path) (Path.pieces target)
            if inner.complete then
              root.realWalk start (fuel + 1) ((next, some inner.path) :: inner.met) inner.path rest
            else ⟨inner.path.joinPieces rest, inner.met, false⟩
      | _ => root.realWalk start fuel met next rest
  termination_by pieces => (fuel, pieces.length)

mutual

def Node.linkCount : Node → Nat
  | .file _ => 0
  | .link _ => 1
  | .directory entries => Node.linkCountAll entries

def Node.linkCountAll : List (LooseText × Node) → Nat
  | [] => 0
  | (_, node) :: rest => node.linkCount + Node.linkCountAll rest

end

/-- The real path of a path text that is taken from `start`. A link may be met by its own path and
by those that first lead out of `start`. -/
def Node.realPath (root : Node) (start : List LooseText) (text : LooseText) : Path :=
  let fuel := root.linkCount * (start.length + 2)
  let origin : Path := if isAbsoluteText text then .ofLocation [] else ⟨0, []⟩
  let reached := (root.realWalk start fuel [] origin (Path.pieces text)).path
  ⟨max 1 reached.slashes, reached.locationFrom start⟩

end ProjectCheck
