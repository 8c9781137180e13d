import ProjectCheck.Files.Path
import ProjectCheck.Json.Basic
import ProjectCheck.Text.Utf8

/-!
File trees and the lookup of paths in them. A path is walked name by name from a directory; links
are followed at most forty times, a double dot leads to the parent of the directory reached, and
every failure has its cause.
-/
namespace ProjectCheck

inductive Node where
  | file (content : Bytes)
  | link (target : LooseText)
  | directory (entries : List (LooseText × Node))
  deriving Inhabited

inductive LookupFault where
  | missing
  | notDirectory
  | tooManyLinks
  | nameTooLong
  | zeroByte
  | unencodable
  deriving Repr, DecidableEq

namespace Node

def isDirectory : Node → Bool
  | directory _ => true
  | _ => false

def isFile : Node → Bool
  | file _ => true
  | _ => false

def entry? (name : LooseText) : Node → Option Node
  | directory entries => Members.get? name entries
  | _ => none

def at? (node : Node) : List LooseText → Option Node
  | [] => some node
  | name :: rest => (node.entry? name).bind fun next => next.at? rest

def put (new : Node) : List LooseText → Node → Node
  | [], _ => new
  | name :: rest, directory entries =>
    let inner := (Members.get? name entries).getD (directory [])
    directory (Members.set name (put new rest inner) entries)
  | name :: rest, _ => directory [(name, put new rest (directory []))]

def removeAt : List LooseText → Node → Node
  | [], node => node
  | [name], directory entries => directory (Members.erase name entries)
  | name :: rest, directory entries =>
    match Members.get? name entries with
    | some next => directory (Members.set name (removeAt rest next) entries)
    | none => directory entries
  | _, node => node

end Node

/-- How far a walk comes without following a link: to a place, to a failure, or to a link, with the
directory that holds it and the names that are left. -/
inductive Progress where
  | arrived (location : List LooseText)
  | failed (fault : LookupFault)
  | atLink (target : LooseText) (base rest : List LooseText)

def isLongName (name : LooseText) : Bool := name.octets.length > 255

def Node.advance (root : Node) (followLast : Bool) (location : List LooseText) :
    List LooseText → Progress
  | [] => .arrived location
  | name :: rest =>
    match root.at? location with
    | some (.directory entries) =>
      if name = "." then root.advance followLast location rest
      else if name = ".." then root.advance followLast location.dropLast rest
      else if isLongName name then .failed .nameTooLong
      else match Members.get? name entries with
        | none => .failed .missing
        | some (.link target) =>
          if rest.isEmpty && !followLast then .arrived (location ++ [name])
          else .atLink target location rest
        | some _ => root.advance followLast (location ++ [name]) rest
    | some _ => .failed .notDirectory
    | none => .failed .missing

/-- The steps of a path text: its names, single and double dots included, and a last dot when the
text ends with a slash, since only a directory may be named so. -/
def walkSteps (text : LooseText) : List LooseText :=
  let pieces := Path.splitOn (.char '/') text
  let names := pieces.filter (· ≠ [])
  if names.isEmpty then []
  else if pieces.getLast? = some [] then names ++ [("." : LooseText)] else names

def isAbsoluteText (text : LooseText) : Bool := text.head? = some (.char '/')

def Node.follow (root : Node) (followLast : Bool) :
    Nat → List LooseText → List LooseText → Except LookupFault (List LooseText)
  | budget, location, names =>
    match root.advance followLast location names with
    | .arrived location => .ok location
    | .failed fault => .error fault
    | .atLink target base rest =>
      if target = [] then .error .missing
      else match budget with
        | 0 => .error .tooManyLinks
        | budget + 1 =>
          root.follow followLast budget (if isAbsoluteText target then [] else base)
            (walkSteps target ++ rest)

def linkLimit : Nat := 40

def Node.locate (root : Node) (start : List LooseText) (text : LooseText) (followLast : Bool) :
    Except LookupFault (List LooseText) :=
  if text = [] then .error .missing
  else if !text.isEncodable then .error .unencodable
  else if text.contains (.char '\x00') then .error .zeroByte
  else if text.octets.length > 4095 then .error .nameTooLong
  else root.follow followLast linkLimit (if isAbsoluteText text then [] else start) (walkSteps text)

def Node.lookup (root : Node) (start : List LooseText) (text : LooseText) :
    Except LookupFault (List LooseText × Node) := do
  let location ← root.locate start text true
  match root.at? location with
  | some node => return (location, node)
  | none => .error .missing

end ProjectCheck
