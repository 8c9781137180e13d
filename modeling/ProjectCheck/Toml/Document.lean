import ProjectCheck.Text.Utf8
import ProjectCheck.Toml.Value

/-!
TOML documents: lines that name a table, add a table to a list, or give a key a value in the table
named last. Nothing may be given twice, a table may be named only once, and what was given as a
whole may not be added to.
-/
namespace ProjectCheck.Toml

open Text

/-- A document while it is read: its tables, the table named last, the keys of tables that may not
be named any more, those that may not be once another table has been named, and the keys of
values that may not be added to. -/
structure Document where
  tables : Members Json := []
  current : Key := []
  named : List Key := []
  used : List Key := []
  closed : List Key := []

namespace Document

def isClosed (d : Document) (key : Key) : Bool := d.closed.any (·.isPrefixOf key)

def settle (d : Document) : Document := { d with named := d.used ++ d.named, used := [] }

def orMalformed (result : Option Document) : Except Fault Document :=
  match result with
  | some d => .ok d
  | none => .error .malformed

def nameTable (d : Document) (key : Key) : Except Fault Document :=
  if d.named.contains key || d.isClosed key then .error .malformed
  else orMalformed ((openTable key d.tables).map fun tables =>
    { d with tables, current := key, named := key :: d.named })

def nameListTable (d : Document) (key : Key) : Except Fault Document :=
  if d.isClosed key then .error .malformed
  else orMalformed ((appendTable key d.tables).map fun tables =>
    { d with
      tables
      current := key
      named := key :: d.named.filter fun other => !key.isPrefixOf other
      closed := d.closed.filter fun other => !key.isPrefixOf other })

def waysTo (d : Document) (key : Key) : List Key :=
  (List.range (key.length - 1)).map fun n => d.current ++ key.take (n + 1)

def give (d : Document) (key : Key) (value : Json) : Except Fault Document :=
  let ways := d.waysTo key
  if ways.any d.named.contains || d.isClosed (d.current ++ key.dropLast) then .error .malformed
  else orMalformed ((addAt true (d.current ++ key) value d.tables).map fun tables =>
    { d with
      tables
      used := ways ++ d.used
      closed := if isContainer value then (d.current ++ key) :: d.closed else d.closed })

def readHeader (d : Document) (s : List Char) : Except Fault (Document × List Char) :=
  match s with
  | '[' :: rest =>
    match key rest.length (skipSpaces rest) with
    | .ok (key, ']' :: ']' :: rest) => (d.settle.nameListTable key).map (·, rest)
    | .ok (_, _) => .error .malformed
    | .error fault => .error fault
  | rest =>
    match key rest.length (skipSpaces rest) with
    | .ok (key, ']' :: rest) => (d.settle.nameTable key).map (·, rest)
    | .ok (_, _) => .error .malformed
    | .error fault => .error fault

def isKeyStart (c : Char) : Bool := isBareKeyChar c || c = '"' || c = '\''

def readStatement (d : Document) (s : List Char) : Except Fault (Document × List Char) :=
  match s with
  | [] => .ok (d, [])
  | c :: rest =>
    if isKeyStart c then
      match pair (c :: rest) with
      | .ok ((key, value), rest) => (d.give key value).map (·, rest)
      | .error fault => .error fault
    else if c = '[' then d.readHeader rest
    else if c = '#' || c = '\n' then .ok (d, c :: rest)
    else .error .malformed

def readLines : Nat → Document → List Char → Except Fault Document
  | 0, d, _ => .ok d
  | fuel + 1, d, s =>
    match d.readStatement (skipSpaces s) with
    | .error fault => .error fault
    | .ok (d, rest) =>
      match skipComment (skipSpaces rest) with
      | .error fault => .error fault
      | .ok [] => .ok d
      | .ok ('\n' :: rest) => readLines fuel d rest
      | .ok _ => .error .malformed

end Document

def joinLineEnds : List Char → List Char
  | [] => []
  | '\r' :: '\n' :: rest => '\n' :: joinLineEnds rest
  | c :: rest => c :: joinLineEnds rest

def read (text : List Char) : Except Fault (Members Json) :=
  let s := joinLineEnds text
  (Document.readLines (s.length + 1) {} s).map (·.tables)

end ProjectCheck.Toml
