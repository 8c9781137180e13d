import ProjectCheck.Toml.Scalar
import ProjectCheck.Toml.Table

/-!
Keys and values of TOML: arrays and inline tables hold values of any kind.
-/
namespace ProjectCheck.Toml

open Text

def isBareKeyChar (c : Char) : Bool := c.isAlphanum || c = '_' || c = '-'

def keyPart (s : List Char) : Scan String :=
  match s with
  | '"' :: rest => (basicString false .text rest).map fun (text, rest) => (String.ofList text, rest)
  | '\'' :: rest =>
    (untilEnding false ['\''] rest).map fun (text, rest) => (String.ofList text, rest)
  | s =>
    let name := s.takeWhile isBareKeyChar
    if name.isEmpty then malformed else .ok (String.ofList name, s.dropWhile isBareKeyChar)

def key : Nat → List Char → Scan Key
  | 0, _ => malformed
  | fuel + 1, s =>
    match keyPart s with
    | .error fault => .error fault
    | .ok (name, rest) =>
      match skipSpaces rest with
      | '.' :: rest => (key fuel (skipSpaces rest)).map fun (names, rest) => (name :: names, rest)
      | rest => .ok ([name], rest)

def skipComment : List Char → Except Fault (List Char)
  | '#' :: rest =>
    if (rest.takeWhile (· ≠ '\n')).any isControl then .error .malformed
    else .ok (rest.dropWhile (· ≠ '\n'))
  | s => .ok s

def skipFiller : Nat → List Char → Except Fault (List Char)
  | 0, s => .ok s
  | fuel + 1, s =>
    match s.dropWhile isSpaceOrNewline with
    | '#' :: rest => match skipComment ('#' :: rest) with
      | .ok rest => skipFiller fuel rest
      | .error fault => .error fault
    | rest => .ok rest

/-- How deep values may stand inside one another; a table counts for one half more than an array. -/
def depthLimit : Nat := 950

def isContainer : Json → Bool
  | .array _ | .object _ => true
  | _ => false

structure InlineTable where
  members : Members Json := []
  closed : List Key := []

def InlineTable.add (table : InlineTable) (key : Key) (value : Json) : Option InlineTable :=
  if table.closed.any (·.isPrefixOf key) then none
  else (addAt false key value table.members).map fun members =>
    ⟨members, if isContainer value then key :: table.closed else table.closed⟩

mutual

def value (fuel room : Nat) (s : List Char) : Scan Json :=
  match fuel with
  | 0 => malformed
  | fuel + 1 =>
    if room = 0 then .error .tooDeep
    else match s with
      | '[' :: rest =>
        match skipFiller rest.length rest with
        | .error fault => .error fault
        | .ok (']' :: rest) => .ok (.array [], rest)
        | .ok rest =>
          (arrayItems fuel (room - 2) rest).map fun (items, rest) => (.array items, rest)
      | '{' :: rest =>
        match skipSpaces rest with
        | '}' :: rest => .ok (.object [], rest)
        | rest => (inlinePairs fuel (room - 3) {} rest).map fun (table, rest) =>
            (.object table.members, rest)
      | s => scalar s
  termination_by fuel

def arrayItems (fuel room : Nat) (s : List Char) : Scan (List Json) :=
  match fuel with
  | 0 => malformed
  | fuel + 1 =>
    match value fuel room s with
    | .error fault => .error fault
    | .ok (item, rest) =>
      match skipFiller rest.length rest with
      | .error fault => .error fault
      | .ok (']' :: rest) => .ok ([item], rest)
      | .ok (',' :: rest) =>
        match skipFiller rest.length rest with
        | .error fault => .error fault
        | .ok (']' :: rest) => .ok ([item], rest)
        | .ok rest => (arrayItems fuel room rest).map fun (items, rest) => (item :: items, rest)
      | .ok _ => malformed
  termination_by fuel

def inlinePairs (fuel room : Nat) (table : InlineTable) (s : List Char) : Scan InlineTable :=
  match fuel with
  | 0 => malformed
  | fuel + 1 =>
    match key s.length s with
    | .error fault => .error fault
    | .ok (key, rest) =>
      match rest with
      | '=' :: rest =>
        match value fuel room (skipSpaces rest) with
        | .error fault => .error fault
        | .ok (item, rest) =>
          match table.add key item with
          | none => malformed
          | some table =>
            match skipSpaces rest with
            | '}' :: rest => .ok (table, rest)
            | ',' :: rest => inlinePairs fuel room table (skipSpaces rest)
            | _ => malformed
      | _ => malformed
  termination_by fuel

end

def pair (s : List Char) : Scan (Key × Json) :=
  match key s.length s with
  | .error fault => .error fault
  | .ok (key, rest) =>
    match rest with
    | '=' :: rest =>
      (value (2 * rest.length + 2) depthLimit (skipSpaces rest)).map fun (item, rest) =>
        ((key, item), rest)
    | _ => malformed

end ProjectCheck.Toml
