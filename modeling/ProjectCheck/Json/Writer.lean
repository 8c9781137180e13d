import ProjectCheck.Json.Basic
import ProjectCheck.Text.Loose

/-!
Writing JSON, in two forms: the JSON text of a value, with a space after each comma and colon and
nothing but quotes, backslashes and controls escaped; and the shown form, which messages use.
-/
namespace ProjectCheck.Json

open Text Decimal

def jsonNumberStyle : NumberStyle := { plainStyle with names := ⟨"NaN", "Infinity"⟩ }

def escapeChar (c : Char) : List Char :=
  if c = '"' then ['\\', '"']
  else if c = '\\' then ['\\', '\\']
  else if c = '\n' then ['\\', 'n']
  else if c = '\r' then ['\\', 'r']
  else if c = '\t' then ['\\', 't']
  else if c = '\x0c' then ['\\', 'f']
  else if c = '\x08' then ['\\', 'b']
  else if c.toNat < 0x20 then '\\' :: 'u' :: hexDigits 4 c.toNat
  else [c]

def writeString (s : String) : List Char :=
  '"' :: (s.toList.flatMap escapeChar ++ ['"'])

def escapeUnit (n : Nat) : List Char :=
  if h : n.isValidChar then escapeChar (Char.ofNatAux n h) else '\\' :: 'u' :: hexDigits 4 n

def writeCodes (codes : List Nat) : List Char :=
  '"' :: (codes.flatMap escapeUnit ++ ['"'])

def writeName (name : String) : Json → List Char
  | illNamed codes _ => writeCodes codes
  | _ => writeString name

mutual

def writeChars : Json → List Char
  | null => "null".toList
  | bool true => "true".toList
  | bool false => "false".toList
  | int i => (toString i).toList
  | float x => (x.write jsonNumberStyle).toList
  | string s => writeString s
  | illFormed codes => writeCodes codes
  | array items => '[' :: (writeItems items ++ [']'])
  | object members => '{' :: (writeMembers members ++ ['}'])
  | illNamed _ value => writeChars value

def writeItems : List Json → List Char
  | [] => []
  | [item] => writeChars item
  | item :: rest => writeChars item ++ ',' :: ' ' :: writeItems rest

def writeMembers : List (String × Json) → List Char
  | [] => []
  | [(name, value)] => writeName name value ++ ':' :: ' ' :: writeChars value
  | (name, value) :: rest =>
    writeName name value ++ ':' :: ' ' :: writeChars value ++ ',' :: ' ' :: writeMembers rest

end

def write (value : Json) : String := String.ofList (writeChars value)

def shownName (name : String) : Json → List Char
  | illNamed codes _ => quoteCodes codes
  | _ => quoteChars name.toList

mutual

def shownChars : Json → List Char
  | null => "None".toList
  | bool true => "True".toList
  | bool false => "False".toList
  | int i => (toString i).toList
  | float x => x.text.toList
  | string s => quoteChars s.toList
  | illFormed codes => quoteCodes codes
  | array items => '[' :: (shownItems items ++ [']'])
  | object members => '{' :: (shownMembers members ++ ['}'])
  | illNamed _ value => shownChars value

def shownItems : List Json → List Char
  | [] => []
  | [item] => shownChars item
  | item :: rest => shownChars item ++ ',' :: ' ' :: shownItems rest

def shownMembers : List (String × Json) → List Char
  | [] => []
  | [(name, value)] => shownName name value ++ ':' :: ' ' :: shownChars value
  | (name, value) :: rest =>
    shownName name value ++ ':' :: ' ' :: shownChars value ++ ',' :: ' ' :: shownMembers rest

end

def replaced (codes : List Nat) : String :=
  String.ofList (codes.map fun n => if h : n.isValidChar then Char.ofNatAux n h else '\uFFFD')

def ofText (text : LooseText) : Json :=
  match text.string? with
  | some s => string s
  | none => illFormed text.codes

def asText? : Json → Option LooseText
  | string s => some s
  | illFormed codes => some (.ofCodes codes)
  | _ => none

def plain (value : Json) : LooseText := value.asText?.getD (String.ofList (shownChars value))

def toText (value : Json) : Json := ofText value.plain

end ProjectCheck.Json
