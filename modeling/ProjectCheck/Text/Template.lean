import ProjectCheck.Decimal.Rounded
import ProjectCheck.Failure

/-!
Message templates. A percent sign starts a place for a value: an optional name, flags, a width, a
precision, and a letter that says how the value is written. The values are used up one after the
other, or taken by their names.
-/
namespace ProjectCheck.Template

open Text Decimal

structure Flags where
  left : Bool := false
  plus : Bool := false
  space : Bool := false
  alternate : Bool := false
  zero : Bool := false

def Flags.add? (flags : Flags) : Char → Option Flags
  | '-' => some { flags with left := true }
  | '+' => some { flags with plus := true }
  | ' ' => some { flags with space := true }
  | '#' => some { flags with alternate := true }
  | '0' => some { flags with zero := true }
  | _ => none

inductive Values where
  | sequence (values : List Json)
  | named (members : List (String × Json))

/-- What is left to be used of the values: those not used yet, and whether some must not be left
over. -/
structure Supply where
  rest : List Json
  members : Option (List (String × Json))

def Supply.of : Values → Supply
  | .sequence values => ⟨values, none⟩
  | .named members => ⟨[.object members], some members⟩

def incomplete {α : Type} : Except Failure α := .error (.unusable "incomplete format")

def Supply.next (supply : Supply) : Except Failure (Json × Supply) :=
  match supply.rest with
  | value :: rest => .ok (value, { supply with rest })
  | [] => .error (.wrongKind "not enough arguments for format string")

def nameThen (depth : Nat) : List Char → Except Failure (List Char × List Char)
  | [] => .error (.unusable "incomplete format key")
  | c :: rest =>
    if c = ')' && depth = 0 then .ok ([], rest)
    else
      let depth := if c = '(' then depth + 1 else if c = ')' then depth - 1 else depth
      (nameThen depth rest).map fun (name, rest) => (c :: name, rest)

def Supply.takeNamed (supply : Supply) (s : List Char) : Except Failure (Supply × List Char) :=
  match supply.members with
  | none => .error (.wrongKind "format requires a mapping")
  | some members => do
    let (name, rest) ← nameThen 0 s
    match Members.get? (String.ofList name) members with
    | some value => return ({ supply with rest := [value] }, rest)
    | none => throw (.noEntry (quote (String.ofList name)))

def takeFlags (flags : Flags) : List Char → Flags × List Char
  | [] => (flags, [])
  | c :: rest => match flags.add? c with
    | some flags => takeFlags flags rest
    | none => (flags, c :: rest)

structure SizeKind where
  name : String
  limit : Nat
  machineType : String

def widthKind : SizeKind := ⟨"width", Nat.pow 2 63 - 1, "ssize_t"⟩

def precisionKind : SizeKind := ⟨"precision", Nat.pow 2 31 - 1, "int"⟩

/-- A whole number from the values as a size. The least number of the machine's type has no
counterpart above nought and counts as nought. -/
def SizeKind.ofInt (kind : SizeKind) (n : Int) : Except Failure Int :=
  if n.natAbs ≤ kind.limit then .ok n
  else if n = -kind.limit - 1 then .ok 0
  else .error (.outOfRange ("Python int too large to convert to C " ++ kind.machineType))

def takeSize (kind : SizeKind) (supply : Supply) (s : List Char) :
    Except Failure (Option Int × Supply × List Char) :=
  match s with
  | '*' :: rest => do
    let (value, supply) ← supply.next
    match value with
    | .int n => return (some (← kind.ofInt n), supply, rest)
    | .bool b => return (some (if b then 1 else 0), supply, rest)
    | _ => throw (.wrongKind "* wants int")
  | s =>
    let digits := s.takeWhile isAsciiDigit
    if digits.isEmpty then .ok (none, supply, s)
    else if digitsValue digits > kind.limit then .error (.unusable (kind.name ++ " too big"))
    else .ok (some (digitsValue digits), supply, s.dropWhile isAsciiDigit)

structure Place where
  flags : Flags
  width : Nat
  precision : Option Nat
  letter : Char

def Place.fill (place : Place) (numeric : Bool) (sign body : List Char) : List Char :=
  let missing := place.width - (sign.length + body.length)
  if place.flags.left then sign ++ body ++ List.replicate missing ' '
  else if place.flags.zero && numeric then sign ++ List.replicate missing '0' ++ body
  else List.replicate missing ' ' ++ sign ++ body

def Place.sign (place : Place) (negative : Bool) : List Char :=
  if negative then ['-']
  else if place.flags.plus then ['+']
  else if place.flags.space then [' ']
  else []

def asciiChar (c : Char) : List Char := if c.toNat < 0x80 then [c] else escapeCode c.toNat

def Place.writeText (place : Place) (text : List Char) : List Char :=
  place.fill false [] (match place.precision with
    | some count => text.take count
    | none => text)

def notANumber (letter : Char) (wanted : String) (value : Json) : Failure :=
  let percent := String.ofList ['%', letter]
  .wrongKind s!"{percent} format: {wanted} is required, not {value.kindName}"

def digitsIn (base n : Nat) : List Char := Nat.toDigits base n

def basePrefix (letter : Char) : List Char :=
  if letter = 'x' then ['0', 'x'] else if letter = 'X' then ['0', 'X']
  else if letter = 'o' then ['0', 'o'] else []

def Place.writeWhole (place : Place) (n : Int) : Except Failure (List Char) :=
  let base :=
    if place.letter = 'x' || place.letter = 'X' then 16
    else if place.letter = 'o' then 8
    else 10
  let digits := digitsIn base n.natAbs
  let digits := if place.letter = 'X' then digits.map Char.toUpper else digits
  let padded := List.replicate ((place.precision.getD 0) - digits.length) '0' ++ digits
  let mark := if place.flags.alternate then basePrefix place.letter else []
  if base = 10 && digits.length > digitLimit then .error .unwritableNumber
  else .ok (place.fill true (place.sign (n < 0) ++ mark) padded)

def Place.writeReal (place : Place) (x : Binary64) : List Char :=
  let upper := place.letter.isUpper
  let precision := place.precision.getD 6
  let body := match x with
    | .undefined => "nan".toList
    | .infinite _ => "inf".toList
    | .finite _ m e =>
      let letter := place.letter.toLower
      if letter = 'f' then fixedText precision place.flags.alternate m e
      else if letter = 'e' then scientificText precision place.flags.alternate m e
      else generalText precision place.flags.alternate m e
  place.fill true (place.sign x.isNegative) (if upper then body.map Char.toUpper else body)

def wholeOf (letter : Char) (value : Json) : Except Failure Int :=
  match value with
  | .int _ | .bool _ | .float _ => value.toInteger
  | other => .error (notANumber letter "a real number" other)

def exactWholeOf (letter : Char) (value : Json) : Except Failure Int :=
  match value with
  | .int _ | .bool _ => value.toInteger
  | other => .error (notANumber letter "an integer" other)

def realOf (value : Json) : Except Failure Binary64 :=
  match value with
  | .float x => .ok x
  | .int n => match Binary64.ofInt n with
    | .infinite _ => .error (.outOfRange "int too large to convert to float")
    | x => .ok x
  | .bool b => .ok (.ofInt (if b then 1 else 0))
  | other => .error (.wrongKind s!"must be real number, not {other.kindName}")

def charOf (value : Json) : Except Failure (List Char) :=
  match value with
  | .string text => match text.toList with
    | [c] => .ok [c]
    | _ => .error (.wrongKind "%c requires int or char")
  | .int n =>
    if n < 0 || n > 0x10FFFF then .error (.outOfRange "%c arg not in range(0x110000)")
    else .ok [Char.ofNat n.toNat]
  | .bool b => .ok [Char.ofNat (if b then 1 else 0)]
  | _ => .error (.wrongKind "%c requires int or char")

def wholeLetters : List Char := ['d', 'i', 'u']

def basedLetters : List Char := ['x', 'X', 'o']

def realLetters : List Char := ['f', 'F', 'e', 'E', 'g', 'G']

def Place.write (place : Place) (index : Nat) (value : Json) : Except Failure (List Char) :=
  let letter := place.letter
  if letter = 's' then .ok (place.writeText (toString value.plain).toList)
  else if letter = 'r' then .ok (place.writeText value.shownChars)
  else if letter = 'a' then .ok (place.writeText (value.shownChars.flatMap asciiChar))
  else if wholeLetters.contains letter then (wholeOf letter value).bind place.writeWhole
  else if basedLetters.contains letter then (exactWholeOf letter value).bind place.writeWhole
  else if realLetters.contains letter then (realOf value).map place.writeReal
  else if letter = 'c' then (charOf value).map (place.fill false [])
  else
    let code := String.ofList (Nat.toDigits 16 letter.toNat)
    let shown := String.ofList [if 31 ≤ letter.toNat && letter.toNat ≤ 126 then letter else '?']
    .error (.unusable s!"unsupported format character '{shown}' (0x{code}) at index {index}")

structure Opened where
  place : Place
  supply : Supply
  rest : List Char

def openPlace (supply : Supply) (s : List Char) : Except Failure Opened := do
  let (flags, s) := takeFlags {} s
  let (width, supply, s) ← takeSize widthKind supply s
  let flags := if width.any (· < 0) then { flags with left := true } else flags
  let (precision, supply, s) ← match s with
    | '.' :: rest => do
      let (size, supply, s) ← takeSize precisionKind supply rest
      pure (some (size.getD 0).toNat, supply, s)
    | s => pure (none, supply, s)
  let s := match s with
    | c :: rest => if c = 'h' || c = 'l' || c = 'L' then rest else c :: rest
    | [] => []
  match s with
  | [] => incomplete
  | letter :: rest => return ⟨⟨flags, (width.getD 0).natAbs, precision, letter⟩, supply, rest⟩

/-- Fills one place, from after its percent sign: its text, what is left of the values, and what
follows. `size` is the length of the template. -/
def fillPlace (size : Nat) (supply : Supply) (s : List Char) :
    Except Failure (List Char × Supply × List Char) := do
  let (supply, s) ← match s with
    | '(' :: rest => supply.takeNamed rest
    | s => pure (supply, s)
  let opened ← openPlace supply s
  let (value, supply) ← opened.supply.next
  let text ← opened.place.write (size - opened.rest.length - 1) value
  return (text, supply, opened.rest)

def fillPlaces (size : Nat) : Nat → Supply → List Char → Except Failure (List Char × Supply)
  | 0, supply, s => .ok (s, supply)
  | fuel + 1, supply, s => do
    let before := s.takeWhile (· ≠ '%')
    match s.dropWhile (· ≠ '%') with
    | [] => return (before, supply)
    | _ :: '%' :: rest =>
      let (after, supply) ← fillPlaces size fuel supply rest
      return (before ++ '%' :: after, supply)
    | _ :: rest =>
      let (text, supply, rest) ← fillPlace size supply rest
      let (after, supply) ← fillPlaces size fuel supply rest
      return (before ++ text ++ after, supply)

def fill (template : List Char) (values : Values) : Except Failure (List Char) := do
  let (text, supply) ← fillPlaces template.length template.length (.of values) template
  if supply.members.isNone && !supply.rest.isEmpty then
    throw (.wrongKind "not all arguments converted during string formatting")
  return text

end ProjectCheck.Template
