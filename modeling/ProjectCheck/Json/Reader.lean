import ProjectCheck.Json.Writer
import ProjectCheck.Text.Digit
import ProjectCheck.Text.Integer

/-!
Reading JSON. Beside the standard the names `NaN`, `Infinity` and `-Infinity` stand for numbers. A
text is refused at the first fault from its start: one that breaks the grammar, a whole number of
too many digits, or nesting beyond the limit.
-/
namespace ProjectCheck.Json

open Text Decimal

inductive ReadFault where
  | malformed
  | tooManyDigits (count : Nat)
  | tooDeep
  deriving Repr, DecidableEq

def depthLimit : Nat := 980

def isSpace (c : Char) : Bool :=
  c = ' ' || c = '\t' || c = '\n' || c = '\r'

def skipSpace (s : List Char) : List Char := s.dropWhile isSpace

def isHighSurrogate (n : Nat) : Bool := 0xD800 ≤ n && n ≤ 0xDBFF

def isLowSurrogate (n : Nat) : Bool := 0xDC00 ≤ n && n ≤ 0xDFFF

def joinSurrogates (high low : Nat) : Nat :=
  0x10000 + (high - 0xD800) * 0x400 + (low - 0xDC00)

def fourDigits? (a b c d : Char) : Option Nat := hexNumber? [a, b, c, d]

def shortEscape? : Char → Option Char
  | '"' => some '"'
  | '\\' => some '\\'
  | '/' => some '/'
  | 'b' => some '\x08'
  | 'f' => some '\x0c'
  | 'n' => some '\n'
  | 'r' => some '\r'
  | 't' => some '\t'
  | _ => none

/-- The codes of a string up to its closing mark, and what follows. Two escapes that write the
halves of a surrogate pair are one code. -/
def readString : List Char → Option (List Nat × List Char)
  | [] => none
  | '"' :: rest => some ([], rest)
  | '\\' :: 'u' :: a :: b :: c :: d :: '\\' :: 'u' :: e :: f :: g :: h :: rest => do
    let first ← fourDigits? a b c d
    if isHighSurrogate first then
      let second ← fourDigits? e f g h
      if isLowSurrogate second then
        let (body, after) ← readString rest
        return (joinSurrogates first second :: body, after)
    let (body, after) ← readString ('\\' :: 'u' :: e :: f :: g :: h :: rest)
    return (first :: body, after)
  | '\\' :: 'u' :: a :: b :: c :: d :: rest => do
    let code ← fourDigits? a b c d
    let (body, after) ← readString rest
    return (code :: body, after)
  | '\\' :: c :: rest => do
    let escaped ← shortEscape? c
    let (body, after) ← readString rest
    return (escaped.toNat :: body, after)
  | c :: rest =>
    if c.toNat < 0x20 then none
    else do
      let (body, after) ← readString rest
      return (c.toNat :: body, after)

def hasLoneSurrogate (codes : List Nat) : Bool :=
  codes.any fun n => isHighSurrogate n || isLowSurrogate n

def ofCodes (codes : List Nat) : Json :=
  if hasLoneSurrogate codes then .illFormed codes else .string (replaced codes)

/-- The member with a name that is given by its codes. The substitute for a name with a lone
surrogate is its quotation behind a replacement character. -/
def memberOf (name : List Nat) (value : Json) : String × Json :=
  if hasLoneSurrogate name then
    (String.ofList ('\uFFFD' :: quoteCodes name), .illNamed name value)
  else (replaced name, value)

def wholePart : List Char → Option (List Char × List Char)
  | '0' :: rest => some (['0'], rest)
  | c :: rest =>
    if isAsciiDigit c then some (c :: rest.takeWhile isAsciiDigit, rest.dropWhile isAsciiDigit)
    else none
  | [] => none

def fractionPart (s : List Char) : List Char × List Char :=
  match s with
  | '.' :: rest =>
    let digits := rest.takeWhile isAsciiDigit
    if digits.isEmpty then ([], s) else (digits, rest.dropWhile isAsciiDigit)
  | _ => ([], s)

def powerPart (s : List Char) : Option Int × List Char :=
  match s with
  | c :: rest =>
    if c = 'e' ∨ c = 'E' then
      let (negative, body) := splitSign rest
      let digits := body.takeWhile isAsciiDigit
      if digits.isEmpty then (none, s)
      else (some (applySign negative (digitsValue digits)), body.dropWhile isAsciiDigit)
    else (none, s)
  | [] => (none, s)

def splitMinus : List Char → Bool × List Char
  | '-' :: rest => (true, rest)
  | s => (false, s)

def readNumber (s : List Char) : Except ReadFault (Json × List Char) :=
  let (negative, body) := splitMinus s
  match wholePart body with
  | none => .error .malformed
  | some (whole, afterWhole) =>
    let (fraction, afterFraction) := fractionPart afterWhole
    let (power, rest) := powerPart afterFraction
    if fraction.isEmpty && power.isNone then
      if whole.length > digitLimit then .error (.tooManyDigits whole.length)
      else .ok (.int (applySign negative (digitsValue whole)), rest)
    else .ok (.float (ofParts negative whole fraction (power.getD 0)), rest)

def afterWord? (word : List Char) (s : List Char) : Option (List Char) :=
  if word.isPrefixOf s then some (s.drop word.length) else none

def wordValues : List (String × Json) := [
  ("null", .null), ("true", .bool true), ("false", .bool false), ("NaN", .float .undefined),
  ("Infinity", .float (.infinite false)), ("-Infinity", .float (.infinite true))]

def readScalar (s : List Char) : Except ReadFault (Json × List Char) :=
  match wordValues.findSome? fun (word, value) => (afterWord? word.toList s).map (value, ·) with
  | some found => .ok found
  | none => readNumber s

mutual

/-- The value at the start of a text, which has no space before it, and what follows. The fuel
bounds the number of steps; the depth is what is left of the limit. -/
def readValue : Nat → Nat → List Char → Except ReadFault (Json × List Char)
  | 0, _, _ => .error .malformed
  | fuel + 1, depth, s =>
    match s with
    | '"' :: rest =>
      match readString rest with
      | some (codes, after) => .ok (ofCodes codes, after)
      | none => .error .malformed
    | '[' :: rest =>
      if depth = 0 then .error .tooDeep
      else match skipSpace rest with
        | ']' :: after => .ok (.array [], after)
        | items => do
          let (found, after) ← readItems fuel (depth - 1) items
          return (.array found, after)
    | '{' :: rest =>
      if depth = 0 then .error .tooDeep
      else match skipSpace rest with
        | '}' :: after => .ok (.object [], after)
        | members => do
          let (found, after) ← readMembers fuel (depth - 1) [] members
          return (.object found, after)
    | _ => readScalar s

def readItems : Nat → Nat → List Char → Except ReadFault (List Json × List Char)
  | 0, _, _ => .error .malformed
  | fuel + 1, depth, s => do
    let (item, rest) ← readValue fuel depth s
    match skipSpace rest with
    | ']' :: after => return ([item], after)
    | ',' :: after => do
      let (items, final) ← readItems fuel depth (skipSpace after)
      return (item :: items, final)
    | _ => .error .malformed

def readMembers : Nat → Nat → Members Json → List Char →
    Except ReadFault (Members Json × List Char)
  | 0, _, _, _ => .error .malformed
  | fuel + 1, depth, found, s =>
    match s with
    | '"' :: rest =>
      match readString rest with
      | none => .error .malformed
      | some (name, afterName) =>
        match skipSpace afterName with
        | ':' :: afterColon => do
          let (value, rest) ← readValue fuel depth (skipSpace afterColon)
          let (name, value) := memberOf name value
          let found := found.set name value
          match skipSpace rest with
          | '}' :: after => return (found, after)
          | ',' :: after => readMembers fuel depth found (skipSpace after)
          | _ => .error .malformed
        | _ => .error .malformed
    | _ => .error .malformed

end

/-- Every step of the reader takes at least one character away. -/
def readFuel (s : List Char) : Nat := 2 * s.length + 2

def readChars (s : List Char) : Except ReadFault Json := do
  let (value, rest) ← readValue (readFuel s) depthLimit (skipSpace s)
  if (skipSpace rest).isEmpty then return value else .error .malformed

def read (text : String) : Except ReadFault Json := readChars text.toList

end ProjectCheck.Json
