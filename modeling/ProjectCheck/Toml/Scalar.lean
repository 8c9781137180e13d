import ProjectCheck.Json.Basic
import ProjectCheck.Text.Calendar
import ProjectCheck.Text.Digit
import ProjectCheck.Text.Integer

/-!
The simple values of TOML: strings of four kinds, numbers, truth values, and dates with times. Each
reader takes a value from the front of a text and gives what follows it.
-/
namespace ProjectCheck.Toml

open Text Decimal

inductive Fault where
  | malformed
  | tooManyDigits (count : Nat)
  | tooDeep
  deriving Repr, DecidableEq

abbrev Scan (α : Type) := Except Fault (α × List Char)

def malformed {α : Type} : Scan α := .error .malformed

def isSpace (c : Char) : Bool := c = ' ' || c = '\t'

def isSpaceOrNewline (c : Char) : Bool := isSpace c || c = '\n'

def skipSpaces (s : List Char) : List Char := s.dropWhile isSpace

def isControl (c : Char) : Bool := (c.toNat < 32 && c ≠ '\t') || c.toNat = 127

def isIllegal (multiline : Bool) (c : Char) : Bool := isControl c && !(multiline && c = '\n')

def untilEnding (multiline : Bool) (ending : List Char) : List Char → Scan (List Char)
  | [] => malformed
  | c :: rest =>
    if ending.isPrefixOf (c :: rest) then .ok ([], (c :: rest).drop ending.length)
    else if isIllegal multiline c then malformed
    else (untilEnding multiline ending rest).map fun (text, rest) => (c :: text, rest)

def escaped? : Char → Option Char
  | 'b' => some '\x08'
  | 't' => some '\t'
  | 'n' => some '\n'
  | 'f' => some '\x0c'
  | 'r' => some '\r'
  | '"' => some '"'
  | '\\' => some '\\'
  | _ => none

def coded? (digits : List Char) : Option Char :=
  (hexNumber? digits).bind fun n => if n.isValidChar then some (Char.ofNat n) else none

/-- Where a reader of a string is: in its text, after a backslash that ends a line but before the
line's end, or in the blanks after that. -/
inductive StringMode where
  | text
  | beforeLineEnd
  | afterLineEnd
  deriving DecidableEq

def basicString (multiline : Bool) (mode : StringMode) (s : List Char) : Scan (List Char) :=
  match s with
  | [] => malformed
  | c :: rest =>
    if mode = .beforeLineEnd then
      if isSpace c then basicString multiline .beforeLineEnd rest
      else if c = '\n' then basicString multiline .afterLineEnd rest
      else malformed
    else if mode = .afterLineEnd && isSpaceOrNewline c then basicString multiline .afterLineEnd rest
    else if c = '"' then
      if !multiline then .ok ([], rest)
      else match rest with
        | '"' :: '"' :: rest => .ok ([], rest)
        | rest => keep c (basicString multiline .text rest)
    else if c = '\\' then
      match rest with
      | 'u' :: a :: b :: c :: d :: rest => match coded? [a, b, c, d] with
        | some c => keep c (basicString multiline .text rest)
        | none => malformed
      | 'U' :: a :: b :: c :: d :: e :: f :: g :: h :: rest =>
        match coded? [a, b, c, d, e, f, g, h] with
        | some c => keep c (basicString multiline .text rest)
        | none => malformed
      | e :: rest =>
        if multiline && e = '\n' then basicString multiline .afterLineEnd rest
        else if multiline && isSpace e then basicString multiline .beforeLineEnd rest
        else match escaped? e with
          | some c => keep c (basicString multiline .text rest)
          | none => malformed
      | [] => malformed
    else if isIllegal multiline c then malformed
    else keep c (basicString multiline .text rest)
  termination_by s.length
where
  keep (c : Char) : Scan (List Char) → Scan (List Char)
    | .ok (text, rest) => .ok (c :: text, rest)
    | .error fault => .error fault

def trailingMarks (mark : Char) : Scan (List Char) → Scan (List Char)
  | .error fault => .error fault
  | .ok (text, rest) =>
    let extra := (rest.take 2).takeWhile (· = mark)
    .ok (text ++ extra, rest.drop extra.length)

def dropFirstNewline : List Char → List Char
  | '\n' :: rest => rest
  | s => s

def string? : List Char → Option (Scan (List Char))
  | '"' :: '"' :: '"' :: rest =>
    some (trailingMarks '"' (basicString true .text (dropFirstNewline rest)))
  | '"' :: rest => some (basicString false .text rest)
  | '\'' :: '\'' :: '\'' :: rest =>
    some (trailingMarks '\'' (untilEnding true ['\'', '\'', '\''] (dropFirstNewline rest)))
  | '\'' :: rest => some (untilEnding false ['\''] rest)
  | _ => none

def digitRun? (isOne : Char → Bool) : List Char → Option (List Char × List Char)
  | [] => none
  | c :: rest => if isOne c then some (keep c (more rest)) else none
where
  keep (c : Char) (run : List Char × List Char) := (c :: run.1, run.2)
  more : List Char → List Char × List Char
    | [] => ([], [])
    | '_' :: c :: rest => if isOne c then keep c (more rest) else ([], '_' :: c :: rest)
    | c :: rest => if isOne c then keep c (more rest) else ([], c :: rest)

def basedInteger? : List Char → Option (Nat × List Char)
  | '0' :: letter :: rest =>
    let base := match letter with
      | 'x' => 16
      | 'o' => 8
      | 'b' => 2
      | _ => 0
    (digitRun? (fun c => (hexValue? c).any (· < base)) rest).map fun (digits, rest) =>
      (digits.foldl (fun n c => n * base + (hexValue? c).getD 0) 0, rest)
  | _ => none

/-- The digits before the point of a decimal number: a nought alone, or digits that do not start
with one. -/
def wholeDigits? : List Char → Option (List Char × List Char)
  | '0' :: rest => some (['0'], rest)
  | s => digitRun? isAsciiDigit s

def fractionDigits : List Char → List Char × List Char
  | '.' :: rest => (digitRun? isAsciiDigit rest).getD ([], '.' :: rest)
  | s => ([], s)

def powerOfTen? : List Char → Option (Int × List Char)
  | [] => none
  | c :: rest =>
    if c = 'e' || c = 'E' then
      let (negative, body) := splitSign rest
      (digitRun? isAsciiDigit body).map fun (digits, rest) =>
        (applySign negative (digitsValue digits), rest)
    else none

def decimalNumber? (s : List Char) : Option (Scan Json) :=
  let (negative, body) := splitSign s
  (wholeDigits? body).map fun (whole, rest) =>
    let (fraction, rest) := fractionDigits rest
    match fraction, powerOfTen? rest with
    | [], none =>
      if whole.length > digitLimit then .error (.tooManyDigits whole.length)
      else .ok (.int (applySign negative (digitsValue whole)), rest)
    | _, some (power, rest) => .ok (.float (ofParts negative whole fraction power), rest)
    | _, none => .ok (.float (ofParts negative whole fraction 0), rest)

def specialNumber? (s : List Char) : Option (Json × List Char) :=
  let (negative, body) := splitSign s
  match body with
  | 'i' :: 'n' :: 'f' :: rest => some (.float (.infinite negative), rest)
  | 'n' :: 'a' :: 'n' :: rest => some (.float .undefined, rest)
  | _ => none

def fixedNumber? (width low high : Nat) (s : List Char) : Option (Nat × List Char) :=
  let digits := s.take width
  let n := digitsValue digits
  if digits.length = width && digits.all isAsciiDigit && low ≤ n && n ≤ high then
    some (n, s.drop width)
  else none

def mark? (c : Char) : List Char → Option (List Char)
  | d :: rest => if c = d then some rest else none
  | [] => none

def afterTime? (s : List Char) : Option (List Char) := do
  let (_, s) ← fixedNumber? 2 0 23 s
  let s ← mark? ':' s
  let (_, s) ← fixedNumber? 2 0 59 s
  let s ← mark? ':' s
  let (_, s) ← fixedNumber? 2 0 59 s
  match s with
  | '.' :: rest =>
    let after := rest.dropWhile isAsciiDigit
    return if after.length < rest.length then after else s
  | _ => return s

def afterOffset? (s : List Char) : Option (List Char) :=
  match s with
  | [] => none
  | c :: rest =>
    if c = 'Z' || c = 'z' then some rest
    else if c = '+' || c = '-' then do
      let (_, s) ← fixedNumber? 2 0 23 rest
      let s ← mark? ':' s
      let (_, s) ← fixedNumber? 2 0 59 s
      return s
    else none

def afterTimePart? : List Char → Option (List Char)
  | c :: rest =>
    if c = 'T' || c = 't' || c = ' ' then
      (afterTime? rest).map fun s => (afterOffset? s).getD s
    else none
  | [] => none

def date? (s : List Char) : Option (Scan Unit) := do
  let (year, s) ← fixedNumber? 4 0 9999 s
  let s ← mark? '-' s
  let (month, s) ← fixedNumber? 2 1 12 s
  let s ← mark? '-' s
  let (day, s) ← fixedNumber? 2 1 31 s
  let rest := (afterTimePart? s).getD s
  return if year = 0 || day > Calendar.daysInMonth year month then malformed else .ok ((), rest)

def scalar (s : List Char) : Scan Json :=
  match string? s with
  | some scan => scan.map fun (text, rest) => (.string (String.ofList text), rest)
  | none =>
    match s with
    | 't' :: 'r' :: 'u' :: 'e' :: rest => .ok (.bool true, rest)
    | 'f' :: 'a' :: 'l' :: 's' :: 'e' :: rest => .ok (.bool false, rest)
    | s =>
      match date? s with
      | some scan => scan.map fun (_, rest) => (.null, rest)
      | none =>
        match afterTime? s with
        | some rest => .ok (.null, rest)
        | none =>
          match basedInteger? s with
          | some (n, rest) => .ok (.int n, rest)
          | none =>
            match decimalNumber? s with
            | some scan => scan
            | none =>
              match specialNumber? s with
              | some (x, rest) => .ok (x, rest)
              | none => malformed

end ProjectCheck.Toml
