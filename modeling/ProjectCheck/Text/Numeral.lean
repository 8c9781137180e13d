import ProjectCheck.Text.Integer

/-!
Numerals: the texts that stand for a whole number in a field. A plain numeral is a minus sign,
perhaps, and digits without leading noughts. Any other text is tidied first, which takes away what
does not matter to the number: padding, a plus sign, leading noughts, underscores between digits,
and a point that only noughts follow.
-/
namespace ProjectCheck.Text

inductive NumeralFault where
  | malformed
  | tooLong
  deriving Repr, DecidableEq

/-- The number of a plain numeral. A text that starts with one of more characters than the digit
limit is too long, whatever follows. -/
def plainNumeral (s : List Char) : Except NumeralFault Int :=
  let (negative, body) := match s with
    | '-' :: rest => (true, rest)
    | _ => (false, s)
  let digits := body.takeWhile isAsciiDigit
  if digits = ['0'] then if body = digits then .ok 0 else .error .malformed
  else if digits.isEmpty || digits.head? = some '0' then .error .malformed
  else if digits.length + (if negative then 1 else 0) > digitLimit then .error .tooLong
  else if body = digits then .ok (applySign negative (digitsValue digits))
  else .error .malformed

/-- What follows a nought at the start of a text, without more noughts and underscores; `last` is
the character before. One character of them stays before a point or the end. -/
def afterNoughts (last : Char) : List Char → Option (List Char)
  | [] => some [last]
  | c :: rest =>
    if c = '0' || c = '_' then afterNoughts c rest
    else if c = '.' then some (last :: c :: rest)
    else if isAsciiDigit c || c = '-' then some (c :: rest)
    else none

def dropLeadingNoughts : List Char → Option (List Char)
  | [] => none
  | c :: rest =>
    if c = '0' then afterNoughts c rest
    else if isAsciiDigit c || c = '-' then some (c :: rest)
    else none

def dropZeroFraction (s : List Char) : List Char :=
  let noughts := (s.dropWhile (· ≠ '.')).drop 1
  if noughts.isEmpty || noughts.any (· ≠ '0') then s else s.takeWhile (· ≠ '.')

def hasDoubleUnderscore : List Char → Bool
  | '_' :: '_' :: _ => true
  | _ :: rest => hasDoubleUnderscore rest
  | [] => false

def hasInnerUnderscores (s : List Char) : Bool :=
  s.contains '_' && s.head? ≠ some '_' && s.getLast? ≠ some '_' && !hasDoubleUnderscore s

def dropUnderscores (s : List Char) : List Char :=
  if hasInnerUnderscores s then s.filter (· ≠ '_') else s

def tidyDigits (s : List Char) : Option (List Char) :=
  (dropLeadingNoughts s).map fun digits => dropUnderscores (dropZeroFraction digits)

def tidyNumeral (s : List Char) : Option (List Char) :=
  match trimPadding s with
  | '+' :: '-' :: _ => none
  | '+' :: rest => tidyDigits rest
  | '-' :: rest => (tidyDigits rest).map ('-' :: ·)
  | rest => tidyDigits rest

def readNumeral (s : List Char) : Except NumeralFault Int :=
  match plainNumeral s with
  | .ok i => .ok i
  | .error .tooLong => .error .tooLong
  | .error .malformed =>
    match (tidyNumeral s).map plainNumeral with
    | some (.ok i) => .ok i
    | _ => .error .malformed

end ProjectCheck.Text
