import ProjectCheck.Text.Blank
import ProjectCheck.Text.Digit
import ProjectCheck.Text.Quoted

/-!
Whole numbers in text. A number has an optional sign and decimal digits of any script, with single
underscores allowed between digits and blanks allowed around it. A run of more than 4300 digits is
refused before its value is computed.
-/
namespace ProjectCheck.Text

inductive IntegerFault where
  | malformed (text : String)
  | tooManyDigits (count : Nat)
  deriving Repr, DecidableEq

def digitLimit : Nat := 4300

def malformedNumber (quoted : List Char) : String :=
  "invalid literal for int() with base 10: " ++ String.ofList (quoted.take 200)

def IntegerFault.message : IntegerFault → String
  | .malformed text => malformedNumber (quoteChars text.toList)
  | .tooManyDigits count =>
    s!"Exceeds the limit ({digitLimit} digits) for integer string conversion: value has {count} " ++
      "digits; use sys.set_int_max_str_digits() to increase the limit"

def readDigits (digits : List Char) : Except IntegerFault Nat :=
  if digits.length > digitLimit then .error (.tooManyDigits digits.length)
  else .ok (digitsValue digits)

def isPadding (c : Char) : Bool :=
  isBlank c && !(28 ≤ c.toNat && c.toNat ≤ 31)

def trimPadding (s : List Char) : List Char :=
  ((s.dropWhile isPadding).reverse.dropWhile isPadding).reverse

/-- The digits at the start of a text and what follows them. Underscores between digits are left
out; there is no run when one stands elsewhere or when the text does not start with a digit. -/
def digitRun (afterDigit : Bool) : List Char → Option (List Char × List Char)
  | [] => if afterDigit then some ([], []) else none
  | c :: rest =>
    if isDigit c then (digitRun true rest).map fun run => (c :: run.1, run.2)
    else if c = '_' then if afterDigit then digitRun false rest else none
    else if afterDigit then some ([], c :: rest) else none

def splitSign : List Char → Bool × List Char
  | '-' :: rest => (true, rest)
  | '+' :: rest => (false, rest)
  | s => (false, s)

def applySign (negative : Bool) (n : Nat) : Int :=
  if negative then -(n : Int) else n

def readInteger (text : String) : Except IntegerFault Int :=
  let (negative, body) := splitSign (text.toList.dropWhile isPadding)
  match digitRun false body with
  | none => .error (.malformed text)
  | some (digits, rest) =>
    match readDigits digits with
    | .error fault => .error fault
    | .ok n => if rest.all isPadding then .ok (applySign negative n) else .error (.malformed text)

theorem readDigits_eq_ok {digits : List Char} (h : digits.length ≤ digitLimit) :
    readDigits digits = .ok (digitsValue digits) := by
  simp [readDigits, Nat.not_lt.2 h]

end ProjectCheck.Text
