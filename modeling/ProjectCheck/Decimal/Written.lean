import ProjectCheck.Decimal.Shortest
import ProjectCheck.Text.Digit

/-!
Written numbers. A number is written with its shortest digits, positionally when the point falls
within or near them and with a power of ten otherwise; it is read from a sign, digits with an
optional point, and an optional power of ten.
-/
namespace ProjectCheck.Decimal

open Text

structure SpecialNames where
  undefined : String
  infinity : String

/-- Choices in writing numbers: positional notation is used while the number of digits before the
point stays above `fewestBefore` and up to `mostBefore`. -/
structure NumberStyle where
  fewestBefore : Int
  mostBefore : Int
  names : SpecialNames

def plainStyle : NumberStyle := ⟨-4, 16, ⟨"nan", "inf"⟩⟩

def significantDigits (n : Nat) : List Char :=
  ((Nat.toDigits 10 n).reverse.dropWhile (· = '0')).reverse

def exponentText (e : Int) : String :=
  let digits := Nat.toDigits 10 e.natAbs
  (if e < 0 then "e-" else "e+") ++
    String.ofList (if digits.length < 2 then '0' :: digits else digits)

def positional (digits : List Char) (before : Int) : String :=
  if before ≤ 0 then "0." ++ String.ofList (List.replicate (-before).toNat '0' ++ digits)
  else
    let n := before.toNat
    let whole := digits.take n ++ List.replicate (n - digits.length) '0'
    let fraction := digits.drop n
    String.ofList (whole ++ '.' :: if fraction.isEmpty then ['0'] else fraction)

def scientific (digits : List Char) (before : Int) : String :=
  let mantissa := match digits with
    | [] => []
    | [d] => [d]
    | d :: rest => d :: '.' :: rest
  String.ofList mantissa ++ exponentText (before - 1)

def writeDecimal (style : NumberStyle) (d : Decimal) : String :=
  if d.digits = 0 then "0.0"
  else
    let digits := significantDigits d.digits
    let before := d.exponent + (Nat.toDigits 10 d.digits).length
    if style.fewestBefore < before && before ≤ style.mostBefore then positional digits before
    else scientific digits before

def Binary64.write (style : NumberStyle) : Binary64 → String
  | .undefined => style.names.undefined
  | .infinite negative => (if negative then "-" else "") ++ style.names.infinity
  | .finite negative m e =>
    (if negative then "-" else "") ++ if m = 0 then "0.0" else writeDecimal style (shortest m e)

def Binary64.text (x : Binary64) : String := x.write plainStyle

def Binary64.wholeText (x : Binary64) : String :=
  match x.roundMagnitude? with
  | some n => (if x.isNegative then "-" else "") ++ toString n
  | none => x.text

def ofParts (negative : Bool) (whole fraction : List Char) (exponent : Int) : Binary64 :=
  Binary64.ofDecimal negative (digitsValue (whole ++ fraction)) (exponent - fraction.length)

def exponent? (s : List Char) : Option Int :=
  let (negative, digits) := match s with
    | '-' :: rest => (true, rest)
    | '+' :: rest => (false, rest)
    | rest => (false, rest)
  if digits.isEmpty || !digits.all isAsciiDigit then none
  else some (if negative then -(digitsValue digits : Int) else digitsValue digits)

/-- Reads digits, an optional point with digits on at least one side of it, and an optional power of
ten. -/
def readUnsigned? (negative : Bool) (s : List Char) : Option Binary64 :=
  let whole := s.takeWhile isAsciiDigit
  let (fraction, rest) := match s.dropWhile isAsciiDigit with
    | '.' :: tail => (tail.takeWhile isAsciiDigit, tail.dropWhile isAsciiDigit)
    | tail => ([], tail)
  if whole.isEmpty && fraction.isEmpty then none
  else match rest with
    | [] => some (ofParts negative whole fraction 0)
    | c :: tail =>
      if c = 'e' ∨ c = 'E' then (exponent? tail).map (ofParts negative whole fraction) else none

def Binary64.ofText? (s : List Char) : Option Binary64 :=
  let (negative, body) := match s with
    | '-' :: rest => (true, rest)
    | '+' :: rest => (false, rest)
    | rest => (false, rest)
  let word := String.ofList (body.map Char.toLower)
  if word = "nan" then some .undefined
  else if word = "inf" || word = "infinity" then some (.infinite negative)
  else readUnsigned? negative body

end ProjectCheck.Decimal
