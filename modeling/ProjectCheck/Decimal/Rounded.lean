import ProjectCheck.Decimal.Written

/-!
Numbers rounded to a given count of digits, after the point or in all. The exact value of the number
is rounded, a tie to the even digit.
-/
namespace ProjectCheck.Decimal

open Binary64

def exactFraction (significand : Nat) (exponent : Int) : Nat × Nat :=
  (significand * Nat.pow 2 exponent.toNat, Nat.pow 2 (-exponent).toNat)

def dropTrailingNoughts (s : List Char) : List Char :=
  let kept := (s.reverse.dropWhile (· = '0')).reverse
  if kept.getLast? = some '.' then kept.dropLast else kept

def paddedDigits (width n : Nat) : List Char :=
  let digits := Nat.toDigits 10 n
  List.replicate (width - digits.length) '0' ++ digits

def withPoint (places : Nat) (keepPoint : Bool) (digits : List Char) : List Char :=
  if places = 0 then if keepPoint then digits ++ ['.'] else digits
  else digits.take (digits.length - places) ++ '.' :: digits.drop (digits.length - places)

def fixedText (places : Nat) (keepPoint : Bool) (significand : Nat) (exponent : Int) : List Char :=
  let (num, den) := exactFraction significand exponent
  withPoint places keepPoint (paddedDigits (places + 1) (roundDiv (num * Nat.pow 10 places) den))

def leadingDigits (count : Nat) (significand : Nat) (exponent : Int) : Nat × Int :=
  if significand = 0 then (0, 0)
  else
    let power := decimalExponent significand exponent
    let (num, den) := onGrid significand exponent (power - (count - 1 : Nat))
    let digits := roundDiv num den
    if digits = Nat.pow 10 count then (Nat.pow 10 (count - 1), power + 1) else (digits, power)

def scientificText (places : Nat) (keepPoint : Bool) (significand : Nat) (exponent : Int) :
    List Char :=
  let (digits, power) := leadingDigits (places + 1) significand exponent
  withPoint places keepPoint (paddedDigits (places + 1) digits) ++ (exponentText power).toList

def generalText (count : Nat) (keepNoughts : Bool) (significand : Nat) (exponent : Int) :
    List Char :=
  let count := max count 1
  let (digits, power) := leadingDigits count significand exponent
  let trim (s : List Char) : List Char :=
    if keepNoughts || !s.contains '.' then s else dropTrailingNoughts s
  if -4 ≤ power && power < count then
    let places := ((count : Int) - 1 - power).toNat
    trim (fixedText places keepNoughts significand exponent)
  else
    trim (withPoint (count - 1) keepNoughts (paddedDigits count digits)) ++
      (exponentText power).toList

end ProjectCheck.Decimal
