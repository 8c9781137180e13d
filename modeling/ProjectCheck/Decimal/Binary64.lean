/-!
Numbers of the binary64 format, held by sign, significand and exponent, so that all arithmetic on
them is arithmetic on whole numbers. Results are rounded to the nearest number of the format, ties
to the even significand.
-/
namespace ProjectCheck.Decimal

/-- `finite negative m e` is the number m · 2^e, or its negation. The significand stays below 2^53
and is at least 2^52 unless the exponent is the least one. -/
inductive Binary64 where
  | finite (negative : Bool) (significand : Nat) (exponent : Int)
  | infinite (negative : Bool)
  | undefined
  deriving Repr, DecidableEq, Inhabited

namespace Binary64

def leastExponent : Int := -1074

def greatestExponent : Int := 971

def zero (negative : Bool) : Binary64 := .finite negative 0 leastExponent

def roundDiv (num den : Nat) : Nat :=
  let q := num / den
  let r := num % den
  if 2 * r > den ∨ (2 * r = den ∧ q % 2 = 1) then q + 1 else q

def scaleDown (num den : Nat) (e : Int) : Nat × Nat :=
  if e ≥ 0 then (num, den * Nat.pow 2 e.toNat) else (num * Nat.pow 2 (-e).toNat, den)

def exponentOf (num den : Nat) : Int :=
  let guess : Int := (Nat.log2 num : Int) - Nat.log2 den - 52
  let (n, d) := scaleDown num den guess
  max leastExponent (if n < d * Nat.pow 2 52 then guess - 1 else guess)

def ofFraction (negative : Bool) (num den : Nat) : Binary64 :=
  if num = 0 then zero negative
  else
    let e := exponentOf num den
    let (n, d) := scaleDown num den e
    let m := roundDiv n d
    let (m, e) := if m = Nat.pow 2 53 then (Nat.pow 2 52, e + 1) else (m, e)
    if e > greatestExponent then .infinite negative else .finite negative m e

/-- The number nearest to `digits · 10^exponent`. Exponents far outside the range of the format are
answered without computing the power. -/
def ofDecimal (negative : Bool) (digits : Nat) (exponent : Int) : Binary64 :=
  if digits = 0 then zero negative
  else if exponent > 400 then .infinite negative
  else if exponent + Nat.log2 digits < -401 then zero negative
  else if exponent ≥ 0 then ofFraction negative (digits * Nat.pow 10 exponent.toNat) 1
  else ofFraction negative digits (Nat.pow 10 (-exponent).toNat)

def ofInt (i : Int) : Binary64 :=
  ofFraction (i < 0) i.natAbs 1

def mul : Binary64 → Binary64 → Binary64
  | .finite s m e, .finite t n f =>
    if e + f ≥ 0 then ofFraction (s != t) (m * n * Nat.pow 2 (e + f).toNat) 1
    else ofFraction (s != t) (m * n) (Nat.pow 2 (-(e + f)).toNat)
  | .undefined, _ => .undefined
  | _, .undefined => .undefined
  | .infinite s, .finite t n _ => if n = 0 then .undefined else .infinite (s != t)
  | .finite s m _, .infinite t => if m = 0 then .undefined else .infinite (s != t)
  | .infinite s, .infinite t => .infinite (s != t)

def isPositive : Binary64 → Bool
  | .finite negative m _ => !negative && m != 0
  | .infinite negative => !negative
  | .undefined => false

def isNonnegative : Binary64 → Bool
  | .finite negative m _ => !negative || m == 0
  | .infinite negative => !negative
  | .undefined => false

def isNonzero : Binary64 → Bool
  | .finite _ m _ => m != 0
  | _ => true

def truncate? : Binary64 → Option Int
  | .finite negative m e =>
    let whole := if e ≥ 0 then m * Nat.pow 2 e.toNat else m / Nat.pow 2 (-e).toNat
    some (if negative then -(whole : Int) else whole)
  | _ => none

def isWhole : Binary64 → Bool
  | .finite _ m e => e ≥ 0 || m % Nat.pow 2 (-e).toNat == 0
  | _ => false

def equalsInt (x : Binary64) (i : Int) : Bool :=
  x.isWhole && x.truncate? == some i

def split : Binary64 → Option (Nat × Binary64)
  | .finite negative m e =>
    if e ≥ 0 then some (m * Nat.pow 2 e.toNat, zero negative)
    else
      let unit := Nat.pow 2 (-e).toNat
      some (m / unit, ofFraction negative (m % unit) unit)
  | _ => none

def roundMagnitude? : Binary64 → Option Nat
  | .finite _ m e =>
    some (if e ≥ 0 then m * Nat.pow 2 e.toNat else roundDiv m (Nat.pow 2 (-e).toNat))
  | _ => none

def isNegative : Binary64 → Bool
  | .finite negative _ _ => negative
  | .infinite negative => negative
  | .undefined => false

def WellFormed : Binary64 → Prop
  | .finite _ m e =>
    m < Nat.pow 2 53 ∧ leastExponent ≤ e ∧ e ≤ greatestExponent ∧
      (Nat.pow 2 52 ≤ m ∨ e = leastExponent)
  | _ => True

end Binary64

end ProjectCheck.Decimal
