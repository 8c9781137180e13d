import ProjectCheck.Decimal.Binary64

/-!
Shortest decimals. The decimal of a number is the one with the fewest digits among those that are
read back as the number, and the nearest to it of that length.
-/
namespace ProjectCheck.Decimal

open Binary64

structure Decimal where
  digits : Nat
  exponent : Int
  deriving Repr, DecidableEq

/-- The decimals that are read back as a number: four times its significand, the ends of the
interval in the same unit 2^`exponent`, and whether the ends belong to it. -/
structure ReadBack where
  value : Nat
  low : Nat
  high : Nat
  exponent : Int
  closed : Bool
  deriving Repr

def ReadBack.of (significand : Nat) (exponent : Int) : ReadBack where
  value := 4 * significand
  low := if significand = Nat.pow 2 52 ∧ exponent > leastExponent then 4 * significand - 1
    else 4 * significand - 2
  high := 4 * significand + 2
  exponent := exponent - 2
  closed := significand % 2 = 0

def onGrid (n : Nat) (exponent place : Int) : Nat × Nat :=
  (n * Nat.pow 2 exponent.toNat * Nat.pow 10 (-place).toNat,
    Nat.pow 2 (-exponent).toNat * Nat.pow 10 place.toNat)

def ReadBack.holds (b : ReadBack) (place : Int) (digits : Nat) : Bool :=
  let (low, unit) := onGrid b.low b.exponent place
  let (high, _) := onGrid b.high b.exponent place
  if b.closed then low ≤ digits * unit && digits * unit ≤ high
  else low < digits * unit && digits * unit < high

def ReadBack.neighbour? (b : ReadBack) (place : Int) : Option Nat :=
  let (num, den) := onGrid b.value b.exponent place
  let below := num / den
  let nearer := roundDiv num den
  let farther := if nearer = below then below + 1 else below
  if b.holds place nearer then some nearer
  else if b.holds place farther then some farther
  else none

def decimalExponent (n : Nat) (exponent : Int) : Int :=
  let guess := ((Nat.log2 n : Int) + exponent) * 30103 / 100000
  let fits (place : Int) : Bool := let (num, den) := onGrid n exponent place; den ≤ num
  if fits (guess + 1) then guess + 1 else if fits guess then guess else guess - 1

def ReadBack.search (b : ReadBack) : Nat → Int → Decimal
  | 0, place => ⟨(onGrid b.value b.exponent place).1 / (onGrid b.value b.exponent place).2, place⟩
  | fuel + 1, place =>
    match b.neighbour? place with
    | some digits => ⟨digits, place⟩
    | none => b.search fuel (place - 1)

def shortest (significand : Nat) (exponent : Int) : Decimal :=
  (ReadBack.of significand exponent).search 17 (decimalExponent significand exponent)

end ProjectCheck.Decimal
