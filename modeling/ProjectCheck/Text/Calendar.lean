/-!
The calendar: the lengths of months, and the date of a day counted from the first of January 1970.
-/
namespace ProjectCheck.Calendar

def isLeapYear (year : Nat) : Bool :=
  year % 4 == 0 && (year % 100 != 0 || year % 400 == 0)

def daysInMonth (year month : Nat) : Nat :=
  if month = 2 then if isLeapYear year then 29 else 28
  else if month = 4 ∨ month = 6 ∨ month = 9 ∨ month = 11 then 30
  else 31

structure Date where
  year : Int
  month : Nat
  day : Nat
  deriving Repr, DecidableEq

/-- Years are counted from March here, so that the leap day is the last day of its year, and in
cycles of four hundred, each of which has the same number of days. -/
def dateOfDay (day : Int) : Date :=
  let shifted := day + 719468
  let cycle := Int.fdiv shifted 146097
  let dayOfCycle := (Int.fmod shifted 146097).toNat
  let yearOfCycle :=
    (dayOfCycle - dayOfCycle / 1460 + dayOfCycle / 36524 - dayOfCycle / 146096) / 365
  let dayOfYear := dayOfCycle - (365 * yearOfCycle + yearOfCycle / 4 - yearOfCycle / 100)
  let shiftedMonth := (5 * dayOfYear + 2) / 153
  let dayOfMonth := dayOfYear - (153 * shiftedMonth + 2) / 5 + 1
  let month := if shiftedMonth < 10 then shiftedMonth + 3 else shiftedMonth - 9
  let year := cycle * 400 + yearOfCycle + (if month ≤ 2 then 1 else 0)
  ⟨year, month, dayOfMonth⟩

def padded (width n : Nat) : String :=
  let digits := Nat.toDigits 10 n
  String.ofList (List.replicate (width - digits.length) '0' ++ digits)

def Date.text (date : Date) : String :=
  let year := padded 4 date.year.toNat
  let month := padded 2 date.month
  let day := padded 2 date.day
  s!"{year}-{month}-{day}"

def clockText (second : Nat) : String :=
  let hours := padded 2 (second / 3600)
  let minutes := padded 2 (second / 60 % 60)
  let seconds := padded 2 (second % 60)
  s!"{hours}:{minutes}:{seconds}"

end ProjectCheck.Calendar
