import ProjectCheck.Log.Level
import ProjectCheck.Text.Calendar
import ProjectCheck.Text.Loose
import ProjectCheck.Text.Template

/-!
Log records as lines. A record stands on one line: in its message a newline is written as a
backslash and the letter n, and a backslash as two, so that the message can be read back from the
line.
-/
namespace ProjectCheck

open Decimal

structure LogRecord where
  seconds : Binary64
  parentProcess : Nat
  process : Nat
  level : Level
  message : LooseText
  failure : Option LooseText := none

namespace LogRecord

def escapeCode (code : Code) : LooseText :=
  if code = .char '\\' then [.char '\\', .char '\\']
  else if code = .char '\n' then [.char '\\', .char 'n']
  else [code]

def escape (text : LooseText) : LooseText := text.flatMap escapeCode

def unescape : LooseText → LooseText
  | .char '\\' :: .char '\\' :: rest => .char '\\' :: unescape rest
  | .char '\\' :: .char 'n' :: rest => .char '\n' :: unescape rest
  | code :: rest => code :: unescape rest
  | [] => []

def escapeNewlines (text : LooseText) : LooseText :=
  text.flatMap fun code => if code = .char '\n' then [.char '\\', .char 'n'] else [code]

/-- The millionths of a second in a fraction of one, rounded to the nearest whole number, a tie to
the even one. -/
def microseconds (fraction : Binary64) : Int :=
  let scaled := fraction.mul (.ofInt 1000000)
  let magnitude := scaled.roundMagnitude?.getD 0
  if scaled.isNegative then -(magnitude : Int) else magnitude

structure Instant where
  seconds : Int
  micros : Nat

def secondsLimit : Int := Int.pow 2 63

def instantOf (time : Binary64) : Except Failure Instant :=
  match time.split with
  | none =>
    if time = .undefined then .error (.unusable "Invalid value NaN (not a number)")
    else .error (.outOfRange "timestamp out of range for platform time_t")
  | some (whole, fraction) =>
    let whole : Int := if time.isNegative then -(whole : Int) else whole
    let micros := microseconds fraction
    let seconds := whole + Int.fdiv micros 1000000
    if seconds < -secondsLimit || secondsLimit ≤ seconds then
      .error (.outOfRange "timestamp out of range for platform time_t")
    else .ok ⟨seconds, (Int.fmod micros 1000000).toNat⟩

def secondsOfDay : Int := 86400

def isYear (year : Int) : Bool := 1 ≤ year && year ≤ 9999

def isCountableYear (year : Int) : Bool :=
  -Int.pow 2 31 ≤ year - 1900 && year - 1900 < Int.pow 2 31

def dateOf (day : Int) : Except Failure Calendar.Date :=
  let date := Calendar.dateOfDay day
  if !isCountableYear date.year then
    .error (.unsupported "[Errno 75] Value too large for defined data type")
  else if !isYear date.year then
    .error (.unusable s!"year {Int.bmod date.year 4294967296} is out of range")
  else .ok date

def microsText (micros : Nat) : String :=
  if micros = 0 then "" else "." ++ Calendar.padded 6 micros

def timestamp (time : Binary64) : Except Failure String := do
  let instant ← instantOf time
  let date ← dateOf (Int.fdiv instant.seconds secondsOfDay)
  let clock := Calendar.clockText (Int.fmod instant.seconds secondsOfDay).toNat
  return s!"{date.text}T{clock}{microsText instant.micros}+00:00"

def body (r : LogRecord) : LooseText :=
  .ofString r.level.name ++ .char ' ' :: escape r.message ++ match r.failure with
    | some text => .char ' ' :: escapeNewlines text
    | none => []

def line (r : LogRecord) : Except Failure LooseText := do
  let time ← timestamp r.seconds
  return .ofString s!"{time} {r.parentProcess} {r.process} " ++ r.body

end LogRecord

end ProjectCheck
