import ProjectCheck.Files.Tree
import ProjectCheck.Json.Reader
import ProjectCheck.Json.Writer
import ProjectCheck.Validation

/-!
Why an operation gives no result. Each cause has its wording in one place.
-/
namespace ProjectCheck

open Text

inductive Failure where
  /-- A text that is no whole number, or one of too many digits. -/
  | number (fault : IntegerFault)
  /-- The undefined number has no whole part. -/
  | undefinedNumber
  /-- An infinite number has no whole part. -/
  | infiniteNumber
  /-- A number too long to be written. -/
  | unwritableNumber
  /-- A value that there is no use for. -/
  | unusable (text : String)
  /-- A value beyond all that can be represented. -/
  | outOfRange (text : String)
  /-- A value that the system does not support. -/
  | unsupported (text : String)
  /-- A value of a kind that does not support what is done with it. -/
  | wrongKind (text : String)
  /-- A value without the member that is asked for. -/
  | noMember (kind name : String)
  /-- The fields of a record do not pass their checks. -/
  | invalid (model : String) (issues : List Issue)
  /-- A JSON text, or directories, that are nested too deeply. -/
  | tooDeep
  /-- A text that is no JSON. -/
  | malformedJson
  /-- A value that is none of an enumeration's. -/
  | notAMember (shown enumeration : String)
  /-- A key without an entry. -/
  | noEntry (shown : String)
  /-- A language server answered with an error, or ended before it answered. -/
  | refused (text : LooseText)
  /-- A setting that cannot be read. -/
  | badSetting (text : String)
  /-- A configuration that cannot be read. -/
  | badConfiguration (text : String)
  /-- Octets that are no text. -/
  | undecodable
  /-- A text with a lone surrogate, which no octets write. -/
  | unencodable
  /-- A path that leads to nothing. -/
  | lookup (fault : LookupFault) (path : LooseText)
  /-- A directory where a file is wanted. -/
  | isDirectory (path : LooseText)
  /-- A directory that may not be listed. -/
  | unlistable (path : LooseText)
  /-- A link that leads back to itself. -/
  | linkLoop (path : LooseText)
  /-- The other end of a pipe is closed. -/
  | brokenPipe
  /-- An answer that did not come in time. -/
  | timedOut
  /-- A command that could not be started. -/
  | notStarted (cause : String) (command : LooseText)
  /-- A failure of a caller's own making. -/
  | external (text : String)
  deriving Repr, DecidableEq

def LookupFault.text : LookupFault → String
  | missing => "[Errno 2] No such file or directory"
  | notDirectory => "[Errno 20] Not a directory"
  | tooManyLinks => "[Errno 40] Too many levels of symbolic links"
  | nameTooLong => "[Errno 36] File name too long"
  | zeroByte => "embedded null byte"
  | unencodable => "surrogates not allowed"

def LookupFault.message (fault : LookupFault) (path : LooseText) : String :=
  if fault = .zeroByte ∨ fault = .unencodable then fault.text
  else fault.text ++ ": " ++ path.quoted

namespace Failure

def message : Failure → String
  | number fault => fault.message
  | undefinedNumber => "cannot convert float NaN to integer"
  | infiniteNumber => "cannot convert float infinity to integer"
  | unwritableNumber =>
    s!"Exceeds the limit ({digitLimit} digits) for integer string conversion; " ++
      "use sys.set_int_max_str_digits() to increase the limit"
  | unusable text => text
  | outOfRange text => text
  | unsupported text => text
  | wrongKind text => text
  | noMember kind name => s!"{quote kind} object has no attribute {quote name}"
  | invalid model issues => s!"{issues.length} validation errors for {model}"
  | tooDeep => "maximum recursion depth exceeded"
  | malformedJson => "malformed JSON"
  | notAMember shown enumeration => s!"{shown} is not a valid {enumeration}"
  | noEntry shown => shown
  | refused text => toString text
  | badSetting text => text
  | badConfiguration text => text
  | undecodable => "invalid UTF-8"
  | unencodable => "surrogates not allowed"
  | lookup fault path => fault.message path
  | isDirectory path => "[Errno 21] Is a directory: " ++ path.quoted
  | unlistable path => "[Errno 13] Permission denied: " ++ path.quoted
  | linkLoop path => "Symlink loop from " ++ path.quoted
  | brokenPipe => "[Errno 32] Broken pipe"
  | timedOut => ""
  | notStarted _ command => "[Errno 2] No such file or directory: " ++ command.quoted
  | external text => text

end Failure

def Checked.orFail {α : Type} (model : String) : Checked α → Except Failure α
  | .valid a => .ok a
  | .invalid issues => .error (.invalid model issues)

def ofIntegerFault {α : Type} : Except IntegerFault α → Except Failure α
  | .ok a => .ok a
  | .error fault => .error (.number fault)

namespace Json

def parse (text : String) : Except Failure Json :=
  match read text with
  | .ok value => .ok value
  | .error .malformed => .error .malformedJson
  | .error (.tooManyDigits count) => .error (.number (.tooManyDigits count))
  | .error .tooDeep => .error .tooDeep

def toInteger : Json → Except Failure Int
  | bool b => .ok (if b then 1 else 0)
  | int i => .ok i
  | float x => match x.truncate? with
    | some i => .ok i
    | none => .error (if x = .undefined then .undefinedNumber else .infiniteNumber)
  | string s => ofIntegerFault (readInteger s)
  | illFormed codes => .error (.unusable (malformedNumber (quoteCodes codes)))
  | value =>
    .error (.wrongKind ("int() argument must be a string, a bytes-like object or a real " ++
      s!"number, not {quote value.kindName}"))

def toTimes : Json → Except Failure Nat
  | bool b => .ok (if b then 1 else 0)
  | int i => .ok i.toNat
  | other =>
    .error (.wrongKind s!"{quote other.kindName} object cannot be interpreted as an integer")

def members (value : Json) : Except Failure (Members Json) :=
  match value with
  | object found => .ok found
  | other => .error (.noMember other.kindName "get")

def nameOf : String × Json → Json
  | (_, illNamed codes _) => illFormed codes
  | (name, _) => string name

/-- The items that a value holds: those of an array, the names of an object, the characters of a
string. -/
def items : Json → Except Failure (List Json)
  | array found => .ok found
  | object found => .ok (found.map nameOf)
  | illFormed codes => .ok (codes.map fun code => ofCodes [code])
  | string s => .ok (s.toList.map fun c => string (String.ofList [c]))
  | other => .error (.wrongKind s!"{quote other.kindName} object is not iterable")

def itemCount (value : Json) : Except Failure Nat :=
  match items value with
  | .ok found => .ok found.length
  | .error _ => .error (.wrongKind s!"object of type {quote value.kindName} has no len()")

end Json

def writeInteger (i : Int) : Except Failure String :=
  if (Nat.toDigits 10 i.natAbs).length > digitLimit then .error .unwritableNumber
  else .ok (toString i)

end ProjectCheck
