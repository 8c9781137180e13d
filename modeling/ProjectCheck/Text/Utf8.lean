/-!
UTF-8. Decoding takes one octet at a time. It keeps what the octets of an unfinished character still
allow, and gives one failure for every longest run of octets that starts a character but cannot
finish it.
-/
namespace ProjectCheck

abbrev Bytes := List UInt8

namespace Text

def encodeUtf8 (s : List Char) : Bytes :=
  s.flatMap String.utf8EncodeChar

def utf8 (s : String) : Bytes := encodeUtf8 s.toList

/-- An unfinished character: its bits so far, how many octets are missing, and the range in which
the next of them must lie. -/
structure Unfinished where
  bits : Nat
  missing : Nat
  low : Nat
  high : Nat
  deriving Repr, DecidableEq

inductive FirstOctet where
  | whole (n : Nat)
  | starts (u : Unfinished)
  | invalid
  deriving Repr, DecidableEq

/-- The ranges shut out overlong forms, surrogates and codes beyond the last one. -/
def firstOctet (b : UInt8) : FirstOctet :=
  let n := b.toNat
  if n < 0x80 then .whole n
  else if n < 0xC2 then .invalid
  else if n < 0xE0 then .starts ⟨n - 0xC0, 1, 0x80, 0xBF⟩
  else if n = 0xE0 then .starts ⟨0, 2, 0xA0, 0xBF⟩
  else if n = 0xED then .starts ⟨0xD, 2, 0x80, 0x9F⟩
  else if n < 0xF0 then .starts ⟨n - 0xE0, 2, 0x80, 0xBF⟩
  else if n = 0xF0 then .starts ⟨0, 3, 0x90, 0xBF⟩
  else if n < 0xF4 then .starts ⟨n - 0xF0, 3, 0x80, 0xBF⟩
  else if n = 0xF4 then .starts ⟨4, 3, 0x80, 0x8F⟩
  else .invalid

def decodeUnits : Option Unfinished → Bytes → List (Option Char)
  | none, [] => []
  | some _, [] => [none]
  | none, b :: rest =>
    match firstOctet b with
    | .whole n => some (Char.ofNat n) :: decodeUnits none rest
    | .starts u => decodeUnits (some u) rest
    | .invalid => none :: decodeUnits none rest
  | some u, b :: rest =>
    if u.low ≤ b.toNat ∧ b.toNat ≤ u.high then
      let bits := u.bits * 64 + (b.toNat - 0x80)
      if u.missing = 1 then some (Char.ofNat bits) :: decodeUnits none rest
      else decodeUnits (some ⟨bits, u.missing - 1, 0x80, 0xBF⟩) rest
    else
      none :: match firstOctet b with
        | .whole n => some (Char.ofNat n) :: decodeUnits none rest
        | .starts v => decodeUnits (some v) rest
        | .invalid => none :: decodeUnits none rest

def decodeUtf8? (bytes : Bytes) : Option (List Char) :=
  (decodeUnits none bytes).mapM id

def decodeUtf8Lossy (bytes : Bytes) : List Char :=
  (decodeUnits none bytes).map (·.getD '\uFFFD')

end Text

end ProjectCheck
