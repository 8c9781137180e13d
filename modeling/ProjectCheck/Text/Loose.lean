import ProjectCheck.Text.Quoted
import ProjectCheck.Text.Utf8

/-!
Texts of characters and lone surrogates. A surrogate that stands alone is no character, but the
escapes of JSON can write it, and an octet of a file's name that is part of no character is read as
one, so that the name can be given back.
-/
namespace ProjectCheck

open Text

inductive Code where
  | char (c : Char)
  | lone (n : Fin 0x800)
  deriving Repr, DecidableEq

namespace Code

def toNat : Code → Nat
  | char c => c.toNat
  | lone n => 0xD800 + n

def ofNat (n : Nat) : Code :=
  if h : n.isValidChar then char (Char.ofNatAux n h) else lone (Fin.ofNat 0x800 (n - 0xD800))

instance : LT Code := ⟨fun a b => a.toNat < b.toNat⟩

instance : DecidableLT Code := fun a b => inferInstanceAs (Decidable (a.toNat < b.toNat))

def char? : Code → Option Char
  | char c => some c
  | lone _ => none

/-- The octets that a code stands for in a file's name. A surrogate from U+DC80 to U+DCFF is an
octet that is part of no character; the others stand for nothing. -/
def octets? : Code → Option Bytes
  | char c => some (String.utf8EncodeChar c)
  | lone n => if 0x480 ≤ n.val ∧ n.val < 0x500 then some [UInt8.ofNat (n - 0x400)] else none

end Code

abbrev LooseText := List Code

namespace LooseText

def ofString (s : String) : LooseText := s.toList.map .char

instance : Coe String LooseText := ⟨ofString⟩

def ofCodes (codes : List Nat) : LooseText := codes.map .ofNat

def codes (text : LooseText) : List Nat := text.map Code.toNat

def string? (text : LooseText) : Option String := (text.mapM Code.char?).map String.ofList

def isEncodable (text : LooseText) : Bool := text.all (·.octets?.isSome)

def octets (text : LooseText) : Bytes := text.flatMap (·.octets?.getD [])

def quoted (text : LooseText) : String := String.ofList (quoteCodes text.codes)

instance : ToString LooseText :=
  ⟨fun text => String.ofList (text.flatMap fun
    | .char c => [c]
    | .lone n => escapeCode (0xD800 + n))⟩

end LooseText

end ProjectCheck
