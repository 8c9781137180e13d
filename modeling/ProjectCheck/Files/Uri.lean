import ProjectCheck.Files.Path
import ProjectCheck.Text.Digit
import ProjectCheck.Text.Utf8

/-!
File URIs. Letters, digits, and the marks `_.-~/` stand for themselves and every other octet of a
path is written by a percent sign and two digits. Decoding undoes this, so that two spellings of one
URI have the same decoded form.
-/
namespace ProjectCheck.Uri

open Text

def isUnreserved (b : UInt8) : Bool :=
  let c := Char.ofNat b.toNat
  b.toNat < 0x80 && (c.isAlphanum || c = '_' || c = '.' || c = '-' || c = '~' || c = '/')

def escapeOctet (b : UInt8) : List Char :=
  '%' :: (hexDigits 2 b.toNat).map Char.toUpper

def encodeOctets (bytes : Bytes) : List Char :=
  bytes.flatMap fun b => if isUnreserved b then [Char.ofNat b.toNat] else escapeOctet b

def scheme : String := "file://"

def ofPath (path : Path) : String :=
  scheme ++ String.ofList (encodeOctets path.text.octets)

def decodeOctets : List Char → Bytes
  | [] => []
  | '%' :: a :: b :: rest =>
    match hexNumber? [a, b] with
    | some n => UInt8.ofNat n :: decodeOctets rest
    | none => UInt8.ofNat 0x25 :: decodeOctets (a :: b :: rest)
  | c :: rest => UInt8.ofNat c.toNat :: decodeOctets rest

def isAscii (c : Char) : Bool := c.toNat < 0x80

/-- A text with its escapes decoded. The octets within one run of ASCII characters are decoded
together, and those that are no UTF-8 become replacement characters. -/
def decodeChars (run : List Char) : List Char → List Char
  | [] => decodeUtf8Lossy (decodeOctets run.reverse)
  | c :: rest =>
    if isAscii c then decodeChars (c :: run) rest
    else decodeUtf8Lossy (decodeOctets run.reverse) ++ c :: decodeChars [] rest

def key (uri : String) : String :=
  String.ofList (decodeChars [] uri.toList)

def afterScheme (uri : String) : String :=
  if uri.startsWith scheme then (uri.drop scheme.length).toString else uri

end ProjectCheck.Uri
