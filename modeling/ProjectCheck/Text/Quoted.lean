import ProjectCheck.Text.Digit
import ProjectCheck.Text.Printable

/-!
Quoted text: the form in which a text is shown inside a message. Apostrophes enclose it, or double
quotes when it holds an apostrophe and no double quote; the enclosing mark, the backslash and all
that is not printable are escaped.
-/
namespace ProjectCheck.Text

def apostrophe : Char := '\x27'

def doubleQuote : Char := '\x22'

def quoteMark (s : List Char) : Char :=
  if s.contains apostrophe && !s.contains doubleQuote then doubleQuote else apostrophe

def escapeCode (n : Nat) : List Char :=
  if n < 0x100 then '\\' :: 'x' :: hexDigits 2 n
  else if n < 0x10000 then '\\' :: 'u' :: hexDigits 4 n
  else '\\' :: 'U' :: hexDigits 8 n

def quoteChar (mark c : Char) : List Char :=
  if c = mark ∨ c = '\\' then ['\\', c]
  else if c = '\t' then ['\\', 't']
  else if c = '\n' then ['\\', 'n']
  else if c = '\r' then ['\\', 'r']
  else if isPrintable c then [c]
  else escapeCode c.toNat

def quoteChars (s : List Char) : List Char :=
  let mark := quoteMark s
  mark :: (s.flatMap (quoteChar mark) ++ [mark])

def charsOfCodes (codes : List Nat) : List Char :=
  codes.filterMap fun n => if h : n.isValidChar then some (Char.ofNatAux n h) else none

def quoteCode (mark : Char) (n : Nat) : List Char :=
  if h : n.isValidChar then quoteChar mark (Char.ofNatAux n h) else escapeCode n

def quoteCodes (codes : List Nat) : List Char :=
  let mark := quoteMark (charsOfCodes codes)
  mark :: (codes.flatMap (quoteCode mark) ++ [mark])

def quote (s : String) : String :=
  String.ofList (quoteChars s.toList)

end ProjectCheck.Text
