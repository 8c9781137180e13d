import ProjectCheck.Machine.Basic

/-!
Commands by name. A name is only looked up when it cannot be taken for anything but a name: a
letter, then letters, digits, dots, underscores and hyphens, all of the ASCII alphabet.
-/
namespace ProjectCheck

def isCommandStart (c : Char) : Bool := c.isAlpha

def isCommandChar (c : Char) : Bool := c.isAlphanum || c = '.' || c = '_' || c = '-'

def isSafeCommand (command : String) : Bool :=
  match command.toList with
  | [] => false
  | c :: rest => isCommandStart c && rest.all isCommandChar

namespace Machine

def searchPath (m : Machine) (command : String) : Option String :=
  if m.installed.contains command then some ("/usr/bin/" ++ command) else none

def resolveCommand (m : Machine) (command : String) : Option String :=
  if isSafeCommand command then m.searchPath command else none

def commandExists (m : Machine) (command : String) : Bool := (m.resolveCommand command).isSome

end Machine

end ProjectCheck
