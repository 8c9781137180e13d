import ProjectCheck.Machine.Files

/-!
The program's own directory and the files in it. An environment variable names the directory; a
tilde at its start stands for a home directory.
-/
namespace ProjectCheck

def homeVariable : String := "DIRDIAG_HOME"

def directoryName : String := ".dirdiag"

namespace Machine

/-- The home directory that a tilde with a user's name stands for. Without a name the environment is
asked first. -/
def homeOf (m : Machine) (user : String) : Option String :=
  match if user = "" then m.lookupVariable "HOME" else none with
  | some home => some home
  | none => m.accounts.lookup user

def expandUser (m : Machine) (path : Path) : Except Failure Path :=
  match path.slashes, path.parts with
  | 0, (.char '~' :: user) :: rest =>
    match (LooseText.string? user).bind m.homeOf with
    | none => .error (.badConfiguration "Could not determine home directory.")
    | some home =>
      if home.toList.head? = some '~' then
        .error (.badConfiguration "Could not determine home directory.")
      else .ok ((Path.ofText (if home = "" then "/" else home)).join ⟨0, rest⟩)
  | _, _ => .ok path

/-- The program's directory: the one that the environment names, else one in the home directory of
whoever started the program. -/
def home (m : Machine) : Except Failure Path :=
  match m.lookupVariable homeVariable with
  | none | some "" => .ok ((Path.ofText m.startHome).child directoryName)
  | some text => do
    let path ← m.expandUser (Path.ofText text)
    m.resolve path

def configFile (m : Machine) : Except Failure Path := m.home.map (·.child "config.toml")

def logDirectory (m : Machine) : Except Failure Path := m.home.map (·.child "logs")

def logFile (m : Machine) : Except Failure Path := m.logDirectory.map (·.child "dirdiag.log")

end Machine

end ProjectCheck
