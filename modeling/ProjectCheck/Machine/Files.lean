import ProjectCheck.Files.RealPath
import ProjectCheck.Machine.Basic
import ProjectCheck.Text.Line

/-!
Questions to the files of a machine, and changes to them.
-/
namespace ProjectCheck.Machine

open Text

def find (m : Machine) (text : LooseText) : Except LookupFault (List LooseText × Node) :=
  m.files.lookup m.workingDirectory text

/-- Something that satisfies a test is at the path. A name that is too long is the only fault that
does not count as nothing. -/
def isAt (m : Machine) (test : Node → Bool) (path : Path) : Except Failure Bool :=
  match m.find path.text with
  | .ok (_, node) => .ok (test node)
  | .error .nameTooLong => .error (.lookup .nameTooLong path.text)
  | .error _ => .ok false

def holds (m : Machine) (path : Path) : Except Failure Bool := m.isAt (fun _ => true) path

def holdsDirectory (m : Machine) (path : Path) : Except Failure Bool := m.isAt (·.isDirectory) path

/-- The first failure counts when no name before it is there. -/
def holdsAny (m : Machine) (directory : Path) : List LooseText → Except Failure Bool
  | [] => .ok false
  | name :: rest =>
    match m.holds (directory.join (Path.ofText name)) with
    | .ok true => .ok true
    | .ok false => holdsAny m directory rest
    | .error failure => .error failure

def resolve (m : Machine) (path : Path) : Except Failure Path :=
  if !path.text.isEncodable then .error (.lookup .unencodable path.text)
  else if path.text.contains (.char '\x00') then .error (.lookup .zeroByte path.text)
  else
    let real := m.files.realPath m.workingDirectory path.text
    match m.find real.text with
    | .error .tooManyLinks => .error (.linkLoop real.text)
    | _ => .ok real

def uriOf (m : Machine) (path : Path) : Except Failure String :=
  (m.resolve path).map Uri.ofPath

def readOctets (m : Machine) (path : Path) : Except Failure Bytes :=
  match m.find path.text with
  | .ok (_, .file content) => .ok content
  | .ok _ => .error (.isDirectory path.text)
  | .error fault => .error (.lookup fault path.text)

def readText (m : Machine) (path : Path) : Except Failure String :=
  (m.readOctets path).map fun octets => String.ofList (unifyNewlines (decodeUtf8Lossy octets))

def placeFor (m : Machine) (path : Path) : List LooseText :=
  match m.files.locate m.workingDirectory path.parent.text true with
  | .ok location => location ++ [path.name]
  | .error _ => (if path.isAbsolute then [] else m.workingDirectory) ++ path.parts

def place (path : Path) (node : Node) (m : Machine) : Machine :=
  { m with files := Node.put node (m.placeFor path) m.files }

def remove (path : Path) (m : Machine) : Machine :=
  { m with files := Node.removeAt (m.placeFor path) m.files }

end ProjectCheck.Machine
