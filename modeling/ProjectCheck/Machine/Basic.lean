import ProjectCheck.Files.Tree
import ProjectCheck.Log.Level
import ProjectCheck.Server.Session

/-!
The machine that a run happens on: its files, its commands and how they behave, the language servers
that have been started, and a journal of everything a run does that others can see. A step changes
the machine and may fail; what it changed before it failed stays changed.
-/
namespace ProjectCheck

open Decimal

inductive PartialOutput where
  | nothing
  | text (text : String)
  | octets (octets : Bytes)

inductive ToolBehaviour where
  | finishes (exitCode : Int) (stdout stderr : Option String)
  | timesOut (stdout stderr : PartialOutput)
  | cannotStart (cause : String)

inductive Reply where
  | result (value : Json)
  | error (value : Json)
  | silence
  | exits (code : Int)

/-- What a language server publishes for a file: by the version it was told of, or always the same;
at once, or only after some waits of the client. -/
structure Publication where
  diagnostics : Json := .null
  versions : List Json := []
  delay : Nat := 0

def fileNameOf (uri : String) : String :=
  ((Path.splitOn '/' (Uri.key uri).toList).getLast?.map String.ofList).getD ""

/-- How a language server behaves: its reply to each method, its publications and the files that end
it, and its troubles. `entryFor` is the name under which its publications and fatal files have a
document that it is told of under a version: usually the last part of the document's path. -/
structure ServerBehaviour where
  replies : Members Reply := []
  otherwise : Reply := .result .null
  entryFor : String → Int → String := fun uri _ => fileNameOf uri
  publications : Members Publication := []
  fatalFiles : List String := []
  stderr : Bytes := []
  refusesTermination : Bool := false
  breaksPipe : Bool := false

/-- Where a task stands: it has its first turn before it, it waits, it has another turn before it
since what it waited for has happened, or it is over. -/
inductive TaskState where
  | starting
  | waiting
  | woken
  | over
  deriving Repr, DecidableEq

/-- What goes between the client and the process of a language server: a message that is written to
the process, a message that it sends, and the signal that asks it to end. -/
inductive Utterance where
  | toServer (message : Json)
  | fromServer (message : Json)
  | termination

/-- A language server's process with the client's session and all that went between them so far, in
order. The octets in `pipe` have come to the client and are not read yet; those in `delayed` come
after the number of waits before them, and those in `unframed` are read but no whole frame. Three
tasks of the client go with the process: one reads its messages, one listens to its error stream and
one watches for its end. -/
structure Connection where
  behaviour : ServerBehaviour
  session : Session
  dialogue : List Utterance := []
  exitCode : Option Int := none
  pipe : Bytes := []
  delayed : List (Nat × Bytes) := []
  unframed : Bytes := []
  reader : TaskState := .over
  listener : TaskState := .over
  watcher : TaskState := .over

/-- What is due while others wait. Turns are taken in the order in which they became due: those of
the tasks of a server, the saying of something, and the two that lead back to the one who waits for
an answer, first handing the answer on and then resuming. -/
inductive Turn where
  | watch (pid : Nat)
  | listen (pid : Nat)
  | read (pid : Nat)
  | say (texts : List String)
  | handOn
  | resume
  deriving Repr, DecidableEq

inductive Event where
  | spawned (pid : Nat) (command : List LooseText)
  | sent (pid : Nat) (message : Json)
  | terminated (pid : Nat)

structure ToolCall where
  command : List String
  directory : LooseText
  timeout : Binary64

structure Journal where
  logs : List (Level × String) := []
  calls : List ToolCall := []
  sleeps : List Binary64 := []
  events : List Event := []

/-- The machine. `startHome` is the home directory of whoever started the program; `accounts` has
the home directories of users by their names, the own one under the empty name. `walkRoom` is how
many directories down a walk can go before the stack of its calls is full. `turns` holds what is
due, first what is due first, and `awaited` the process and the number of the request that someone
waits for. -/
structure Machine where
  files : Node
  workingDirectory : List LooseText
  startHome : String := "/"
  accounts : List (String × String) := []
  environment : List (String × String) := []
  installed : List String := []
  tools : Members ToolBehaviour := []
  elapsed : Binary64 := .zero false
  unlistable : List (List LooseText) := []
  walkRoom : Nat := 960
  resolutionFails : Bool := false
  servers : Members ServerBehaviour := []
  refusesSpawn : Bool := false
  connections : List Connection := []
  turns : List Turn := []
  awaited : Option (Nat × Nat) := none
  journal : Journal := {}

abbrev Run (σ : Type) := ExceptT Failure (StateM σ)

class HasMachine (σ : Type) where
  machine : σ → Machine
  setMachine : Machine → σ → σ

instance : HasMachine Machine := ⟨id, fun machine _ => machine⟩

namespace Run

variable {σ α : Type}

def fail (failure : Failure) : Run σ α := throw failure

def ofExcept : Except Failure α → Run σ α
  | .ok a => pure a
  | .error failure => throw failure

def onMachine [HasMachine σ] (step : Run Machine α) : Run σ α :=
  ExceptT.mk fun s =>
    let (result, machine) := step.run (HasMachine.machine s)
    (result, HasMachine.setMachine machine s)

def attempt (step : Run σ α) : Run σ (Except Failure α) :=
  ExceptT.mk fun s => let (result, s) := step.run s; (.ok result, s)

/-- Does the second step after the first one, whether that fails or not, and ends as the first one
did unless the second one fails. -/
def thenAlways (step : Run σ α) (after : Run σ Unit) : Run σ α := do
  let result ← step.attempt
  after
  ofExcept result

end Run

namespace Machine

def record (change : Journal → Journal) : Run Machine Unit :=
  modify fun m => { m with journal := change m.journal }

def log (level : Level) (text : String) : Run Machine Unit :=
  record fun j => { j with logs := j.logs ++ [(level, text)] }

def lookupVariable (m : Machine) (name : String) : Option String := m.environment.lookup name

end Machine

end ProjectCheck
