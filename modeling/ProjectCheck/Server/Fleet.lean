import ProjectCheck.Machine.Command
import ProjectCheck.ProjectRoot
import ProjectCheck.Server.Client
import ProjectCheck.Server.Registry

/-!
Fleets of language servers: at most one running server for each key, started when a file first needs
it and started again when it has ended. A server that cannot be started is ended at once and leaves
no entry.
-/
namespace ProjectCheck

structure Started where
  pid : Nat
  initialization : Option (Members Json)

structure Fleet where
  registry : Registry
  clients : Members Nat LooseText := []
  running : Members Started LooseText := []

structure Station where
  machine : Machine
  fleet : Fleet

instance : HasMachine Station := ⟨Station.machine, fun machine s => { s with machine }⟩

namespace Fleet

def onMachine {α : Type} (step : Run Machine α) : Run Station α := step.onMachine

def log (level : Level) (text : String) : Run Station Unit := onMachine (Machine.log level text)

def modifyFleet (change : Fleet → Fleet) : Run Station Unit :=
  modify fun s => { s with fleet := change s.fleet }

def client? (key : LooseText) : Run Station (Option Nat) :=
  return (← get).fleet.clients.get? key

def without (key : LooseText) (f : Fleet) : Fleet :=
  { f with clients := f.clients.erase key, running := f.running.erase key }

def withStarted (key : LooseText) (started : Started) (f : Fleet) : Fleet :=
  { f with
    clients := f.clients.set key started.pid
    running := f.running.set key started }

def forget (key : LooseText) : Run Station Unit := modifyFleet (without key)

def keep (key : LooseText) (started : Started) : Run Station Unit :=
  modifyFleet (withStarted key started)

def shutDown (pid : Nat) : Run Machine Unit := do
  let _ ← Machine.request pid "shutdown" none
  Machine.notify pid "exit" none

def dismiss (key : LooseText) (pid : Nat) : Run Station Unit := do
  if ← onMachine (Machine.checkAlive pid) then
    match ← (onMachine (shutDown pid)).attempt with
    | .ok _ => return
    | .error failure =>
      log .warning s!"Error shutting down LSP server '{key}': {failure.message}"

def stop (key : LooseText) : Run Station Unit := do
  let client ← client? key
  forget key
  match client with
  | none => return
  | some pid =>
    log .info s!"Stopping LSP server: {key}"
    dismiss key pid
    onMachine (Machine.terminate pid)
    log .info s!"LSP server '{key}' stopped"

def stopAll : Run Station Unit := do
  (← get).fleet.clients.names.forM stop

def greet (pid : Nat) (path : Path) : Run Machine Json := do
  Machine.log .debug "LSP Client: Starting server communication"
  Machine.startTasks pid
  let rootUri ← .ofExcept (findProjectRoot (← get) path rootMarkers)
  let params := Message.initializeParams (some rootUri)
  let said ← Machine.request pid "initialize" (some params)
  Machine.notify pid "initialized" (some (.object []))
  return said

def launch (spec : ServerSpec) (executable : LooseText) (path : Path) : Run Station Nat := do
  log .info s!"Starting LSP server: {spec.key}"
  let pid ← onMachine (Machine.spawn (spec.launchCommand (some executable)) spec)
  match ← (onMachine (greet pid path)).attempt with
  | .ok said =>
    keep spec.key ⟨pid, said.asObject?⟩
    log .info s!"LSP server '{spec.key}' started successfully"
    return pid
  | .error failure =>
    log .warning s!"LSP server '{spec.key}' failed to initialize"
    onMachine (Machine.terminate pid)
    .fail failure

def start (spec : ServerSpec) (executable : LooseText) (path : Path) : Run Station Nat := do
  match ← client? spec.key with
  | none => launch spec executable path
  | some pid =>
    if ← onMachine (Machine.checkAlive pid) then return pid
    else
      log .info s!"LSP server '{spec.key}' has exited, restarting..."
      stop spec.key
      launch spec executable path

end Fleet

/-- What is known of a file's server before it is needed: that there is none for the file's
extension, or that its command is not found, or where the command is. -/
inductive Prospect where
  | unknown
  | notInstalled (spec : ServerSpec)
  | installed (spec : ServerSpec) (executable : LooseText)

namespace Prospect

def logText? (path : Path) : Prospect → Option String
  | unknown => some s!"No LSP server configured for file: {path.text}"
  | notInstalled spec =>
    some s!"LSP server '{spec.key}' not installed ({spec.command}); {spec.installHint}"
  | installed _ _ => none

def server (path : Path) : Prospect → Run Station (Option Nat)
  | installed spec executable => some <$> Fleet.start spec executable path
  | _ => return none

def isInstalled : Prospect → Bool
  | installed _ _ => true
  | _ => false

end Prospect

namespace Station

def prospect (s : Station) (path : Path) : Prospect :=
  match s.fleet.registry.forFile? path with
  | none => .unknown
  | some spec => match spec.command.string?.bind s.machine.resolveCommand with
    | none => .notInstalled spec
    | some executable => .installed spec executable

def logTexts (s : Station) (paths : List Path) : List String :=
  paths.filterMap fun path => (s.prospect path).logText? path

end Station

namespace Fleet

/-- The process of the server for a file. There is none when no server is known for the file's
extension or the command of the server is not found. -/
def serverFor (path : Path) : Run Station (Option Nat) := do
  let s ← get
  onMachine (Machine.debug (s.logTexts [path]))
  (s.prospect path).server path

def awaitTurn (prospect : Prospect) : Run Station Unit := do
  if prospect.isInstalled then
    onMachine (Machine.due .resume)
    onMachine Machine.giveWay

def serverInTurn (path : Path) : Run Station (Except Failure (Option Nat)) := do
  let prospect := (← get).prospect path
  awaitTurn prospect
  (prospect.server path).attempt

/-- The processes of the servers for files that are asked for at once. They are served one after the
other. As soon as anyone waits it is said which of the files left have none, and from then on the
others wait for their turns. -/
def serveAll : List Path → Run Station (List (Except Failure (Option Nat)))
  | [] => return []
  | path :: rest => do
    let s ← get
    onMachine (Machine.debug (s.logTexts [path]))
    onMachine (Machine.sayFirst (s.logTexts rest))
    let server ← ((s.prospect path).server path).attempt
    if ← onMachine Machine.takeBack then return server :: (← serveAll rest)
    else return server :: (← rest.mapM serverInTurn)

def serversFor (paths : List Path) : Run Station (List (Except Failure (Option Nat))) := do
  let servers ← serveAll paths
  onMachine (Machine.due .handOn)
  onMachine Machine.giveWay
  return servers

def aliveness : Run Station (Members Bool LooseText) := do
  (← get).fleet.clients.mapM fun (key, pid) =>
    return (key, ← onMachine (Machine.checkAlive pid))

end Fleet

end ProjectCheck
