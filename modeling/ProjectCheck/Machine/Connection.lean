import ProjectCheck.Machine.Basic
import ProjectCheck.Server.Frame

/-!
Connections to language servers: starting a server, sending to it, and what it does with a message.
What a server sends comes to the client in frames, and whoever waits for it is woken.
-/
namespace ProjectCheck

open Text

namespace ServerBehaviour

def Publication.at (publication : Publication) (version : Int) : Json :=
  match publication.versions with
  | [] => publication.diagnostics
  | versions => versions.getD (min version.toNat versions.length - 1) .null

def answer (id : Json) (name : String) (value : Json) : Json :=
  .object [Message.version, ("id", id), (name, value)]

def publish (uri : String) (diagnostics : Json) : Json :=
  .object [Message.version, ("method", .string "textDocument/publishDiagnostics"),
    ("params", .object [("uri", .string uri), ("diagnostics", diagnostics)])]

end ServerBehaviour

structure DocumentRef where
  uri : String
  version : Int

def DocumentRef.ofParams? (params : Json) : Option DocumentRef := do
  let document ← params.get? "textDocument"
  let uri ← (← document.get? "uri").asString?
  match ← document.get? "version" with
  | .int version => return ⟨uri, version⟩
  | _ => none

namespace Connection

def say (utterance : Utterance) (c : Connection) : Connection :=
  { c with dialogue := c.dialogue ++ [utterance] }

def bring (delay : Nat) (octets : Bytes) (c : Connection) : Connection :=
  if delay = 0 then { c with pipe := c.pipe ++ octets }
  else { c with delayed := c.delayed ++ [(delay, octets)] }

/-- The server sends a message, which comes to the client after a number of waits. What cannot be
written is not sent. -/
def post (delay : Nat) (message : Json) (c : Connection) : Connection :=
  match Frame.ofMessage? message with
  | some octets => (c.say (.fromServer message)).bring delay octets
  | none => c

def exit (code : Int) (c : Connection) : Connection :=
  { c with exitCode := some (c.exitCode.getD code) }

def hasExited (c : Connection) : Bool := c.exitCode.isSome

def takeRequest (c : Connection) (id : Json) (method : String) : Connection :=
  match (c.behaviour.replies.get? method).getD c.behaviour.otherwise with
  | .result value => c.post 0 (ServerBehaviour.answer id "result" value)
  | .error value => c.post 0 (ServerBehaviour.answer id "error" value)
  | .silence => c
  | .exits code => c.exit code

def takeDocument (c : Connection) (document : DocumentRef) : Connection :=
  let name := c.behaviour.entryFor document.uri document.version
  let c := match c.behaviour.publications.get? name with
    | some publication => c.post publication.delay (ServerBehaviour.publish document.uri
        (ServerBehaviour.Publication.at publication document.version))
    | none => c
  if c.behaviour.fatalFiles.contains name then c.exit 1 else c

def take (c : Connection) (message : Json) : Connection :=
  if c.hasExited then c
  else match (message.get? "method").bind Json.asString? with
    | none => c
    | some method =>
      match message.get? "id" with
      | some id => c.takeRequest id method
      | none =>
        if method = "textDocument/didOpen" ∨ method = "textDocument/didChange" then
          match (message.get? "params").bind DocumentRef.ofParams? with
          | some document => c.takeDocument document
          | none => c
        else c

def takeTermination (c : Connection) : Connection :=
  if c.behaviour.refusesTermination then c.say .termination
  else (c.say .termination).exit (-15)

/-- One wait of the client goes by. What is due then comes to the client, even from a server that
has ended since. -/
def pass (c : Connection) : Connection :=
  let closer := c.delayed.map fun entry => (entry.1 - 1, entry.2)
  { c with
    pipe := c.pipe ++ (closer.filter fun entry => entry.1 = 0).flatMap Prod.snd
    delayed := closer.filter fun entry => entry.1 ≠ 0 }

def startTasks (c : Connection) : Connection :=
  { c with reader := .starting, listener := .starting, watcher := .starting }

def cancelTasks (c : Connection) : Connection :=
  { c with reader := .over, listener := .over, watcher := .over }

end Connection

namespace Machine

def connection? (m : Machine) (pid : Nat) : Option Connection := m.connections[pid]?

def session? (m : Machine) (pid : Nat) : Option Session := (m.connection? pid).map (·.session)

def updateConnection (pid : Nat) (change : Connection → Connection) : Run Machine Unit :=
  modify fun m => { m with connections := m.connections.modify pid change }

def updateSession (pid : Nat) (change : Session → Session) : Run Machine Unit :=
  updateConnection pid fun c => { c with session := change c.session }

def note (event : Event) : Run Machine Unit :=
  record fun j => { j with events := j.events ++ [event] }

def debug (texts : List String) : Run Machine Unit := texts.forM (log .debug)

def due (turn : Turn) : Run Machine Unit := modify fun m => { m with turns := m.turns ++ [turn] }

def wakeReader (pid : Nat) (c : Connection) : Run Machine Unit := do
  if c.reader = .waiting && !c.pipe.isEmpty then
    updateConnection pid fun c => { c with reader := .woken }
    due (.read pid)

def wakeWatcher (pid : Nat) (c : Connection) : Run Machine Unit := do
  if c.watcher = .waiting && c.hasExited then
    updateConnection pid fun c => { c with watcher := .woken }
    due (.watch pid)

def stir (pid : Nat) : Run Machine Unit := do
  match (← get).connection? pid with
  | none => return
  | some c =>
    wakeReader pid c
    wakeWatcher pid c

def newConnection (m : Machine) (command : List LooseText) (spec : ServerSpec) : Connection where
  behaviour := (((command.headD []).string?.map fileNameOf).bind m.servers.get?).getD {}
  session := { spec := some spec }

def spawn (command : List LooseText) (spec : ServerSpec) : Run Machine Nat := do
  let m ← get
  if m.refusesSpawn then .fail (.notStarted "FileNotFoundError" (command.headD []))
  else
    modify fun m => { m with connections := m.connections ++ [m.newConnection command spec] }
    note (.spawned m.connections.length command)
    return m.connections.length

def startTasks (pid : Nat) : Run Machine Unit := do
  updateConnection pid Connection.startTasks
  [Turn.watch pid, .listen pid, .read pid].forM due

def deliver (pid : Nat) (message : Json) (c : Connection) : Run Machine Unit := do
  let c := (c.say (.toServer message)).take message
  note (.sent pid message)
  updateConnection pid fun _ => c
  stir pid
  if c.behaviour.breaksPipe && c.hasExited then .fail .brokenPipe

def send (pid : Nat) (message : Json) : Run Machine Unit := do
  match (← get).connection? pid with
  | none => return
  | some c =>
    if !c.session.hasPipes then return
    else if !message.isWellFormed then .fail .unencodable
    else deliver pid message c

def endServer (pid : Nat) (code : Int) : Run Machine Unit := do
  updateConnection pid (Connection.exit code)
  stir pid

def tellToEnd (pid : Nat) (c : Connection) : Run Machine Unit := do
  if !c.hasExited then
    note (.terminated pid)
    updateConnection pid Connection.takeTermination

def terminate (pid : Nat) : Run Machine Unit := do
  match (← get).connection? pid with
  | none => return
  | some c =>
    tellToEnd pid c
    updateConnection pid Connection.cancelTasks

end Machine

end ProjectCheck
