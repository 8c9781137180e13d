import ProjectCheck.Machine.Files
import ProjectCheck.Machine.Turns

/-!
What a client does with a language server that has been started, by the number of the server's
process: requests and notifications, documents and their diagnostics.
-/
namespace ProjectCheck.Machine

def startRequest (pid : Nat) (method : String) (params : Option Json) : Run Machine Nat := do
  updateSession pid Session.begin
  let id := (((← get).session? pid).map (·.lastId)).getD 0
  log .debug s!"LSP Request: {method}"
  send pid (Message.request id method params)
  return id

def outcomeOf : Option Decision → Except Failure Json
  | some (.result value) => .ok value
  | some (.refused text) => .error (.refused text)
  | none => .error .timedOut

def logTimeout (method : String) : Option Decision → Run Machine Unit
  | some _ => return
  | none => log .debug s!"LSP Request {method} timed out"

def finishRequest (pid id : Nat) (method : String) : Run Machine Json := do
  let decision := ((← get).session? pid).bind (·.decision? id)
  logTimeout method decision
  updateSession pid fun s => s.finish id
  .ofExcept (outcomeOf decision)

def request (pid : Nat) (method : String) (params : Option Json) : Run Machine Json := do
  let id ← startRequest pid method params
  awaitDecision pid id
  finishRequest pid id method

def notify (pid : Nat) (method : String) (params : Option Json) : Run Machine Unit := do
  log .debug s!"LSP Notification: {method}"
  send pid (Message.notification method params)

def sendDocument (pid : Nat) (session : Session) (uri text : String) (languageId : LooseText) :
    Run Machine Unit := do
  let version := session.nextVersion uri
  if version = 1 then
    log .debug s!"Opening document: {uri} (language: {languageId})"
    updateSession pid fun s => s.setVersion uri version
    notify pid "textDocument/didOpen" (some (Message.didOpenParams uri languageId text))
  else
    updateSession pid fun s => s.setVersion uri version
    log .debug s!"Changing document: {uri} (version: {version})"
    notify pid "textDocument/didChange" (some (Message.didChangeParams uri version text))

def openDocument (pid : Nat) (path : Path) (language : Option LooseText) : Run Machine Unit := do
  let m ← get
  match m.session? pid with
  | none => return
  | some session =>
    let languageId := language.getD ((session.spec.map (·.languageId path)).getD "plaintext")
    let uri ← .ofExcept (m.uriOf path)
    let text ← .ofExcept (m.readText path)
    sendDocument pid session uri text languageId

def diagnosticsOf (pid : Nat) (path : Path) : Run Machine (List Json) := do
  let m ← get
  let uri ← .ofExcept (m.uriOf path)
  match m.session? pid with
  | some session => .ofExcept (session.diagnostics uri)
  | none => return []

def hasPublished (pid : Nat) (path : Path) : Run Machine Bool := do
  let m ← get
  let uri ← .ofExcept (m.uriOf path)
  return ((m.session? pid).map (·.hasPublished uri)).getD false

end ProjectCheck.Machine
