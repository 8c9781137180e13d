import ProjectCheck.Failure
import ProjectCheck.Files.Uri
import ProjectCheck.Server.Message
import ProjectCheck.Server.Spec

/-!
A client's session with one language server: the requests that wait for an answer, the diagnostics
that were published last for each document, and the version of each document that was sent. Requests
are numbered from one. The first answer to a request, or the end of the server, decides it.
-/
namespace ProjectCheck

inductive Decision where
  | result (value : Json)
  | refused (text : LooseText)

structure Session where
  spec : Option ServerSpec := none
  hasPipes : Bool := true
  lastId : Nat := 0
  pending : List (Nat × Option Decision) := []
  published : Members Json := []
  versions : Members Nat := []
  exitNoticed : Bool := false

/-- What taking a message does: the session afterwards, what is logged, an answer to send, and the
failure that ends the reading of messages. -/
structure Reception where
  session : Session
  logs : List String := []
  reply : Option Json := none
  failure : Option Failure := none

namespace Session

def begin (s : Session) : Session :=
  { s with lastId := s.lastId + 1, pending := s.pending ++ [(s.lastId + 1, none)] }

def decide (s : Session) (id : Nat) (decision : Decision) : Session :=
  { s with pending := s.pending.map fun entry =>
      if entry.1 = id && entry.2.isNone then (id, some decision) else entry }

def decideAll (s : Session) (decision : Decision) : Session :=
  { s with pending := s.pending.map fun entry =>
      if entry.2.isNone then (entry.1, some decision) else entry }

def decision? (s : Session) (id : Nat) : Option Decision := (s.pending.lookup id).join

def finish (s : Session) (id : Nat) : Session :=
  { s with pending := s.pending.filter fun entry => entry.1 ≠ id }

def exitText : String := "LSP server exited"

def noticeExit (s : Session) : Session :=
  { s.decideAll (.refused exitText) with exitNoticed := true }

def uriText : Json → Except Failure LooseText
  | .string uri => .ok uri
  | .illFormed codes => .ok (.ofCodes codes)
  | .array items =>
    if items.any fun item => item.asString? = some "%" then .error (.wrongKind "expected string")
    else .error (.noMember "list" "split")
  | .object members =>
    if members.any fun member => member.1 = "%" then .error (.wrongKind "expected string")
    else .error (.noMember "dict" "split")
  | other => .error (.wrongKind s!"argument of type {Text.quote other.kindName} is not iterable")

/-- Keeps what is published for a document under the decoded form of its URI. The URI of a file has
no lone surrogate, so what is published for one that has is never found and is not kept. -/
def keepFor (s : Session) (uri diagnostics : Json) : Session :=
  match uri.asString? with
  | some text => { s with published := s.published.set (Uri.key text) diagnostics }
  | none => s

/-- Takes published diagnostics. They are kept even when they cannot be counted. -/
def publish (s : Session) (params : Members Json) : Reception :=
  let uri := (params.get? "uri").getD .null
  let diagnostics := (params.get? "diagnostics").getD .null
  match uri.isTruthy, diagnostics with
  | false, _ | _, .null => { session := s }
  | true, diagnostics =>
    match uriText uri with
    | .error failure => { session := s, failure := some failure }
    | .ok text =>
      let s := s.keepFor uri diagnostics
      match diagnostics.itemCount with
      | .error failure => { session := s, failure := some failure }
      | .ok count => { session := s, logs := [s!"Received diagnostics for {text}: {count} issues"] }

def serverLogText (params : Members Json) : String :=
  let kind := (params.get? "type").getD (.string "info")
  let message := (params.get? "message").getD (.string "")
  s!"LSP Server Log [{kind.plain}]: {message.plain}"

def receiveCall (s : Session) (message : Members Json) : Reception :=
  let method := (message.get? "method").getD (.string "unknown")
  let params := (message.get? "params").getD (.object [])
  if method.asString? = some "textDocument/publishDiagnostics" then
    match params.members with
    | .ok params => s.publish params
    | .error failure => { session := s, failure := some failure }
  else if method.asString? = some "window/logMessage" then
    match params.members with
    | .ok params => { session := s, logs := [serverLogText params] }
    | .error failure => { session := s, failure := some failure }
  else match message.get? "id" with
    | some id => { session := s, reply := some (Message.emptyReply id) }
    | none => { session := s, logs := [s!"LSP Unknown notification: {method.plain}"] }

def decisionOf (message : Members Json) : Decision :=
  match message.get? "error" with
  | some error => .refused error.plain
  | none =>
    match (message.get? "result").getD .null with
    | .null => .result (.object [])
    | value => .result value

def receiveAnswer (s : Session) (message : Members Json) (id : Json) : Reception :=
  match id with
  | .array _ | .object _ =>
    { session := s, failure := some (.wrongKind s!"unhashable type: {Text.quote id.kindName}") }
  | id =>
    match s.pending.find? fun entry => id.equalsInt entry.1 with
    | none => { session := s, logs := [s!"LSP Response for unknown request ID {id.plain}"] }
    | some (number, _) =>
      let decision := decisionOf message
      let logs := match decision with
        | .refused text => [s!"LSP Request {id.plain} returned error: {text}"]
        | .result _ => []
      { session := s.decide number decision, logs := logs }

def hasWord (word : List Char) : List Char → Bool
  | [] => word.isEmpty
  | c :: rest => word.isPrefixOf (c :: rest) || hasWord word rest

def holds (name : String) : Json → Except Failure Bool
  | .object members => .ok (Members.has name members)
  | .array items => .ok (items.any fun item => item.asString? = some name)
  | .string text => .ok (hasWord name.toList text.toList)
  | .illFormed codes => .ok (hasWord name.toList (Json.replaced codes).toList)
  | other => .error (.wrongKind s!"argument of type {Text.quote other.kindName} is not iterable")

def malformed (message : Json) : Failure :=
  match holds "id" message, holds "method" message with
  | .error failure, _ | _, .error failure => failure
  | .ok true, .ok false =>
    .wrongKind s!"{message.kindName} indices must be integers or slices, not str"
  | _, _ => .noMember message.kindName "get"

/-- Takes a message of the server: an answer when it has a number and no method, else a notification
or a request. -/
def receive (s : Session) : Json → Reception
  | .object message =>
    match Members.get? "id" message, Members.has "method" message with
    | some id, false => s.receiveAnswer message id
    | _, _ => s.receiveCall message
  | other => { session := s, failure := some (malformed other) }

def diagnostics (s : Session) (uri : String) : Except Failure (List Json) :=
  match s.published.get? (Uri.key uri) with
  | some found => found.items
  | none => .ok []

def hasPublished (s : Session) (uri : String) : Bool := s.published.has (Uri.key uri)

def nextVersion (s : Session) (uri : String) : Nat :=
  match s.versions.get? (Uri.key uri) with
  | some version => version + 1
  | none => 1

def setVersion (s : Session) (uri : String) (version : Nat) : Session :=
  { s with versions := s.versions.set (Uri.key uri) version }

end Session

end ProjectCheck
