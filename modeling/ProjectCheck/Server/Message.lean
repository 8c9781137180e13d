import ProjectCheck.Files.Uri
import ProjectCheck.Json.Writer

/-!
The messages that a client sends to a language server. A request has a number and is answered, a
notification is not.
-/
namespace ProjectCheck.Message

def version : String × Json := ("jsonrpc", .string "2.0")

def withParams (members : Members Json) : Option Json → Json
  | some params => .object (members ++ [("params", params)])
  | none => .object members

def request (id : Nat) (method : String) (params : Option Json) : Json :=
  withParams [version, ("id", .int id), ("method", .string method)] params

def notification (method : String) (params : Option Json) : Json :=
  withParams [version, ("method", .string method)] params

def emptyReply (id : Json) : Json :=
  .object [version, ("id", id), ("result", .null)]

def capabilities : Json :=
  .object [("textDocument", .object [
    ("publishDiagnostics", .object [
      ("relatedInformation", .bool true),
      ("tagSupport", .object [("valueSet", .array [.int 1, .int 2])]),
      ("codeDescriptionSupport", .bool true),
      ("dataSupport", .bool true)]),
    ("synchronization", .object [("didSave", .bool true)])])]

def folderName (uri : String) : LooseText := (Path.ofText (Uri.key (Uri.afterScheme uri))).name

def initializeParams (rootUri : Option String) : Json :=
  let base := [("processId", .null), ("capabilities", capabilities),
    ("rootUri", match rootUri with
      | some uri => .string uri
      | none => .null)]
  match rootUri with
  | none => .object base
  | some uri =>
    if uri = "" then .object base
    else .object (base ++ [("workspaceFolders",
      .array [.object [("uri", .string uri), ("name", .ofText (folderName uri))]])])

def didOpenParams (uri : String) (languageId : LooseText) (text : String) : Json :=
  .object [("textDocument", .object [
    ("uri", .string uri), ("languageId", .ofText languageId), ("version", .int 1),
    ("text", .string text)])]

def didChangeParams (uri : String) (version : Nat) (text : String) : Json :=
  .object [
    ("textDocument", .object [("uri", .string uri), ("version", .int version)]),
    ("contentChanges", .array [.object [("text", .string text)]])]

end ProjectCheck.Message
