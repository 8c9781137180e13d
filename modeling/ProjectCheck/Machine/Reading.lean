import ProjectCheck.Machine.Connection
import ProjectCheck.Text.Blank

/-!
Reading what language servers write. Messages come in pieces of a stream; the frames that are whole
are taken and what is left waits for the next piece. The error stream is read by lines.
-/
namespace ProjectCheck

open Text

def pieceSize : Nat := 4096

def piecesOf (size : Nat) (octets : Bytes) : List Bytes :=
  if size = 0 ∨ octets = [] then [] else octets.take size :: piecesOf size (octets.drop size)
  termination_by octets.length
  decreasing_by
    rename_i h
    simp only [not_or] at h
    have := List.length_pos_iff.2 h.2
    simp only [List.length_drop]
    omega

theorem flatten_piecesOf {size : Nat} (h : size ≠ 0) (octets : Bytes) :
    (piecesOf size octets).flatten = octets := by
  fun_induction piecesOf size octets with
  | case1 octets hstop =>
    rcases hstop with hsize | rfl
    · exact absurd hsize h
    · rfl
  | case2 octets _ ih => rw [List.flatten_cons, ih, List.take_append_drop]

def lineLimit : Nat := 65536

def wholeLines (line : Bytes) : Bytes → List Bytes × Bytes
  | [] => ([], line.reverse)
  | b :: rest =>
    if b = 0x0A then
      let (lines, left) := wholeLines [] rest
      (line.reverse :: lines, left)
    else wholeLines (b :: line) rest

/-- What is logged of the lines of an error stream: their texts without the blanks around them;
blank lines are left out. -/
def stderrTexts (lines : List Bytes) : List String :=
  ((lines.map fun line => String.ofList (trimBlanks (decodeUtf8Lossy line))).filter (· ≠ "")).map
    fun text => "LSP Server stderr: " ++ text

namespace Machine

def handOnDecision : Run Machine Unit := do
  let m ← get
  if let some (pid, id) := m.awaited then
    if (((m.session? pid).bind (·.decision? id))).isSome then
      modify fun m => { m with awaited := none }
      due .handOn

def react (pid : Nat) (reception : Reception) : Run Machine Unit := do
  updateSession pid fun _ => reception.session
  handOnDecision
  debug reception.logs
  reception.reply.forM (send pid)
  reception.failure.forM .fail

def receive (pid : Nat) (message : Json) : Run Machine Unit := do
  match (← get).session? pid with
  | none => return
  | some session => react pid (session.receive message)

def noticeExit (pid : Nat) : Run Machine Unit := do
  if let some code := ((← get).connection? pid).bind (·.exitCode) then
    log .debug s!"LSP Client: Server process exited with code: {code}"
    updateSession pid Session.noticeExit
    handOnDecision

def checkAlive (pid : Nat) : Run Machine Bool := do
  match (← get).connection? pid with
  | none => return false
  | some c =>
    if c.session.exitNoticed then return false
    match c.exitCode with
    | some code =>
      updateSession pid fun s => { s with exitNoticed := true }
      log .debug s!"LSP server process exited with code: {code}"
      return false
    | none => return true

def parseContent (content : Bytes) : Except Failure Json :=
  match decodeUtf8? content with
  | some text => Json.parse (String.ofList text)
  | none => .error .undecodable

def readContent (pid : Nat) (content : Bytes) : Run Machine Unit := do
  if content.isEmpty then return
  match parseContent content with
  | .ok message => receive pid message
  | .error .undecodable | .error .malformedJson =>
    log .debug "Failed to parse LSP message: malformed content"
  | .error failure => .fail failure

def readPiece (pid : Nat) (unframed piece : Bytes) : Run Machine Bytes := do
  let taken := Frame.takeAll (unframed ++ piece)
  taken.contents.forM (readContent pid)
  if let some fault := taken.fault then .fail (.number fault)
  return taken.rest

/-- Reads pieces while the server is alive; the result is what is left, unless the server is seen to
have ended. -/
def readPieces (pid : Nat) (unframed : Bytes) : List Bytes → Run Machine (Option Bytes)
  | [] => return if ← checkAlive pid then some unframed else none
  | piece :: rest => do
    if ← checkAlive pid then readPieces pid (← readPiece pid unframed piece) rest
    else return none

/-- Reads the messages of a stream that comes in pieces, where there is a stream. It ends with the
first piece that is empty. -/
def readStream (pid : Nat) (pieces : List Bytes) : Run Machine Unit := do
  if (((← get).session? pid).map (·.hasPipes)).getD false then
    if (← readPieces pid [] (pieces.takeWhile (· ≠ []))).isSome then
      log .debug "LSP Client: No more data from server, stopping reader"

def logLines (lines : List Bytes) : Run Machine Unit := do
  debug (stderrTexts (lines.takeWhile (·.length ≤ lineLimit)))
  if lines.any (·.length > lineLimit) then
    .fail (.unusable "Separator is found, but chunk is longer than limit")

def readErrors (pid : Nat) (octets : Bytes) : Run Machine Unit := do
  if (((← get).session? pid).map (·.hasPipes)).getD false then
    let (lines, left) := wholeLines [] octets
    logLines lines
    if left.length > lineLimit then
      .fail (.unusable "Separator is not found, and chunk exceed the limit")
    debug (stderrTexts [left])

end Machine

end ProjectCheck
