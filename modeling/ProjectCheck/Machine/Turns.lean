import ProjectCheck.Machine.Reading

/-!
Turns. Whoever waits gives way to what is due, first to what became due first, and goes on when its
own turn has come. A turn makes at most one other turn due, and only once for each wait, so that all
that is due is done in the end.
-/
namespace ProjectCheck.Machine

def watchTurn (pid : Nat) (c : Connection) : Run Machine Unit := do
  if c.hasExited then
    updateConnection pid fun c => { c with watcher := .over }
    noticeExit pid
  else updateConnection pid fun c => { c with watcher := .waiting }

def listenTurn (pid : Nat) (c : Connection) : Run Machine Unit := do
  updateConnection pid fun c => { c with listener := .waiting }
  let _ ← (logLines (wholeLines [] c.behaviour.stderr).1).attempt

/-- What the reader does with the pieces that have come. One that waited for the first piece takes
it whether the server is still alive or not. -/
def readTurnPieces (pid : Nat) (c : Connection) : Run Machine (Option Bytes) :=
  match c.reader, piecesOf pieceSize c.pipe with
  | .woken, piece :: rest => do readPieces pid (← readPiece pid c.unframed piece) rest
  | _, pieces => readPieces pid c.unframed pieces

/-- The reader reads all that has come, and waits for more unless the server has ended or something
could not be taken. -/
def readTurn (pid : Nat) (c : Connection) : Run Machine Unit := do
  updateConnection pid fun c => { c with pipe := [] }
  match ← (readTurnPieces pid c).attempt with
  | .ok (some left) => updateConnection pid fun c => { c with unframed := left, reader := .waiting }
  | _ => updateConnection pid fun c => { c with reader := .over }

def taskTurn (pid : Nat) (state : Connection → TaskState) (turn : Connection → Run Machine Unit) :
    Run Machine Unit := do
  if let some c := (← get).connection? pid then
    if state c ≠ .over then turn c

def takeTurn : Turn → Run Machine Unit
  | .watch pid => taskTurn pid (·.watcher) (watchTurn pid)
  | .listen pid => taskTurn pid (·.listener) (listenTurn pid)
  | .read pid => taskTurn pid (·.reader) (readTurn pid)
  | .say texts => debug texts
  | .handOn => due .resume
  | .resume => return

def takeTurns : Nat → Run Machine Unit
  | 0 => return
  | fuel + 1 => do
    match (← get).turns with
    | [] => return
    | turn :: rest =>
      modify fun m => { m with turns := rest }
      takeTurn turn
      if turn ≠ .resume then takeTurns fuel

def giveWay : Run Machine Unit := do takeTurns ((← get).turns.length + 3)

def awaitDecision (pid id : Nat) : Run Machine Unit := do
  modify fun m => { m with awaited := some (pid, id) }
  giveWay
  modify fun m => { m with awaited := none }

def settle : Run Machine Unit := giveWay

def sleep (seconds : Decimal.Binary64) : Run Machine Unit := do
  record fun j => { j with sleeps := j.sleeps ++ [seconds] }
  modify fun m => { m with connections := m.connections.map Connection.pass }
  (List.range (← get).connections.length).forM stir
  settle

def sayFirst (texts : List String) : Run Machine Unit :=
  modify fun m => { m with turns := .say texts :: m.turns }

def takeBack : Run Machine Bool := do
  match (← get).turns with
  | .say _ :: rest =>
    modify fun m => { m with turns := rest }
    return true
  | _ => return false

end ProjectCheck.Machine
