import ProjectCheck.Aggregation
import ProjectCheck.ExtensionCache
import ProjectCheck.Machine.Checkers
import ProjectCheck.Report
import ProjectCheck.Server.Fleet
import ProjectCheck.Settings.Load

/-!
Checking a directory: with the checker of its language, or with language servers. A directory that
cannot be checked is reported as skipped.
-/
namespace ProjectCheck

structure Desk where
  station : Station
  cache : ExtensionCache := {}

instance : HasMachine Desk :=
  ⟨fun d => d.station.machine, fun machine d => { d with station := { d.station with machine } }⟩

namespace Desk

def fresh (machine : Machine) (settings : Settings) : Desk :=
  ⟨⟨machine, { registry := .ofOverrides settings.serverOverrides }⟩, {}⟩

def onMachine {α : Type} (step : Run Machine α) : Run Desk α := step.onMachine

def onStation {α : Type} (step : Run Station α) : Run Desk α :=
  ExceptT.mk fun d =>
    let (result, station) := step.run d.station
    (result, { d with station })

def extensions : Run Desk (List LooseText) := do
  let d ← get
  let reading := d.cache.read (.ok d.station.fleet.registry.extensions)
  modify fun d => { d with cache := reading.cache }
  reading.logText?.forM fun text => onMachine (Machine.log .debug text)
  .ofExcept reading.result

def means : SurveyMeans Desk Nat where
  session? path := onStation (Fleet.serverFor path)
  openDocument pid path := onMachine (Machine.openDocument pid path none)
  hasPublished pid path := onMachine (Machine.hasPublished pid path)
  diagnostics pid path := onMachine (Machine.diagnosticsOf pid path)
  sleep seconds := onMachine (Machine.sleep seconds)
  log level text := onMachine (Machine.log level text)

def survey (settings : Settings) (directory : Path) (wanted : Option (List LooseText)) :
    Run Desk Survey := do
  let effective ← match wanted with
    | some found => pure found
    | none => extensions
  means.survey ⟨settings.publicationWait, .ok settings.publicationRetries⟩
    settings.ignoredDirectories directory effective

def stopAll : Run Desk Unit := onStation Fleet.stopAll

end Desk

inductive Target where
  | directory (path : Path)
  | missing
  | notDirectory
  | unresolvable
  deriving Repr, DecidableEq

def Machine.target (m : Machine) (directory : LooseText) : Target :=
  match m.find directory with
  | .error _ => .missing
  | .ok (_, node) =>
    if !node.isDirectory then .notDirectory
    else if m.resolutionFails then .unresolvable
    else .directory (m.files.realPath m.workingDirectory directory)

def checkResolved (settings : Settings) (directory : Path) (chosen : Strategy) :
    Run Desk DirectoryReport := do
  Desk.onMachine (Machine.log .info s!"Running {chosen.name} diagnostics on {directory.text}")
  match chosen with
  | .checker language =>
    let result ← Desk.onMachine (language.check directory (some (.real settings.checkerTimeout)))
    return DirectoryReport.ofToolResult language result
  | _ => .ofExcept (DirectoryReport.ofSurvey (← Desk.survey settings directory none))

def checkDirectory (settings : Settings) (directory : LooseText) (strategy : Strategy) :
    Run Desk DirectoryReport := do
  match (← get).station.machine.target directory with
  | .missing =>
    return .skip ("Diagnostics skipped: directory does not exist: " ++ directory)
  | .notDirectory =>
    return .skip ("Diagnostics skipped: path is not a directory: " ++ directory)
  | .unresolvable =>
    Desk.onMachine (Machine.log .info s!"Cannot resolve {directory}: cannot resolve")
    return .skip ("Diagnostics skipped: cannot resolve directory path: " ++ directory)
  | .directory path =>
    let chosen ← Desk.onMachine (strategy.resolve path)
    checkResolved settings path chosen

def checkNamed (settings : Settings) (directory : LooseText) (strategy : Json) :
    Run Desk DirectoryReport := do
  checkDirectory settings directory (← .ofExcept (Strategy.ofValue strategy))

def withDesk {α : Type} (work : Settings → Run Desk α) : Run Machine α := do
  let settings ← .ofExcept (Settings.load (← get) [])
  ExceptT.mk fun m =>
    let (result, desk) := ((work settings).thenAlways Desk.stopAll).run (Desk.fresh m settings)
    (result, desk.station.machine)

def checkOnce (directory : LooseText) (strategy : Json) : Run Machine DirectoryReport :=
  withDesk fun settings => checkNamed settings directory strategy

def surveyOnce (directory : Path) (wanted : Option (List LooseText)) : Run Machine Survey :=
  withDesk fun settings => Desk.survey settings directory wanted

end ProjectCheck
