import ProjectCheck.Proofs.Machine.Journal
import ProjectCheck.Proofs.Text.Loose
import ProjectCheck.Server.Fleet

/-!
What a fleet does does not read the journal, runs no tool, and starts servers by commands that are
found.
-/
namespace ProjectCheck

open Run

instance : LawfulMachine Station := ⟨fun _ _ => rfl, fun _ _ _ => rfl⟩

theorem Station.resolve_of_prospect {s : Station} {path : Path} {spec : ServerSpec}
    {executable : LooseText} (h : s.prospect path = .installed spec executable) :
    ∃ found : String, executable = found ∧
      spec.command.string?.bind s.machine.resolveCommand = some found := by
  unfold prospect at h
  split at h
  · cases h
  · split at h
    · cases h
    · rename_i found hresolved
      cases h
      exact ⟨found, rfl, hresolved⟩

/-- The command line of a server whose command is found starts with the place where it is. -/
theorem ServerSpec.launchCommand_eq {m : Machine} {command found : String}
    (h : m.resolveCommand command = some found) (spec : ServerSpec) :
    spec.launchCommand (some (LooseText.ofString found)) = (found : LooseText) :: spec.args := by
  have hne : (found : LooseText) ≠ [] := by
    rw [ne_eq, LooseText.ofString_eq_nil]
    rintro rfl
    obtain ⟨-, hpath⟩ := Machine.resolveCommand_eq_some_iff.1 h
    rw [Machine.searchPath] at hpath
    split at hpath
    · exact absurd (congrArg String.toList (Option.some.inj hpath)) (by simp)
    · cases hpath
  rw [launchCommand]
  simp only [if_neg hne]

namespace Fleet

variable {known : List String} {rule : LaunchRule}

theorem heeds_onMachine {α : Type} {step : Run Machine α} (h : Heeds known rule step) :
    Heeds known rule (onMachine step) :=
  h.onMachine

theorem heeds_log (level : Level) (text : String) : Heeds known rule (Fleet.log level text) :=
  heeds_onMachine (Machine.heeds_log level text)

theorem heeds_modifyFleet (change : Fleet → Fleet) : Heeds known rule (modifyFleet change) :=
  Heeds.modify fun _ _ _ => rfl

theorem heeds_client? (key : LooseText) : Heeds known rule (client? key) :=
  Heeds.get_bind (fun _ => Heeds.pure _) fun _ _ _ _ => rfl

theorem heeds_shutDown (pid : Nat) : Heeds known rule (shutDown pid) :=
  (Machine.heeds_request pid _ _).bind fun _ => Machine.heeds_notify pid _ _

theorem heeds_dismiss (key : LooseText) (pid : Nat) : Heeds known rule (dismiss key pid) := by
  refine (heeds_onMachine (Machine.heeds_checkAlive pid)).bind fun _ => Heeds.when ?_
  refine (heeds_onMachine (heeds_shutDown pid)).attempt.bind fun outcome => ?_
  cases outcome with
  | ok _ => exact Heeds.pure _
  | error failure => exact heeds_log _ _

theorem heeds_stop (key : LooseText) : Heeds known rule (stop key) := by
  refine (heeds_client? key).bind fun client => (heeds_modifyFleet _).bind fun _ => ?_
  cases client with
  | none => exact Heeds.pure _
  | some pid =>
    exact (heeds_log _ _).bind fun _ => (heeds_dismiss key pid).bind fun _ =>
      (heeds_onMachine (Machine.heeds_terminate pid)).bind fun _ => heeds_log _ _

theorem heeds_greet (pid : Nat) (path : Path) : Heeds known rule (greet pid path) := by
  refine (Machine.heeds_log _ _).bind fun _ => (Machine.heeds_startTasks pid).bind fun _ => ?_
  refine Heeds.get_bind (fun m => ?_) fun _ _ _ _ => rfl
  exact (Heeds.ofExcept _).bind fun _ => (Machine.heeds_request pid _ _).bind fun _ =>
    (Machine.heeds_notify pid _ _).bind fun _ => Heeds.pure _

theorem heeds_launch {spec : ServerSpec} {executable : LooseText}
    (hstarts : rule.server (spec.launchCommand (some executable))) (path : Path) :
    Heeds known rule (launch spec executable path) := by
  refine (heeds_log _ _).bind fun _ =>
    (heeds_onMachine (Machine.heeds_spawn hstarts _)).bind fun pid =>
      (heeds_onMachine (heeds_greet pid path)).attempt.bind fun outcome => ?_
  cases outcome with
  | ok said =>
    exact (heeds_modifyFleet _).bind fun _ => (heeds_log _ _).bind fun _ => Heeds.pure _
  | error failure =>
    exact (heeds_log _ _).bind fun _ =>
      (heeds_onMachine (Machine.heeds_terminate pid)).bind fun _ => Heeds.fail failure

theorem heeds_start {spec : ServerSpec} {executable : LooseText}
    (hstarts : rule.server (spec.launchCommand (some executable))) (path : Path) :
    Heeds known rule (start spec executable path) := by
  refine (heeds_client? spec.key).bind fun client => ?_
  cases client with
  | none => exact heeds_launch hstarts path
  | some pid =>
    exact (heeds_onMachine (Machine.heeds_checkAlive pid)).bind fun _ => Heeds.ite
      (Heeds.pure _) ((heeds_log _ _).bind fun _ => (heeds_stop spec.key).bind fun _ =>
        heeds_launch hstarts path)

theorem heeds_stopAll : Heeds known rule stopAll :=
  Heeds.get_bind (fun _ => Heeds.forM heeds_stop) fun _ _ _ _ => rfl

/-! Prospects. -/

theorem prospect_outfitted {installed : List String} (h : HaveSameCommands known installed)
    (journal : Journal) (s : Station) (path : Path) :
    (outfitted journal installed s).prospect path = (outfitted {} known s).prospect path := by
  have hcommand : (outfitted journal installed s).machine.resolveCommand =
      (outfitted {} known s).machine.resolveCommand := (Machine.resolveCommand_congr h).symm
  have hfleet : (outfitted journal installed s).fleet = (outfitted {} known s).fleet := rfl
  rw [Station.prospect, Station.prospect, hcommand, hfleet]

theorem logTexts_outfitted {installed : List String} (h : HaveSameCommands known installed)
    (journal : Journal) (s : Station) (paths : List Path) :
    (outfitted journal installed s).logTexts paths = (outfitted {} known s).logTexts paths := by
  simp only [Station.logTexts, prospect_outfitted h]

/-- The server that is in prospect is started by a command that is found. -/
theorem heeds_server (hserver : ∀ line, IsFoundIn known line → rule.server line) (s : Station)
    (path : Path) : Heeds known rule (((outfitted {} known s).prospect path).server path) := by
  cases hprospect : (outfitted {} known s).prospect path with
  | unknown => exact Heeds.pure _
  | notInstalled spec => exact Heeds.pure _
  | installed spec executable =>
    obtain ⟨found, rfl, hbind⟩ := Station.resolve_of_prospect hprospect
    obtain ⟨command, -, hresolved⟩ := Option.bind_eq_some_iff.1 hbind
    refine (heeds_start (hserver _ ?_) path).map some
    rw [ServerSpec.launchCommand_eq hresolved]
    exact Machine.isFoundIn_of_resolveCommand spec.args hresolved

section

variable (hserver : ∀ line, IsFoundIn known line → rule.server line)

include hserver

theorem heeds_serverFor (path : Path) : Heeds known rule (serverFor path) := by
  refine Heeds.get_bind_of (fun s => ?_) fun journal installed s hsame => ?_
  · exact (heeds_onMachine (Machine.heeds_debug _)).bind fun _ => heeds_server hserver s path
  · rw [prospect_outfitted hsame, logTexts_outfitted hsame]

theorem heeds_serverInTurn (path : Path) : Heeds known rule (serverInTurn path) := by
  refine Heeds.get_bind_of (fun s => ?_) fun journal installed s hsame => ?_
  · have hturn : Heeds known rule (awaitTurn ((outfitted {} known s).prospect path)) :=
      Heeds.when ((heeds_onMachine (Machine.heeds_due _)).bind fun _ =>
        heeds_onMachine Machine.heeds_giveWay)
    exact hturn.bind fun _ => (heeds_server hserver s path).attempt
  · simp only [prospect_outfitted hsame]

theorem heeds_serveAll (paths : List Path) : Heeds known rule (serveAll paths) := by
  induction paths with
  | nil => exact Heeds.pure _
  | cons path rest ih =>
    refine Heeds.get_bind_of (fun s => ?_) fun journal installed s hsame => ?_
    · refine (heeds_onMachine (Machine.heeds_debug _)).bind fun _ =>
        (heeds_onMachine (Machine.heeds_sayFirst _)).bind fun _ =>
          (heeds_server hserver s path).attempt.bind fun server =>
            (heeds_onMachine Machine.heeds_takeBack).bind fun said => ?_
      exact Heeds.ite (ih.bind fun _ => Heeds.pure _)
        ((Heeds.mapM (heeds_serverInTurn hserver)).bind fun _ => Heeds.pure _)
    · simp only [prospect_outfitted hsame, logTexts_outfitted hsame]

theorem heeds_serversFor (paths : List Path) : Heeds known rule (serversFor paths) :=
  (heeds_serveAll hserver paths).bind fun _ => (heeds_onMachine (Machine.heeds_due _)).bind fun _ =>
    (heeds_onMachine Machine.heeds_giveWay).bind fun _ => Heeds.pure _

end

end Fleet

end ProjectCheck
