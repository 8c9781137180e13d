import ProjectCheck.Proofs.Desk
import ProjectCheck.Proofs.Discovery
import ProjectCheck.Proofs.Server.Journal

/-!
What surveys and checks launch. Both heed what is known of the commands that are installed: a check
runs tools by commands that are found, a survey starts servers by them.
-/
namespace ProjectCheck

open Run

instance : LawfulMachine Desk := ⟨fun _ _ => rfl, fun _ _ _ => rfl⟩

variable {known : List String} {rule : LaunchRule}

/-! Surveys. -/

namespace Machine

theorem find_outfitted (journal : Journal) (installed : List String) (m : Machine) :
    (outfitted journal installed m).find = (outfitted {} known m).find := rfl

theorem heeds_findFiles (directory : Path) (search : Search) :
    Heeds known rule (findFiles directory search) := by
  refine Heeds.get_bind (fun m => ?_) fun journal installed m _ => ?_
  · exact (Heeds.ofExcept _).bind fun _ =>
      (Heeds.forM fun text => heeds_log .debug text).bind fun _ =>
        (Heeds.ofExcept _).bind fun _ => Heeds.pure _
  · have hunlistable : (outfitted journal installed m).unlistable =
        (outfitted {} known m).unlistable := rfl
    have hroom : (outfitted journal installed m).walkRoom = (outfitted {} known m).walkRoom := rfl
    have hfind : (outfitted journal installed m).find = (outfitted {} known m).find :=
      find_outfitted journal installed m
    rw [encounters_congr hfind hunlistable hroom, sightings_congr hfind hunlistable hroom]

end Machine

namespace SurveyMeans

variable {σ ι : Type} [HasMachine σ] {means : SurveyMeans σ ι}

structure Heeds (known : List String) (rule : LaunchRule) (means : SurveyMeans σ ι) : Prop where
  session? : ∀ path, Run.Heeds known rule (means.session? path)
  openDocument : ∀ session path, Run.Heeds known rule (means.openDocument session path)
  hasPublished : ∀ session path, Run.Heeds known rule (means.hasPublished session path)
  diagnostics : ∀ session path, Run.Heeds known rule (means.diagnostics session path)
  sleep : ∀ seconds, Run.Heeds known rule (means.sleep seconds)
  log : ∀ level text, Run.Heeds known rule (means.log level text)

namespace Heeds

variable (h : means.Heeds known rule)

include h

theorem awaitPublication (wait : Decimal.Binary64) (session : ι) (path : Path) (retries : Nat) :
    Run.Heeds known rule (means.awaitPublication wait session path retries) := by
  induction retries with
  | zero => exact Run.Heeds.pure _
  | succ retries ih =>
    exact (h.hasPublished session path).bind fun _ => Run.Heeds.when
      ((h.sleep wait).bind fun _ => ih)

theorem collect (patience : Patience) (path : Path) :
    Run.Heeds known rule (means.collect patience path) := by
  refine (h.session? path).bind fun session => ?_
  cases session with
  | none => exact Run.Heeds.pure _
  | some session =>
    exact (h.openDocument session path).bind fun _ => (h.sleep _).bind fun _ =>
      (Run.Heeds.ofExcept _).bind fun _ => (h.awaitPublication _ session path _).bind fun _ =>
        (h.diagnostics session path).bind_pure

theorem collectOrSkip (patience : Patience) (path : Path) :
    Run.Heeds known rule (means.collectOrSkip patience path) := by
  refine (h.collect patience path).attempt.bind fun found => ?_
  cases found with
  | ok found => exact Run.Heeds.pure _
  | error failure => exact (h.log _ _).bind fun _ => Run.Heeds.pure _

theorem survey [LawfulMachine σ] (patience : Patience) (ignored : List LooseText)
    (directory : Path) (extensions : List LooseText) :
    Run.Heeds known rule (means.survey patience ignored directory extensions) :=
  (Machine.heeds_findFiles directory _).onMachine.bind fun _ => (h.log _ _).bind fun _ =>
    (Run.Heeds.mapM (h.collectOrSkip patience)).bind fun _ => Run.Heeds.ofExcept _

end Heeds

end SurveyMeans

/-! Desks. -/

namespace Desk

theorem heeds_onStation {α : Type} {step : Run Station α} (h : Heeds known rule step) :
    Heeds known rule (onStation step) := by
  intro d
  obtain ⟨result, after, added, hadded, hrun⟩ := h d.station
  refine ⟨result, { d with station := after }, added, hadded, fun journal installed hsame => ?_⟩
  change ((step.run (outfitted journal installed d.station)).1,
    { d with station := (step.run (outfitted journal installed d.station)).2 }) = _
  rw [hrun journal installed hsame]
  rfl

theorem heeds_onMachine {α : Type} {step : Run Machine α} (h : Heeds known rule step) :
    Heeds known rule (onMachine step) :=
  h.onMachine

theorem heeds_extensions : Heeds known rule extensions := by
  refine Heeds.get_bind (fun d => ?_) fun journal installed d _ => ?_
  · exact (Heeds.modify fun _ _ _ => rfl).bind fun _ =>
      (Heeds.optionForM fun text => (Machine.heeds_log .debug text).onMachine).bind fun _ =>
        Heeds.ofExcept _
  · rfl

section

variable (hserver : ∀ line, IsFoundIn known line → rule.server line)

include hserver

theorem heeds_means : means.Heeds known rule := by
  have hsession : ∀ path, Heeds known rule (onStation (Fleet.serverFor path)) :=
    fun path => heeds_onStation (Fleet.heeds_serverFor hserver path)
  have hopen : ∀ pid path, Heeds known rule (onMachine (Machine.openDocument pid path none)) :=
    fun pid path => heeds_onMachine (Machine.heeds_openDocument pid path none)
  have hpublished : ∀ pid path, Heeds known rule (onMachine (Machine.hasPublished pid path)) :=
    fun pid path => heeds_onMachine (Machine.heeds_hasPublished pid path)
  have hdiagnostics : ∀ pid path, Heeds known rule (onMachine (Machine.diagnosticsOf pid path)) :=
    fun pid path => heeds_onMachine (Machine.heeds_diagnosticsOf pid path)
  have hsleep : ∀ seconds, Heeds known rule (onMachine (Machine.sleep seconds)) :=
    fun seconds => heeds_onMachine (Machine.heeds_sleep seconds)
  have hlog : ∀ level text, Heeds known rule (onMachine (Machine.log level text)) :=
    fun level text => heeds_onMachine (Machine.heeds_log level text)
  exact ⟨hsession, hopen, hpublished, hdiagnostics, hsleep, hlog⟩

theorem heeds_survey (settings : Settings) (directory : Path) (wanted : Option (List LooseText)) :
    Heeds known rule (survey settings directory wanted) := by
  cases wanted with
  | none => exact heeds_extensions.bind fun _ => (heeds_means hserver).survey _ _ _ _
  | some found => exact (Heeds.pure found).bind fun _ => (heeds_means hserver).survey _ _ _ _

end

/-- A survey runs no tool. -/
theorem runsNoTool_survey (settings : Settings) (directory : Path)
    (wanted : Option (List LooseText))
    (d : Desk) :
    Writes (survey settings directory wanted) d fun _ added => added.calls = [] := by
  let rule : LaunchRule := ⟨fun _ => False, fun _ => True⟩
  have hheeds : ∀ known, Heeds known rule (survey settings directory wanted) :=
    fun _ => heeds_survey (fun _ _ => trivial) settings directory wanted
  refine (Heeds.writes hheeds d).mono fun _ added hobeys => ?_
  exact List.eq_nil_iff_forall_not_mem.2 hobeys.tools

end Desk

/-! Checks. -/

namespace Machine

theorem heeds_finish (tool command : String) (timeout : Timeout)
    (milliseconds : Decimal.Binary64) (behaviour : ToolBehaviour) :
    Heeds known rule (finish tool command timeout milliseconds behaviour) := by
  cases behaviour with
  | finishes exitCode stdout stderr => exact (heeds_log _ _).bind fun _ => Heeds.pure _
  | timesOut stdout stderr => exact (heeds_log _ _).bind fun _ => Heeds.pure _
  | cannotStart cause => exact Heeds.fail _

variable (htool : ∀ line : List String, IsFoundIn known (line.map .ofString) → rule.tool line)

include htool

/-- A tool is run by a command that is found, or not at all. -/
theorem heeds_runTool (tool : String) (arguments : List String) (directory : Path)
    (timeout : Timeout) : Heeds known rule (runTool tool arguments directory timeout) := by
  refine Heeds.get_bind_of (fun m => ?_) fun journal installed m hsame => ?_
  · cases hresolved : (outfitted {} known m).resolveCommand tool with
    | none =>
      simp only
      exact (heeds_log _ _).bind fun _ => Heeds.pure _
    | some command =>
      simp only
      have hfound : IsFoundIn known ((command :: arguments).map .ofString) :=
        isFoundIn_of_resolveCommand (arguments.map .ofString) hresolved
      refine (heeds_log _ _).bind fun _ => Heeds.bind ?_ fun _ => heeds_finish _ _ _ _ _
      refine heeds_record
        (k := { calls := [⟨command :: arguments, directory.text, timeout.seconds⟩] })
        (fun journal => by ext1 <;> simp) ⟨fun call hmem => ?_, nofun⟩
      rw [List.mem_singleton.1 hmem]
      exact htool _ hfound
  · have hcommand : (outfitted journal installed m).resolveCommand =
        (outfitted {} known m).resolveCommand := (resolveCommand_congr hsame).symm
    simp only [hcommand]
    rfl

end Machine

theorem CheckTool.heeds_conclude (tool : CheckTool) (outcome : Outcome) :
    Heeds known rule (tool.conclude outcome) := by
  unfold conclude
  simp only
  split
  · exact (Machine.heeds_log _ _).bind fun _ => Heeds.ofExcept _
  · exact Heeds.ofExcept _

/-- Which markers there are depends on what paths lead to. -/
theorem Machine.holdsAny_congr {m other : Machine} (hfind : other.find = m.find)
    (directory : Path) (names : List LooseText) :
    other.holdsAny directory names = m.holdsAny directory names := by
  induction names with
  | nil => rfl
  | cons name rest ih =>
    have hholds : ∀ path, other.holds path = m.holds path := by
      intro path
      unfold holds isAt
      rw [hfind]
    unfold holdsAny
    rw [hholds, ih]

theorem detectProjectType_congr {m other : Machine} (hfind : other.find = m.find)
    (directory : Path) : detectProjectType other directory = detectProjectType m directory := by
  rw [detectProjectType, detectProjectType]
  induction Language.all with
  | nil => rfl
  | cons language rest ih => rw [detectAmong, detectAmong, Machine.holdsAny_congr hfind, ih]

theorem Strategy.heeds_resolve (strategy : Strategy) (directory : Path) :
    Heeds known rule (strategy.resolve directory) := by
  cases strategy with
  | checker language => exact Heeds.pure _
  | lsp => exact Heeds.pure _
  | auto =>
    refine Heeds.get_bind (fun m => ?_) fun journal installed m _ => ?_
    · exact (Heeds.ofExcept _).bind fun _ => (Machine.heeds_log _ _).bind fun _ => Heeds.pure _
    · have hkind : detectProjectType (outfitted journal installed m) directory =
          detectProjectType (outfitted {} known m) directory :=
        detectProjectType_congr (Machine.find_outfitted journal installed m) directory
      rw [hkind]

section

variable (htool : ∀ line : List String, IsFoundIn known (line.map .ofString) → rule.tool line)

include htool

theorem Language.heeds_runPythonTools (directory : Path) (timeout : Timeout) :
    Heeds known rule (runPythonTools directory timeout) := by
  have hrun : ∀ tool : CheckTool, Heeds known rule (tool.run directory timeout) :=
    fun tool => Machine.heeds_runTool htool _ _ _ _
  refine (hrun .mypy).bind fun first => ?_
  split
  · exact CheckTool.mypy.heeds_conclude first
  · refine (hrun .pylint).bind fun second => ?_
    split
    · exact CheckTool.pylint.heeds_conclude second
    · exact Heeds.pure _

theorem Language.heeds_check (language : Language) (directory : Path) (timeout : Option Timeout) :
    Heeds known rule (language.check directory timeout) := by
  refine Heeds.get_bind (fun m => ?_) fun journal installed m _ => ?_
  · refine (Heeds.ofExcept _).bind fun marked => ?_
    split
    · exact (Machine.heeds_log _ _).bind fun _ => Heeds.pure _
    · split
      · exact (Machine.heeds_runTool htool _ _ _ _).bind fun outcome =>
          CheckTool.heeds_conclude _ outcome
      · exact heeds_runPythonTools htool directory _
  · have hmarked : (outfitted journal installed m).holdsAny directory language.markers =
        (outfitted {} known m).holdsAny directory language.markers :=
      Machine.holdsAny_congr (Machine.find_outfitted journal installed m) _ _
    rw [hmarked]

end

namespace Desk

variable (htool : ∀ line : List String, IsFoundIn known (line.map .ofString) → rule.tool line)
  (hserver : ∀ line, IsFoundIn known line → rule.server line)

include htool hserver

theorem heeds_checkResolved (settings : Settings) (directory : Path) (chosen : Strategy) :
    Heeds known rule (checkResolved settings directory chosen) := by
  refine (heeds_onMachine (Machine.heeds_log _ _)).bind fun _ => ?_
  split
  · exact (heeds_onMachine (Language.heeds_check htool _ directory _)).bind fun _ => Heeds.pure _
  · exact (heeds_survey hserver settings directory none).bind fun _ => Heeds.ofExcept _

theorem heeds_checkDirectory (settings : Settings) (directory : LooseText) (strategy : Strategy) :
    Heeds known rule (checkDirectory settings directory strategy) := by
  refine Heeds.get_bind (fun d => ?_) fun journal installed d _ => rfl
  split
  · exact Heeds.pure _
  · exact Heeds.pure _
  · exact (heeds_onMachine (Machine.heeds_log _ _)).bind fun _ => Heeds.pure _
  · exact (heeds_onMachine (strategy.heeds_resolve _)).bind fun chosen =>
      heeds_checkResolved htool hserver settings _ chosen

theorem heeds_checkNamed (settings : Settings) (directory : LooseText) (strategy : Json) :
    Heeds known rule (checkNamed settings directory strategy) :=
  (Heeds.ofExcept _).bind fun named => heeds_checkDirectory htool hserver settings directory named

end Desk

theorem Run.Heeds.thenAlways {σ α : Type} [HasMachine σ] {step : Run σ α} {after : Run σ Unit}
    (hstep : Heeds known rule step) (hafter : Heeds known rule after) :
    Heeds known rule (step.thenAlways after) :=
  hstep.attempt.bind fun result => hafter.bind fun _ => Heeds.ofExcept result

theorem Settings.load_outfitted (journal : Journal) (installed : List String) (m : Machine)
    (given : Members Json) :
    Settings.load (outfitted journal installed m) given =
      Settings.load (outfitted {} known m) given := rfl

/-- Work at a desk of its own heeds what the work heeds. -/
theorem heeds_withDesk {α : Type} {work : Settings → Run Desk α}
    (hwork : ∀ settings, Heeds known rule (work settings)) : Heeds known rule (withDesk work) := by
  refine Heeds.get_bind (fun m => (Heeds.ofExcept _).bind fun settings => ?_)
    fun journal installed m _ => ?_
  · intro machine
    have hclosed := (hwork settings).thenAlways (Desk.heeds_onStation Fleet.heeds_stopAll)
    obtain ⟨result, after, added, hadded, hrun⟩ := hclosed (Desk.fresh machine settings)
    refine ⟨result, after.station.machine, added, hadded, fun journal installed hsame => ?_⟩
    have hlast := hrun journal installed hsame
    change (((work settings).thenAlways Desk.stopAll).run
      (Desk.fresh (outfitted journal installed machine) settings)) = _ at hlast
    change (((work settings).thenAlways Desk.stopAll).run
        (Desk.fresh (outfitted journal installed machine) settings) |>.1,
      ((work settings).thenAlways Desk.stopAll).run
        (Desk.fresh (outfitted journal installed machine) settings) |>.2.station.machine) = _
    rw [hlast]
    rfl
  · rw [Settings.load_outfitted]

end ProjectCheck
