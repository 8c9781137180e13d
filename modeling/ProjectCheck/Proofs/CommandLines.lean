import Mathlib.Data.List.Forall2
import ProjectCheck.Proofs.Launches

/-!
Command lines. Whatever servers are known and whatever is done at a desk, a tool or a server is
launched only by what the search path gives for a name of the form of a command, and what is
installed under other names makes no difference. A file whose server has another name for its
command has no server.
-/
namespace ProjectCheck

open Run

def Journal.Launched (j : Journal) (line : List LooseText) : Prop :=
  (∃ call ∈ j.calls, call.command.map .ofString = line) ∨ ∃ pid, Event.spawned pid line ∈ j.events

def Machine.FoundLine (m : Machine) (line : List LooseText) : Prop :=
  ∃ (command path : String) (arguments : List LooseText), IsCommandName command ∧
    m.searchPath command = some path ∧ line = (path : LooseText) :: arguments

theorem Journal.not_launched_nil (line : List LooseText) : ¬ ({} : Journal).Launched line := by
  rintro (⟨call, hmem, -⟩ | ⟨pid, hmem⟩)
  · cases hmem
  · cases hmem

theorem Journal.launched_append {j k : Journal} {line : List LooseText}
    (h : (j ++ k).Launched line) : j.Launched line ∨ k.Launched line := by
  rcases h with ⟨call, hmem, hline⟩ | ⟨pid, hmem⟩
  · exact (List.mem_append.1 hmem).imp (fun hmem => .inl ⟨call, hmem, hline⟩)
      fun hmem => .inl ⟨call, hmem, hline⟩
  · exact (List.mem_append.1 hmem).imp (fun hmem => .inr ⟨pid, hmem⟩) fun hmem => .inr ⟨pid, hmem⟩

def LaunchRule.found (known : List String) : LaunchRule :=
  ⟨fun line => IsFoundIn known (line.map .ofString), IsFoundIn known⟩

theorem Journal.Obeys.foundLine {m : Machine} {j : Journal} (h : j.Obeys (.found m.installed))
    {line : List LooseText} (hline : j.Launched line) : m.FoundLine line := by
  have hfound : IsFoundIn m.installed line := by
    rcases hline with ⟨call, hmem, rfl⟩ | ⟨pid, hmem⟩
    · exact h.tools call hmem
    · exact h.servers pid line hmem
  obtain ⟨command, path, arguments, hname, hline, hpath⟩ := hfound
  exact ⟨command, path, arguments, hname, hpath m rfl, hline⟩

section

variable {σ α : Type} [HasMachine σ]

def equipped (installed : List String) (s : σ) : σ :=
  HasMachine.setMachine { HasMachine.machine s with installed } s

/-- A step launches only what is found where it is done, and what is installed under names that are
no commands makes no difference to its result and to all that it leaves behind. -/
structure MindsCommands (step : Run σ α) (s : σ) : Prop where
  launched : ∃ added, (HasMachine.machine (step.run s).2).journal =
      (HasMachine.machine s).journal ++ added ∧
    ∀ line, added.Launched line → (HasMachine.machine s).FoundLine line
  unprobed : ∀ installed, HaveSameCommands (HasMachine.machine s).installed installed →
    step.run (equipped installed s) = ((step.run s).1, equipped installed (step.run s).2)
  kept : (HasMachine.machine (step.run s).2).installed = (HasMachine.machine s).installed

theorem Run.Heeds.mindsCommands [LawfulMachine σ] {step : Run σ α} {s : σ}
    (hself : HasMachine.setMachine (HasMachine.machine s) s = s)
    (h : Heeds (HasMachine.machine s).installed (.found (HasMachine.machine s).installed) step) :
    MindsCommands step s := by
  obtain ⟨result, after, added, hadded, hrun⟩ := h s
  have hequipped : ∀ installed, HaveSameCommands (HasMachine.machine s).installed installed →
      step.run (equipped installed s) =
        (result, outfitted ((HasMachine.machine s).journal ++ added) installed after) :=
    fun installed hsame => hrun (HasMachine.machine s).journal installed hsame
  have hhere := hequipped _ (.refl _)
  rw [show equipped (HasMachine.machine s).installed s = s from hself] at hhere
  refine ⟨⟨added, ?_, fun line hline => hadded.foundLine hline⟩, fun installed hsame => ?_, ?_⟩
  · rw [hhere, outfitted, LawfulMachine.machine_set]
  · rw [hequipped installed hsame, hhere]
    simp only [equipped, outfitted, LawfulMachine.machine_set, LawfulMachine.set_set]
  · rw [hhere, outfitted, LawfulMachine.machine_set]

end

/-! Runs. -/

namespace Desk

section

variable {known : List String} {rule : LaunchRule}
  (htool : ∀ line : List String, IsFoundIn known (line.map .ofString) → rule.tool line)
  (hserver : ∀ line, IsFoundIn known line → rule.server line)

def Action.IsMove : Action → Prop
  | fleet (.move _) => True
  | _ => False

include htool hserver

theorem heeds_step {action : Action} (hmove : ¬ action.IsMove) :
    Heeds known rule action.step := by
  cases action with
  | fleet action =>
    refine heeds_onStation ?_
    cases action with
    | get path => exact (Fleet.heeds_serverFor hserver path).bind_pure
    | getAll paths => exact (Fleet.heeds_serversFor hserver paths).bind_pure
    | stop key => exact Fleet.heeds_stop key
    | stopAll => exact Fleet.heeds_stopAll
    | ends pid code => exact Fleet.heeds_onMachine (Machine.heeds_endServer pid code)
    | settle => exact Fleet.heeds_onMachine Machine.heeds_giveWay
    | sleep seconds => exact Fleet.heeds_onMachine (Machine.heeds_sleep seconds)
    | move surroundings => exact absurd trivial hmove
  | openDocument path language =>
    refine (heeds_onStation (Fleet.heeds_serverFor hserver path)).bind fun server => ?_
    cases server with
    | none => exact Heeds.pure _
    | some pid => exact heeds_onMachine (Machine.heeds_openDocument pid path language)
  | survey settings directory wanted =>
    exact (heeds_survey hserver settings directory wanted).bind_pure
  | check settings directory strategy =>
    exact (heeds_checkNamed htool hserver settings directory strategy).bind_pure
  | invalidate => exact Heeds.modify fun _ _ _ => rfl
  | register registry =>
    exact heeds_onStation (Fleet.heeds_modifyFleet fun f => { f with registry })
  | renew settings => exact Heeds.modify fun _ _ _ => rfl
  | surveyOnce directory wanted =>
    exact (heeds_onMachine (heeds_withDesk fun settings =>
      heeds_survey hserver settings directory wanted)).bind_pure
  | checkOnce directory strategy =>
    exact (heeds_onMachine (heeds_withDesk fun settings =>
      heeds_checkNamed htool hserver settings directory strategy)).bind_pure

end

/-- The same is done, but the surroundings that the desk is taken to may have other things installed
under names that are no commands. -/
inductive Action.Resembles : Action → Action → Prop
  | refl (action : Action) : Resembles action action
  | move {surroundings : Machine} {installed : List String}
      (hsame : HaveSameCommands surroundings.installed installed) :
      Resembles (.fleet (.move surroundings)) (.fleet (.move { surroundings with installed }))

structure Action.MindsCommands (action : Action) (d : Desk) : Prop where
  launched : ∃ added, (action.step.run d).2.station.machine.journal =
      d.station.machine.journal ++ added ∧
    ∀ line, added.Launched line → d.station.machine.FoundLine line
  unprobed : ∀ installed other, HaveSameCommands d.station.machine.installed installed →
    action.Resembles other → ∃ last,
      HaveSameCommands (action.step.run d).2.station.machine.installed last ∧
      (other.step.run (equipped installed d)).2 = equipped last (action.step.run d).2

theorem mindsCommands_move (surroundings : Machine) (d : Desk) :
    (Action.fleet (.move surroundings)).MindsCommands d := by
  refine ⟨⟨{}, (Journal.append_nil _).symm, fun line hline => ?_⟩,
    fun installed other _ hother => ?_⟩
  · exact absurd hline (Journal.not_launched_nil line)
  · cases hother with
    | refl => exact ⟨surroundings.installed, .refl _, rfl⟩
    | move hsame => exact ⟨_, hsame, rfl⟩

theorem mindsCommands_action (action : Action) (d : Desk) : action.MindsCommands d := by
  -- A move is the only action that changes what is installed, and launches nothing.
  by_cases hmove : action.IsMove
  · match action, hmove with
    | .fleet (.move surroundings), _ => exact mindsCommands_move surroundings d
  · have hminds := Heeds.mindsCommands (s := d) rfl
      (heeds_step (fun _ => id) (fun _ => id) hmove)
    refine ⟨hminds.launched, fun installed other hsame hother => ?_⟩
    cases hother with
    | refl => exact ⟨installed, hminds.kept ▸ hsame, congrArg Prod.snd (hminds.unprobed _ hsame)⟩
    | move => exact absurd trivial hmove

/-- All that is launched in a run was found when it was launched. -/
theorem launched_after {d : Desk} {actions : List Action} {line : List LooseText}
    (h : (d.after actions).station.machine.journal.Launched line) :
    d.station.machine.journal.Launched line ∨ ∃ earlier action later,
      actions = earlier ++ action :: later ∧ (d.after earlier).station.machine.FoundLine line := by
  induction actions generalizing d with
  | nil => exact .inl h
  | cons action rest ih =>
    rcases ih h with hstep | ⟨earlier, next, later, rfl, hfound⟩
    · obtain ⟨added, hadded, hlaunched⟩ := (mindsCommands_action action d).launched
      rw [hadded] at hstep
      exact (Journal.launched_append hstep).imp_right fun hline =>
        ⟨[], action, rest, rfl, hlaunched line hline⟩
    · exact .inr ⟨action :: earlier, next, later, rfl, hfound⟩

/-- Runs that resemble each other leave desks that differ in what is installed alone. -/
theorem equipped_after {d : Desk} {installed : List String} {actions others : List Action}
    (hsame : HaveSameCommands d.station.machine.installed installed)
    (hothers : List.Forall₂ Action.Resembles actions others) :
    ∃ last, HaveSameCommands (d.after actions).station.machine.installed last ∧
      (equipped installed d).after others = equipped last (d.after actions) := by
  induction hothers generalizing d installed with
  | nil => exact ⟨installed, hsame, rfl⟩
  | @cons action other actions others hother _ ih =>
    obtain ⟨between, hbetween, hstep⟩ :=
      (mindsCommands_action action d).unprobed installed other hsame hother
    obtain ⟨last, hlast, hrest⟩ := ih hbetween
    rw [← hstep] at hrest
    exact ⟨last, hlast, hrest⟩

end Desk

/-- A file whose server has no name of a command for its command has no server, and it is only said
that it is not installed. -/
theorem Fleet.serverFor_of_not_isCommandName {s : Station} {path : Path} {spec : ServerSpec}
    (hspec : s.fleet.registry.forFile? path = some spec)
    (hname : ∀ command : String, spec.command = command → ¬ IsCommandName command) :
    (Fleet.serverFor path).run s = (.ok none, journaled (s.machine.journal ++ { logs := [(.debug,
      s!"LSP server '{spec.key}' not installed ({spec.command}); {spec.installHint}")] }) s) := by
  have hprospect : s.prospect path = .notInstalled spec := by
    have hnone : spec.command.string?.bind s.machine.resolveCommand = none := by
      rw [Option.bind_eq_none_iff]
      intro command hcommand
      have hunsafe := hname command (LooseText.string?_eq_some_iff.1 hcommand)
      rw [Machine.resolveCommand, if_neg fun hsafe => hunsafe ((isSafeCommand_iff _).1 hsafe)]
    rw [Station.prospect, hspec]
    simp only [hnone]
  have htexts : s.logTexts [path] =
      [s!"LSP server '{spec.key}' not installed ({spec.command}); {spec.installHint}"] := by
    rw [Station.logTexts, List.filterMap_cons, hprospect]
    rfl
  rw [serverFor, run_bind_ok (run_get s), htexts, hprospect]
  have hjournal : ∀ text, s.machine.journal ++ ({ logs := [(.debug, text)] } : Journal) =
      { s.machine.journal with logs := s.machine.journal.logs ++ [(.debug, text)] } :=
    fun text => by ext1 <;> simp
  rw [hjournal]
  rfl

namespace Desk

structure MindsNames (d : Desk) : Prop where
  action : ∀ action : Action, action.MindsCommands d
  check : ∀ settings directory strategy, MindsCommands (checkNamed settings directory strategy) d
  survey : ∀ settings directory wanted, MindsCommands (survey settings directory wanted) d
  checkOnce : ∀ directory strategy,
    MindsCommands (checkOnce directory strategy) d.station.machine
  surveyOnce : ∀ directory wanted, MindsCommands (surveyOnce directory wanted) d.station.machine
  server : ∀ path, MindsCommands (Fleet.serverFor path) d.station
  servers : ∀ paths, MindsCommands (Fleet.serversFor paths) d.station
  tool : ∀ name arguments directory timeout,
    MindsCommands (Machine.runTool name arguments directory timeout) d.station.machine
  refused : ∀ path spec, d.station.fleet.registry.forFile? path = some spec →
    (∀ command : String, spec.command = command → ¬ IsCommandName command) →
    ∃ text, (Fleet.serverFor path).run d.station =
      (.ok none, journaled (d.station.machine.journal ++ { logs := [(.debug, text)] }) d.station)

theorem mindsNames (d : Desk) : d.MindsNames where
  action action := mindsCommands_action action d
  check settings directory strategy := Heeds.mindsCommands rfl
    (heeds_checkNamed (fun _ => id) (fun _ => id) settings directory strategy)
  survey settings directory wanted := Heeds.mindsCommands rfl
    (heeds_survey (fun _ => id) settings directory wanted)
  checkOnce directory strategy := Heeds.mindsCommands rfl
    (heeds_withDesk fun settings =>
      heeds_checkNamed (fun _ => id) (fun _ => id) settings directory strategy)
  surveyOnce directory wanted := Heeds.mindsCommands rfl
    (heeds_withDesk fun settings => heeds_survey (fun _ => id) settings directory wanted)
  server path := Heeds.mindsCommands rfl (Fleet.heeds_serverFor (fun _ => id) path)
  servers paths := Heeds.mindsCommands rfl (Fleet.heeds_serversFor (fun _ => id) paths)
  tool name arguments directory timeout := Heeds.mindsCommands rfl
    (Machine.heeds_runTool (fun _ => id) name arguments directory timeout)
  refused _ _ hspec hname := ⟨_, Fleet.serverFor_of_not_isCommandName hspec hname⟩

/-- Whatever servers are set or registered and whatever is done at a desk, all that was ever
launched was found by the name of a command when it was launched, and all would have come out the
same had other things been installed under names that are no commands. So it is with all that is
done there next, and a file whose server has no such name for its command has no server. -/
theorem launches_found_commands (surroundings : Machine) (settings : Settings)
    (actions : List Action) :
    let start := fresh surroundings.untouched settings
    let d := start.after actions
    (∀ line, d.station.machine.journal.Launched line → ∃ earlier action later,
      actions = earlier ++ action :: later ∧
      (start.after earlier).station.machine.FoundLine line) ∧
    (∀ installed others, HaveSameCommands surroundings.installed installed →
      List.Forall₂ Action.Resembles actions others → ∃ last,
        HaveSameCommands d.station.machine.installed last ∧
        (equipped installed start).after others = equipped last d) ∧
    d.MindsNames := by
  intro start d
  refine ⟨fun line hline => ?_, fun installed others hsame hothers => ?_, mindsNames d⟩
  · exact (launched_after hline).resolve_left (Journal.not_launched_nil line)
  · exact equipped_after hsame hothers

end Desk

end ProjectCheck
