import ProjectCheck.Dispatch
import ProjectCheck.Proofs.Machine.Checkers
import ProjectCheck.Proofs.Server.Upkeep

/-!
Whole runs. A desk may check and survey directories, look for servers, open documents, be renewed,
and others may work at desks of their own beside it; with every process that is ever started the
client keeps to the order of a session.
-/
namespace ProjectCheck

open Run Machine

namespace Desk

variable {opening : Machine} {d : Desk} {α : Type}

def Tends (opening : Machine) (d after : Desk) : Prop :=
  d.station.Accounted opening none → after.station.Accounted opening none

theorem steady_tends (opening : Machine) : Steady (Tends opening) :=
  Steady.keeps fun d : Desk => d.station.Accounted opening none

theorem ends_onStation {step : Run Station α} {said : Except Failure α → Desk → Prop}
    (h : Ends step d.station fun result station => said result { d with station }) :
    Ends (Desk.onStation step) d said := h

theorem tends_calm {step : Run Machine α} (hstep : Moves Calmly step d.station.machine) :
    Moves (Tends opening) (Desk.onMachine step) d :=
  Moves.onMachine hstep fun _ hcalmly h => h.of_calmly hcalmly

theorem tends_station {step : Run Station α} {concerned : LooseText → Prop}
    (hstep : Moves (Station.Keeps opening d.station.fleet.registry concerned) step d.station) :
    Moves (Tends opening) (Desk.onStation step) d := by
  intro h
  exact (hstep rfl h).1

/-! Surveys. -/

theorem tends_extensions : Moves (Tends opening) Desk.extensions d := by
  have hR := steady_tends opening
  refine Moves.get_bind (Moves.bind hR id fun _ between => ?_)
  refine Moves.bind hR ?_ fun _ after => Moves.ofExcept hR _ after
  cases (d.cache.read (.ok d.station.fleet.registry.extensions)).logText? with
  | none => exact hR.refl between
  | some text => exact tends_calm (lenient_calmly.moves_log .debug text _)

/-- Opening a document in a client keeps it a client. -/
theorem tends_openDocument {key : LooseText} {pid : Nat} (path : Path)
    (language : Option LooseText)
    (hkey : d.station.fleet.clients.get? key = some pid) :
    Moves (Tends opening) (Desk.onMachine (openDocument pid path language)) d := by
  intro h
  have hclient := (h.serves key pid hkey).mono fun _ h => h.ready
  obtain ⟨htalked, hready⟩ := Machine.ends_openDocument h.faithful hclient path language
  exact h.of_talked htalked (fun _ _ => hready) (h.own key pid hkey) (.inr ⟨key, hkey⟩)

theorem calmly_hasPublished (pid : Nat) (path : Path) (m : Machine) :
    Moves Calmly (hasPublished pid path) m := by
  refine Moves.get_bind ?_
  exact Moves.bind_pure steady_calmly (Moves.ofExcept steady_calmly _ m)

theorem calmly_diagnosticsOf (pid : Nat) (path : Path) (m : Machine) :
    Moves Calmly (diagnosticsOf pid path) m := by
  refine Moves.get_bind ?_
  refine Moves.bind steady_calmly (Moves.ofExcept steady_calmly _ m) fun uri after => ?_
  split
  · exact Moves.ofExcept steady_calmly _ after
  · exact steady_calmly.refl after

theorem tends_awaitPublication (wait : Decimal.Binary64) (pid : Nat) (path : Path) (retries : Nat) :
    Moves (Tends opening) (means.awaitPublication wait pid path retries) d := by
  have hR := steady_tends opening
  induction retries generalizing d with
  | zero => exact hR.refl d
  | succ retries ih =>
    refine Moves.bind hR (tends_calm (calmly_hasPublished pid path _)) fun published between => ?_
    split
    · exact Moves.bind hR (tends_calm (calmly_sleep wait _)) fun _ after => ih
    · exact hR.refl between

/-- The process that is found for a file is a client. -/
theorem ends_serverFor (h : d.station.Accounted opening none) (path : Path) :
    Ends (Desk.onStation (Fleet.serverFor path)) d fun result after =>
      after.station.Accounted opening none ∧ ∀ pid, result = .ok (some pid) →
        ∃ key, after.station.fleet.clients.get? key = some pid := by
  have hserved := h.ends_serverFor path
  refine ends_onStation (Ends.mono hserved ?_)
  intro result after hafter
  exact ⟨hafter.1, hafter.2.2⟩

/-- Collecting the diagnostics of a file opens it in a client, if there is one for it. -/
theorem tends_collect (patience : Patience) (path : Path) :
    Moves (Tends opening) (means.collect patience path) d := by
  intro h
  change Ends (means.collect patience path) d fun _ after => after.station.Accounted opening none
  have hR := steady_tends opening
  refine Ends.bind_of (ends_serverFor h path) (fun session served hserved => ?_)
    fun failure after hserved => hserved.1
  obtain ⟨haccounted, hclient⟩ := hserved
  cases session with
  | none => exact haccounted
  | some pid =>
    obtain ⟨key, hkey⟩ := hclient pid rfl
    refine Moves.bind hR (tends_openDocument path none hkey) (fun _ opened => ?_) haccounted
    refine Moves.bind hR (tends_calm (calmly_sleep _ _)) fun _ waited => ?_
    refine Moves.bind hR (Moves.ofExcept hR _ waited) fun retries asked => ?_
    refine Moves.bind hR (tends_awaitPublication _ pid path retries) fun _ published => ?_
    exact Moves.bind_pure hR (tends_calm (calmly_diagnosticsOf pid path _))

theorem tends_collectOrSkip (patience : Patience) (path : Path) :
    Moves (Tends opening) (means.collectOrSkip patience path) d := by
  have hR := steady_tends opening
  refine Moves.bind hR (Moves.attempt (tends_collect patience path)) fun result between => ?_
  split
  · exact hR.refl between
  · exact Moves.bind_pure hR (tends_calm (lenient_calmly.moves_log _ _ _))

/-- A survey looks for files and collects what is published for each of them. -/
theorem tends_surveyFiles (patience : Patience) (ignored : List LooseText) (directory : Path)
    (extensions : List LooseText) :
    Moves (Tends opening) (means.survey patience ignored directory extensions) d := by
  have hR := steady_tends opening
  refine Moves.bind hR (tends_calm (discreet_calmly.moves_findFiles _ _ _)) fun files found => ?_
  refine Moves.bind hR (tends_calm (lenient_calmly.moves_log _ _ _)) fun _ logged => ?_
  have hcollected : Moves (Tends opening) (files.mapM (means.collectOrSkip patience)) logged :=
    Moves.mapM hR (fun path _ _ => tends_collectOrSkip patience path) logged
  exact Moves.bind hR hcollected fun checked after => Moves.ofExcept hR _ after

theorem tends_survey (settings : Settings) (directory : Path) (wanted : Option (List LooseText)) :
    Moves (Tends opening) (survey settings directory wanted) d := by
  have hR := steady_tends opening
  unfold survey
  cases wanted with
  | some found =>
    exact Moves.bind hR (hR.refl d) fun effective between => tends_surveyFiles _ _ _ effective
  | none =>
    exact Moves.bind hR tends_extensions fun effective between => tends_surveyFiles _ _ _ effective

theorem ends_stopAll (h : d.station.Accounted opening none) :
    Ends Desk.stopAll d fun result after => ∃ done, result = .ok done ∧
      after.station.Accounted opening none ∧
      ∀ key, after.station.fleet.clients.get? key = none :=
  ends_onStation h.ends_stopAll

/-! Checks. -/

theorem tends_checkResolved (settings : Settings) (directory : Path) (chosen : Strategy) :
    Moves (Tends opening) (checkResolved settings directory chosen) d := by
  have hR := steady_tends opening
  refine Moves.bind hR (tends_calm (lenient_calmly.moves_log _ _ _)) fun _ between => ?_
  split
  · exact Moves.bind_pure hR (tends_calm (discreet_calmly.moves_check _ directory _ _))
  · exact Moves.bind hR (tends_survey settings directory none) fun _ after =>
      Moves.ofExcept hR _ after

theorem tends_checkDirectory (settings : Settings) (directory : LooseText) (strategy : Strategy) :
    Moves (Tends opening) (checkDirectory settings directory strategy) d := by
  have hR := steady_tends opening
  refine Moves.get_bind ?_
  split
  · exact hR.refl d
  · exact hR.refl d
  · exact Moves.bind_pure hR (tends_calm (lenient_calmly.moves_log _ _ _))
  · refine Moves.bind hR (tends_calm (discreet_calmly.moves_resolve strategy _ _)) ?_
    exact fun chosen after => tends_checkResolved settings _ chosen

/-- Checking a directory, by the checker of a language or by a survey. -/
theorem tends_check (settings : Settings) (directory : LooseText) (strategy : Json) :
    Moves (Tends opening) (checkNamed settings directory strategy) d := by
  have hR := steady_tends opening
  exact Moves.bind hR (Moves.ofExcept hR _ d) fun named between =>
    tends_checkDirectory settings directory named

end Desk

/-! Desks that are closed. -/

namespace Machine

variable {m after : Machine}

structure Visited (m after : Machine) : Prop where
  faithful : after.Faithful
  before : ∀ pid c, m.connection? pid = some c → ∃ c', after.connection? pid = some c' ∧ c.Calm c'
  done : ∀ pid c, m.connections.length ≤ pid → after.connection? pid = some c → c.IsDone

theorem Visited.refl (h : m.Faithful) : m.Visited m where
  faithful := h
  before := fun _ c hc => ⟨c, hc, .refl c⟩
  done := by
    intro pid c hpid hc
    have hlt := Station.lt_length_of_connection? hc
    omega

/-- Where all is accounted for and there is no client, what was started is done. -/
theorem visited_of_accounted {s : Station} (h : s.Accounted m none)
    (hkeys : ∀ key, s.fleet.clients.get? key = none) : m.Visited s.machine where
  faithful := h.faithful
  before := h.before
  done := by
    intro pid c hpid hc
    rcases h.claimed pid c hpid hc with hdone | hloose | ⟨key, hkey⟩
    · exact hdone
    · cases hloose
    · cases (hkeys key).symm.trans hkey

/-- Work at a desk that is closed afterwards leaves no server alive. -/
theorem visited_withDesk {α : Type} {work : Settings → Run Desk α} (hfaithful : m.Faithful)
    (hwork : ∀ settings d, Moves (Desk.Tends m) (work settings) d) :
    Ends (withDesk work) m fun _ after => m.Visited after := by
  have hsame : m.Visited m := .refl hfaithful
  refine Ends.get_bind (Ends.ofExcept_bind (fun settings => ?_) fun _ => hsame)
  have hclosed : Ends ((work settings).thenAlways Desk.stopAll) (Desk.fresh m settings)
      fun _ after => after.station.Accounted m none ∧
        ∀ key, after.station.fleet.clients.get? key = none := by
    have hworked : Ends (work settings) (Desk.fresh m settings) fun _ d =>
        d.station.Accounted m none :=
      hwork settings _ (Station.accounted_opened hfaithful _)
    refine Ends.bind_ok hworked.attempt fun result worked haccounted => ?_
    exact Ends.bind_ok (Desk.ends_stopAll haccounted) fun _ closed hclosed => Ends.ofExcept hclosed
  exact visited_of_accounted hclosed.1 hclosed.2

end Machine

/-- A visit keeps the account of a fleet that was there before. -/
theorem Station.Accounted.of_visited {opening machine : Machine} {s : Station}
    (h : s.Accounted opening none) (hvisited : s.machine.Visited machine) :
    Accounted opening none { s with machine } := by
  apply h.withMachine hvisited.faithful
  · intro pid c _ hc
    exact hvisited.before pid c hc
  · rintro key pid _ ⟨c, hc, hserves⟩
    obtain ⟨c', hc', hcalm⟩ := hvisited.before pid c hc
    exact ⟨c', hc', hserves.of_calm hcalm⟩
  · intro pid c' _ hc'
    cases hc : s.machine.connection? pid with
    | none => exact .inl (hvisited.done pid c' (connection?_eq_none_iff.1 hc) hc')
    | some c =>
      obtain ⟨c'', hc'', hcalm⟩ := hvisited.before pid c hc
      obtain rfl := Option.some.inj (hc''.symm.trans hc')
      have hdone : c.IsDone → c''.IsDone := fun h => h.of_calm hcalm
      exact .inr (.inr (.inr ⟨rfl, c, rfl, hdone⟩))

/-! Runs. -/

namespace Desk

/-- What happens at a desk. Its fleet is used, documents are opened, directories are surveyed and
checked, the servers that are known change, the desk gives way to a new one, and surveys and checks
are done at desks of their own. -/
inductive Action where
  | fleet (action : Fleet.Action)
  | openDocument (path : Path) (language : Option LooseText)
  | survey (settings : Settings) (directory : Path) (wanted : Option (List LooseText))
  | check (settings : Settings) (directory : LooseText) (strategy : Json)
  | invalidate
  | register (registry : Registry)
  | renew (settings : Settings)
  | surveyOnce (directory : Path) (wanted : Option (List LooseText))
  | checkOnce (directory : LooseText) (strategy : Json)

def Action.step : Action → Run Desk Unit
  | fleet action => onStation action.step
  | openDocument path language => do
    match ← onStation (Fleet.serverFor path) with
    | some pid => onMachine (Machine.openDocument pid path language)
    | none => return
  | survey settings directory wanted => do let _ ← Desk.survey settings directory wanted
  | check settings directory strategy => do let _ ← checkNamed settings directory strategy
  | invalidate => modify fun d => { d with cache := d.cache.invalidate }
  | register registry => onStation (Fleet.modifyFleet fun f => { f with registry })
  | renew settings => modify fun d => Desk.fresh d.station.machine settings
  | surveyOnce directory wanted => do let _ ← onMachine (ProjectCheck.surveyOnce directory wanted)
  | checkOnce directory strategy => do let _ ← onMachine (ProjectCheck.checkOnce directory strategy)

def after (d : Desk) (actions : List Action) : Desk :=
  actions.foldl (fun d action => (action.step.run d).2) d

def IsKept (d : Desk) : Prop := ∃ opening, d.station.Accounted opening none

variable {d : Desk}

theorem moves_of_tends {step : Run Desk Unit} (h : ∀ opening, Moves (Tends opening) step d) :
    Moves (fun d after => d.IsKept → after.IsKept) step d := by
  rintro ⟨opening, haccounted⟩
  exact ⟨opening, h opening haccounted⟩

theorem tends_visit {α : Type} {opening : Machine} {work : Settings → Run Desk α}
    (hwork : ∀ start settings d, Moves (Tends start) (work settings) d) :
    Moves (Tends opening) (Desk.onMachine (withDesk work)) d := by
  intro h
  have hvisited := visited_withDesk h.faithful (hwork d.station.machine)
  exact h.of_visited hvisited

theorem isKept_step (action : Action) :
    Moves (fun d after => d.IsKept → after.IsKept) action.step d := by
  cases action with
  | fleet action => exact moves_of_tends fun opening => tends_station (Station.keeps_step action)
  | openDocument path language =>
    apply moves_of_tends
    intro opening h
    change Ends (Action.openDocument path language).step d fun _ after =>
      after.station.Accounted opening none
    refine Ends.bind_of (ends_serverFor h path) (fun session served hserved => ?_)
      fun failure after hserved => hserved.1
    obtain ⟨haccounted, hclient⟩ := hserved
    cases session with
    | none => exact haccounted
    | some pid =>
      obtain ⟨key, hkey⟩ := hclient pid rfl
      exact tends_openDocument path language hkey haccounted
  | survey settings directory wanted =>
    apply moves_of_tends
    intro opening
    exact Moves.bind_pure (steady_tends opening) (tends_survey settings directory wanted)
  | check settings directory strategy =>
    apply moves_of_tends
    intro opening
    exact Moves.bind_pure (steady_tends opening) (tends_check settings directory strategy)
  | invalidate => exact moves_of_tends fun opening h => h
  | register registry =>
    apply moves_of_tends
    intro opening h
    exact ⟨h.faithful, h.before, h.distinct, h.handles, h.own, h.serves, h.claimed⟩
  | renew settings =>
    -- The clients of the old desk are left to themselves: they belong to what was before.
    rintro ⟨opening, h⟩
    exact ⟨d.station.machine, Station.accounted_opened h.faithful _⟩
  | surveyOnce directory wanted =>
    apply moves_of_tends
    intro opening
    have hvisit : Moves (Tends opening)
        (Desk.onMachine (ProjectCheck.surveyOnce directory wanted)) d :=
      tends_visit fun _ settings _ => tends_survey settings directory wanted
    exact Moves.bind_pure (steady_tends opening) hvisit
  | checkOnce directory strategy =>
    apply moves_of_tends
    intro opening
    have hvisit : Moves (Tends opening)
        (Desk.onMachine (ProjectCheck.checkOnce directory strategy)) d :=
      tends_visit fun _ settings _ => tends_check settings directory strategy
    exact Moves.bind_pure (steady_tends opening) hvisit

theorem isKept_after (h : d.IsKept) (actions : List Action) : (d.after actions).IsKept := by
  induction actions generalizing d with
  | nil => exact h
  | cons action rest ih => exact ih (isKept_step action h)

/-- With every process that is ever started the client keeps to the order of a session, waits for
the answers, and says nothing after it has ended the process; and all that is written to the process
is part of the session. -/
theorem orderly_after (surroundings : Machine) (settings : Settings) (actions : List Action)
    (pid : Nat) :
    let m := ((Desk.fresh surroundings.untouched settings).after actions).station.machine
    Orderly (m.dialogue pid) ∧
      m.journal.events.filterMap (Event.about? pid) =
        (m.dialogue pid).filter Utterance.isOfClient := by
  intro m
  have hfresh : (Desk.fresh surroundings.untouched settings).IsKept :=
    ⟨_, Station.accounted_opened surroundings.faithful_untouched _⟩
  obtain ⟨opening, haccounted⟩ := isKept_after hfresh actions
  refine ⟨?_, haccounted.faithful.recorded pid⟩
  change Orderly (((m.connection? pid).map (·.dialogue)).getD [])
  cases hc : m.connection? pid with
  | none => exact Dialogue.nil.orderly
  | some c =>
    obtain ⟨phase, hdialogue⟩ := (haccounted.faithful.connections pid c hc).phase
    exact hdialogue.orderly

end Desk

end ProjectCheck
