import ProjectCheck.Discovery
import ProjectCheck.Machine.Checkers
import ProjectCheck.Proofs.Machine.Calm
import ProjectCheck.Proofs.Machine.Ending

/-!
Looking at files and running the tools of a language is discreet: it is written down, and nothing
else changes. So it says nothing to any server.
-/
namespace ProjectCheck

open Run Machine

namespace Machine

structure Discreet (related : Machine → Machine → Prop) : Prop where
  steady : Steady related
  writes : ∀ (m : Machine) (journal : Journal), journal.events = m.journal.events →
    related m (m.withJournal journal)

def OnlyWrites (m after : Machine) : Prop := ∃ journal, after = m.withJournal journal

theorem discreet_onlyWrites : Discreet OnlyWrites where
  steady := ⟨fun m => ⟨m.journal, rfl⟩, by
    rintro s _ _ ⟨first, rfl⟩ ⟨second, rfl⟩
    exact ⟨second, rfl⟩⟩
  writes m journal _ := ⟨journal, rfl⟩

theorem discreet_calmly : Discreet Calmly where
  steady := steady_calmly
  writes _ _ hevents := lenient_calmly.quiet rfl hevents

namespace Discreet

variable {related : Machine → Machine → Prop} (hR : Discreet related)

include hR

theorem moves_log (level : Level) (text : String) (m : Machine) :
    Moves related (log level text) m :=
  hR.writes m _ rfl

theorem moves_findFiles (directory : Path) (search : Search) (m : Machine) :
    Moves related (findFiles directory search) m := by
  refine Moves.get_bind ?_
  refine Moves.bind hR.steady (Moves.ofExcept hR.steady _ m) fun met between => ?_
  refine Moves.bind hR.steady (Moves.forM hR.steady ?_ between) fun _ after =>
    Moves.bind_pure hR.steady (Moves.ofExcept hR.steady _ after)
  intro text _ machine
  exact hR.moves_log .debug text machine

theorem moves_resolve (strategy : Strategy) (directory : Path) (m : Machine) :
    Moves related (strategy.resolve directory) m := by
  unfold Strategy.resolve
  split
  · refine Moves.get_bind ?_
    refine Moves.bind hR.steady (Moves.ofExcept hR.steady _ m) fun _ between => ?_
    exact Moves.bind_pure hR.steady (hR.moves_log _ _ between)
  · exact hR.steady.refl m

theorem moves_finish (tool command : String) (timeout : Timeout)
    (milliseconds : Decimal.Binary64) (behaviour : ToolBehaviour) (m : Machine) :
    Moves related (finish tool command timeout milliseconds behaviour) m := by
  cases behaviour with
  | cannotStart cause => exact hR.steady.refl m
  | timesOut | finishes => exact Moves.bind_pure hR.steady (hR.moves_log _ _ m)

theorem moves_runTool (tool : CheckTool) (directory : Path) (timeout : Timeout) (m : Machine) :
    Moves related (tool.run directory timeout) m := by
  refine Moves.get_bind ?_
  split
  · exact Moves.bind_pure hR.steady (hR.moves_log _ _ m)
  · refine Moves.bind hR.steady (hR.moves_log _ _ m) fun _ between => ?_
    exact Moves.bind hR.steady (hR.writes between _ rfl) fun _ after =>
      hR.moves_finish _ _ _ _ _ after

theorem moves_conclude (tool : CheckTool) (outcome : Outcome) (m : Machine) :
    Moves related (tool.conclude outcome) m := by
  unfold CheckTool.conclude
  simp only
  split
  · exact Moves.bind hR.steady (hR.moves_log _ _ m) fun _ after =>
      Moves.ofExcept hR.steady _ after
  · exact Moves.ofExcept hR.steady _ m

theorem moves_runPythonTools (directory : Path) (timeout : Timeout) (m : Machine) :
    Moves related (Language.runPythonTools directory timeout) m := by
  refine Moves.bind hR.steady (hR.moves_runTool .mypy directory timeout m)
    fun first between => ?_
  split
  · exact hR.moves_conclude .mypy first between
  · refine Moves.bind hR.steady (hR.moves_runTool .pylint directory timeout between)
      fun second after => ?_
    split
    · exact hR.moves_conclude .pylint second after
    · exact hR.steady.refl after

/-- Checking with the tools of a language is discreet. -/
theorem moves_check (language : Language) (directory : Path) (timeout : Option Timeout)
    (m : Machine) : Moves related (language.check directory timeout) m := by
  refine Moves.get_bind ?_
  refine Moves.bind hR.steady (Moves.ofExcept hR.steady _ m) fun marked between => ?_
  split
  · exact Moves.bind_pure hR.steady (hR.moves_log _ _ between)
  · split
    · exact Moves.bind hR.steady (hR.moves_runTool _ directory _ between) fun outcome after =>
        hR.moves_conclude _ outcome after
    · exact hR.moves_runPythonTools directory _ between

end Discreet

end Machine

end ProjectCheck
