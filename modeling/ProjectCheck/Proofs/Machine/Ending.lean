import ProjectCheck.Server.Client
import ProjectCheck.Proofs.Machine.Runs

/-!
What steps of a machine come to when the journal is left aside: the result and the machine
afterwards, whatever was written down on the way.
-/
namespace ProjectCheck

open Run

def Machine.withJournal (journal : Journal) (m : Machine) : Machine := { m with journal }

namespace Machine

variable {α β ι : Type} {m between after : Machine} {step : Run Machine α}

@[simp]
theorem withJournal_withJournal (first second : Journal) (m : Machine) :
    (m.withJournal first).withJournal second = m.withJournal second := rfl

def Comes (step : Run Machine α) (m : Machine) (outcome : Except Failure α) (after : Machine) :
    Prop :=
  ∃ journal, step.run m = (outcome, after.withJournal journal)

namespace Comes

theorem of_run {outcome : Except Failure α} (h : step.run m = (outcome, after)) :
    Comes step m outcome after := ⟨after.journal, h⟩

theorem pure (a : α) (m : Machine) : Comes (pure a) m (.ok a) m := of_run rfl

theorem ofExcept (outcome : Except Failure α) (m : Machine) :
    Comes (Run.ofExcept outcome) m outcome m := by
  cases outcome <;> exact of_run rfl

theorem bind {next : α → Run Machine β} {a : α} {outcome : Except Failure β}
    (hstep : Comes step m (.ok a) between)
    (hnext : ∀ journal, Comes (next a) (between.withJournal journal) outcome after) :
    Comes (step >>= next) m outcome after := by
  obtain ⟨journal, hrun⟩ := hstep
  obtain ⟨last, hlast⟩ := hnext journal
  exact ⟨last, (run_bind_ok hrun next).trans hlast⟩

theorem get_bind {next : Machine → Run Machine β} {outcome : Except Failure β}
    (h : Comes (next m) m outcome after) : Comes (get >>= next) m outcome after := h

theorem attempt {outcome : Except Failure α} (h : Comes step m outcome after) :
    Comes step.attempt m (.ok outcome) after := by
  obtain ⟨journal, hrun⟩ := h
  exact ⟨journal, attempt_run hrun⟩

/-- The journal before does not matter to the machine afterwards. -/
theorem journal {outcome : Except Failure α} {journal : Journal}
    (h : Comes step m outcome (after.withJournal journal)) : Comes step m outcome after := h

/-- Nor does the journal afterwards. -/
theorem congr {outcome : Except Failure α} {other : Machine} (h : Comes step m outcome after)
    (hsame : ∀ journal, after.withJournal journal = other.withJournal journal) :
    Comes step m outcome other := by
  obtain ⟨journal, hrun⟩ := h
  exact ⟨journal, hrun.trans (congrArg _ (hsame journal))⟩

end Comes

/-! Steps that only write the journal. -/

theorem comes_record (change : Journal → Journal) (m : Machine) :
    Comes (record change) m (.ok ()) m := ⟨change m.journal, rfl⟩

theorem comes_log (level : Level) (text : String) (m : Machine) :
    Comes (log level text) m (.ok ()) m := comes_record _ m

theorem comes_debug (texts : List String) (m : Machine) : Comes (debug texts) m (.ok ()) m := by
  induction texts generalizing m with
  | nil => exact .pure () m
  | cons text rest ih =>
    exact (comes_log .debug text m).bind fun journal => (ih (m.withJournal journal)).journal

end Machine

end ProjectCheck
