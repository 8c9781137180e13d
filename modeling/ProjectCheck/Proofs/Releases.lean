import ProjectCheck.Proofs.Desk

/-!
Calls that are made once. Such a call works at a desk of its own, which is closed however the work
ends. Every server that was started for the call has ended then, by itself or because it was told
to, and no server is told to end twice.
-/
namespace ProjectCheck

open Run Machine

inductive OneShot where
  | check (directory : LooseText) (strategy : Json)
  | survey (directory : Path) (wanted : Option (List LooseText))

namespace OneShot

def after (m : Machine) : OneShot → Machine
  | check directory strategy => ((checkOnce directory strategy).run m).2
  | survey directory wanted => ((surveyOnce directory wanted).run m).2

theorem visited {m : Machine} (hfaithful : m.Faithful) (call : OneShot) :
    m.Visited (call.after m) := by
  cases call with
  | check directory strategy =>
    exact visited_withDesk hfaithful fun settings _ => Desk.tends_check settings directory strategy
  | survey directory wanted =>
    exact visited_withDesk hfaithful fun settings _ => Desk.tends_survey settings directory wanted

end OneShot

def Event.terminates (pid : Nat) : Event → Bool
  | .terminated other => other = pid
  | _ => false

namespace Machine

variable {m : Machine}

/-- How often a process was told to end stands in the journal and in its dialogue. -/
theorem Faithful.countP_terminates (h : m.Faithful) (pid : Nat) :
    m.journal.events.countP (Event.terminates pid) = terminations (m.dialogue pid) := by
  have hsaid : terminations (m.dialogue pid) =
      ((m.dialogue pid).filter Utterance.isOfClient).countP Utterance.isTermination := by
    rw [terminations, List.countP_filter]
    refine List.countP_congr fun utterance _ => ?_
    cases utterance <;> simp [Utterance.isTermination, Utterance.isOfClient]
  rw [hsaid, ← h.recorded, List.countP_filterMap]
  refine List.countP_congr fun event _ => ?_
  cases event with
  | spawned => simp [Event.terminates, Event.about?]
  | sent other message =>
    by_cases hpid : other = pid <;>
      simp [Event.terminates, Event.about?, Utterance.isTermination, hpid]
  | terminated other =>
    by_cases hpid : other = pid <;>
      simp [Event.terminates, Event.about?, Utterance.isTermination, hpid]

/-- No process that does not refuse to end is told to end twice. -/
theorem Faithful.countP_terminates_le (h : m.Faithful) {pid : Nat} {c : Connection}
    (hc : m.connection? pid = some c) (hobeys : c.behaviour.refusesTermination = false) :
    m.journal.events.countP (Event.terminates pid) ≤ 1 := by
  have hdialogue : m.dialogue pid = c.dialogue := by rw [Machine.dialogue, hc]; rfl
  rw [h.countP_terminates, hdialogue]
  rcases (h.connections pid c hc).ended with hrefuses | hnone | ⟨-, honce⟩
  · cases hobeys.symm.trans hrefuses
  · omega
  · omega

end Machine

/-- No server that was started since is left behind: each has ended, or was told to and refuses. And
none that does not refuse was ever told to end twice. -/
structure Machine.Released (m after : Machine) : Prop where
  ended : ∀ pid c, m.connections.length ≤ pid → after.connection? pid = some c →
    c.hasExited = true ∨ c.behaviour.refusesTermination = true ∧ .termination ∈ c.dialogue
  once : ∀ pid c, after.connection? pid = some c → c.behaviour.refusesTermination = false →
    after.journal.events.countP (Event.terminates pid) ≤ 1

/-- A call that is made once, whatever was done before it, leaves no server behind. -/
theorem OneShot.releases (surroundings : Machine) (settings : Settings)
    (actions : List Desk.Action) (call : OneShot) :
    let m := ((Desk.fresh surroundings.untouched settings).after actions).station.machine
    m.Released (call.after m) := by
  intro m
  have hfresh : (Desk.fresh surroundings.untouched settings).IsKept :=
    ⟨_, Station.accounted_opened surroundings.faithful_untouched _⟩
  obtain ⟨opening, haccounted⟩ := Desk.isKept_after hfresh actions
  have hvisited : m.Visited (call.after m) := call.visited haccounted.faithful
  exact ⟨hvisited.done, fun pid c => hvisited.faithful.countP_terminates_le⟩

end ProjectCheck
