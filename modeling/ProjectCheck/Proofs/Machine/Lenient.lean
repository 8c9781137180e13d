import ProjectCheck.Machine.Reading
import ProjectCheck.Proofs.Machine.Runs

/-!
Relations of machines that do not care how far the tasks of the servers are, what is due and what is
logged. Saying something, making a turn due, waking a task and handing a decision on never lead out
of such a relation.
-/
namespace ProjectCheck.Machine

open Run

def revise (pid : Nat) (change : Connection → Connection) (m : Machine) : Machine :=
  { m with connections := m.connections.modify pid change }

theorem connection?_revise_self (pid : Nat) (change : Connection → Connection) (m : Machine) :
    (m.revise pid change).connection? pid = (m.connection? pid).map change :=
  List.getElem?_modify_eq change pid m.connections

theorem connection?_revise_of_ne {pid other : Nat} (h : pid ≠ other)
    (change : Connection → Connection) (m : Machine) :
    (m.revise pid change).connection? other = m.connection? other :=
  List.getElem?_modify_ne change m.connections h

def noted (event : Event) (m : Machine) : Machine :=
  { m with journal := { m.journal with events := m.journal.events ++ [event] } }

theorem connection?_noted (event : Event) (m : Machine) (pid : Nat) :
    (m.noted event).connection? pid = m.connection? pid := rfl

structure Lenient (related : Machine → Machine → Prop) : Prop where
  steady : Steady related
  quiet : ∀ {m after}, after.connections = m.connections →
    after.journal.events = m.journal.events → related m after
  tasks : ∀ m pid (reader listener watcher : TaskState → TaskState),
    related m (m.revise pid fun c =>
      { c with reader := reader c.reader, listener := listener c.listener,
               watcher := watcher c.watcher })

namespace Lenient

variable {related : Machine → Machine → Prop} (hR : Lenient related)

include hR

theorem moves_log (level : Level) (text : String) (m : Machine) :
    Moves related (log level text) m :=
  hR.quiet rfl rfl

theorem moves_debug (texts : List String) (m : Machine) : Moves related (debug texts) m :=
  Moves.forM hR.steady (fun text _ => hR.moves_log .debug text) m

theorem moves_due (turn : Turn) (m : Machine) : Moves related (due turn) m := hR.quiet rfl rfl

theorem moves_handOnDecision (m : Machine) : Moves related handOnDecision m := by
  refine Moves.get_bind ?_
  split
  · split
    · exact Moves.bind hR.steady (hR.quiet rfl rfl) fun _ => hR.moves_due .handOn
    · exact hR.steady.refl m
  · exact hR.steady.refl m

theorem moves_wakeReader (pid : Nat) (c : Connection) (m : Machine) :
    Moves related (wakeReader pid c) m := by
  unfold wakeReader
  split
  · exact Moves.bind hR.steady (hR.tasks m pid (fun _ => .woken) id id) fun _ =>
      hR.moves_due (.read pid)
  · exact hR.steady.refl m

theorem moves_wakeWatcher (pid : Nat) (c : Connection) (m : Machine) :
    Moves related (wakeWatcher pid c) m := by
  unfold wakeWatcher
  split
  · exact Moves.bind hR.steady (hR.tasks m pid id id fun _ => .woken) fun _ =>
      hR.moves_due (.watch pid)
  · exact hR.steady.refl m

theorem moves_stir (pid : Nat) (m : Machine) : Moves related (stir pid) m := by
  refine Moves.get_bind ?_
  split
  · exact hR.steady.refl m
  · rename_i c _
    exact Moves.bind hR.steady (hR.moves_wakeReader pid c m) fun _ =>
      hR.moves_wakeWatcher pid c

/-- Sending leads out of a relation only by what the message does to the server. -/
theorem moves_send {pid : Nat} {message : Json} {m : Machine}
    (h : ∀ c, m.connection? pid = some c → related m ((m.noted (.sent pid message)).revise pid
      fun _ => (c.say (.toServer message)).take message)) :
    Moves related (send pid message) m := by
  refine Moves.get_bind ?_
  split
  · exact hR.steady.refl m
  · rename_i c hc
    split
    · exact hR.steady.refl m
    · split
      · exact hR.steady.refl m
      · refine hR.steady.trans (h c hc) ?_
        refine Moves.bind hR.steady (hR.moves_stir pid _) fun _ after => ?_
        split <;> exact hR.steady.refl after

/-- Taking a message leads out of a relation only by the session and by a reply. -/
theorem moves_receive {pid : Nat} {message : Json} {m : Machine}
    (hsession : ∀ c, m.connection? pid = some c → related m (m.revise pid fun c' =>
      { c' with session := (c.session.receive message).session }))
    (hreply : ∀ c reply, m.connection? pid = some c →
      (c.session.receive message).reply = some reply →
      ∀ after, Moves related (send pid reply) after) :
    Moves related (receive pid message) m := by
  refine Moves.get_bind ?_
  cases hc : m.connection? pid with
  | none =>
    simp only [session?, hc, Option.map_none]
    exact hR.steady.refl m
  | some c =>
    simp only [session?, hc, Option.map_some]
    refine Moves.bind hR.steady (hsession c hc) fun _ _ =>
      Moves.bind hR.steady (hR.moves_handOnDecision _) fun _ _ =>
      Moves.bind hR.steady (hR.moves_debug _ _) fun _ _ =>
      Moves.bind hR.steady ?_ fun _ after => ?_
    · cases hrep : (c.session.receive message).reply with
      | none => exact hR.steady.refl _
      | some reply => exact hreply c reply hc hrep _
    · cases (c.session.receive message).failure <;> exact hR.steady.refl after

end Lenient

end ProjectCheck.Machine
