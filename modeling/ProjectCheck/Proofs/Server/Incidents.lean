import ProjectCheck.Proofs.Server.Exchange
import ProjectCheck.Proofs.Server.Occurrences

/-!
What else happens at a client: files are opened, notifications are sent, the files change, and
whoever waits for a request gives up. Each incident changes the session in its own way only,
whatever else it does and whether it fails or not.
-/
namespace ProjectCheck

open Run Machine

def Machine.document? (m : Machine) (path : Path) : Except Failure (String × String) := do
  let uri ← m.uriOf path
  let text ← m.readText path
  return (uri, text)

namespace Session

def sent (s : Session) (uri : String) : Session := s.setVersion uri (s.nextVersion uri)

end Session

/-- What happens at a client and around it. Requests, messages and the end of the server are as
before. Whoever waits for a request may give up; the two notifications of a client may be sent; a
file is opened, in a language if one is given; and the files may be others than before. -/
inductive Incident where
  | occurs (occurrence : Occurrence)
  | cancelled (number : Nat)
  | greets
  | leaves
  | opens (path : Path) (language : Option LooseText)
  | files (files : Node)

namespace Incident

def step (pid : Nat) : Incident → Run Machine Unit
  | occurs occurrence => occurrence.step pid
  | cancelled number => updateSession pid (·.finish number)
  | greets => notify pid "initialized" (some (.object []))
  | leaves => notify pid "exit" none
  | opens path language => openDocument pid path language
  | files root => modify fun m => { m with files := root }

def effect (m : Machine) : Incident → Session → Session
  | occurs occurrence, s => occurrence.effect s
  | cancelled number, s => s.finish number
  | opens path _, s => match m.document? path with
    | .ok (uri, _) => s.sent uri
    | .error _ => s
  | greets, s | leaves, s | files _, s => s

end Incident

namespace Machine

/-- The machine after some incidents at the client of a process; a failure of one does not stop
them. -/
def afterAll (m : Machine) (pid : Nat) (incidents : List Incident) : Machine :=
  incidents.foldl (fun m incident => ((incident.step pid).run m).2) m

variable {pid : Nat} {m : Machine} {s : Session}

theorem keepsSession_notify (pid : Nat) (method : String) (params : Option Json) (m : Machine) :
    Moves (KeepsSession pid) (notify pid method params) m := by
  have hR := lenient_keepsSession pid
  exact Moves.bind hR.steady (hR.moves_log _ _ m) fun _ => keepsSession_send pid _

/-- A file whose path cannot be resolved or which cannot be read is not sent, and nothing is
done. -/
theorem openDocument_eq (hs : m.session? pid = some s) (path : Path) (language : Option LooseText) :
    (openDocument pid path language).run m = match m.document? path with
      | .ok (uri, text) => (sendDocument pid s uri text (s.languageOf path language)).run m
      | .error failure => (.error failure, m) := by
  rw [openDocument, run_bind_ok (run_get m), hs, document?]
  simp only
  cases m.uriOf path with
  | error failure => rfl
  | ok uri => cases m.readText path <;> rfl

/-- A document that is sent is sent by one message after its version is kept. -/
theorem openDocument_send (hs : m.session? pid = some s) {path : Path} {uri text : String}
    (h : m.document? path = .ok (uri, text)) (language : Option LooseText) :
    ∃ between, between.session? pid = some (s.sent uri) ∧
      between.journal.events = m.journal.events ∧
      (openDocument pid path language).run m =
        (send pid ((s.nextDocument uri).message text
          (s.languageOf path language))).run between := by
  obtain ⟨logs, hsend⟩ := sendDocument_send pid s uri text (s.languageOf path language) m
  refine ⟨(m.revise pid fun c => { c with
    session := c.session.setVersion uri (s.nextVersion uri) }).withJournal
      { m.journal with logs := logs }, ?_, rfl, ?_⟩
  · exact session?_revise hs (·.setVersion uri (s.nextVersion uri))
  · rw [openDocument_eq hs, h]
    exact hsend

/-- What happens at a client or around it does to its session just that. -/
theorem ends_incident (hs : m.session? pid = some s) (incident : Incident) :
    Ends (incident.step pid) m fun _ after =>
      after.session? pid = some (incident.effect m s) := by
  cases incident with
  | occurs occurrence => exact ends_step hs occurrence
  | cancelled number => exact session?_revise hs (·.finish number)
  | greets => exact (keepsSession_notify pid _ _ m).trans hs
  | leaves => exact (keepsSession_notify pid _ _ m).trans hs
  | opens path language =>
    cases hdocument : m.document? path with
    | error failure =>
      rw [Incident.step, Ends, openDocument_eq hs, Incident.effect, hdocument]
      exact hs
    | ok document =>
      obtain ⟨uri, text⟩ := document
      obtain ⟨between, hbetween, -, hrun⟩ := openDocument_send hs hdocument language
      have hsent := keepsSession_send pid
        ((s.nextDocument uri).message text (s.languageOf path language)) between
      rw [Incident.step, Ends, hrun, Incident.effect, hdocument]
      exact hsent.trans hbetween
  | files root => exact hs

theorem session?_afterAll (hs : m.session? pid = some s) (incidents : List Incident) :
    ∃ s', (m.afterAll pid incidents).session? pid = some s' := by
  induction incidents generalizing m s with
  | nil => exact ⟨s, hs⟩
  | cons incident rest ih => exact ih (ends_incident hs incident)

end Machine

end ProjectCheck
