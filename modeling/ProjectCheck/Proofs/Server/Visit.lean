import ProjectCheck.Aggregation
import ProjectCheck.Dispatch
import ProjectCheck.Proofs.Server.Exchange

/-!
Visits of files in sessions that are there. The file's contents are sent, the waits go by, and what
is read is what the server has published for these contents when that came in time.
-/
namespace ProjectCheck

open Run Machine

namespace SurveyMeans

variable {σ ι : Type}

def attend (means : SurveyMeans σ ι) (patience : Patience) (session : ι) (path : Path) :
    Run σ (List Json) := do
  means.openDocument session path
  means.sleep patience.wait
  means.awaitPublication patience.wait session path (← .ofExcept patience.retries)
  means.diagnostics session path

variable {means : SurveyMeans σ ι} {patience : Patience} {path : Path} {s served after : σ}

theorem collect_run_none (h : (means.session? path).run s = (.ok none, served)) :
    (means.collect patience path).run s = (.ok none, served) :=
  run_bind_ok h _

theorem collect_run_failed {failure : Failure}
    (h : (means.session? path).run s = (.error failure, served)) :
    (means.collect patience path).run s = (.error failure, served) := by
  rw [collect, run_bind, h]

theorem collect_run_attended {session : ι} {outcome : Except Failure (List Json)}
    (h : (means.session? path).run s = (.ok (some session), served))
    (hattended : (means.attend patience session path).run served = (outcome, after)) :
    (means.collect patience path).run s = (outcome.map some, after) := by
  have hcollect : (means.collect patience path).run s =
      (some <$> means.attend patience session path).run served := by
    unfold collect attend
    rw [run_bind_ok h]
    simp only [map_eq_pure_bind, bind_assoc]
  rw [hcollect, map_eq_pure_bind, run_bind, hattended]
  cases outcome <;> rfl

end SurveyMeans

namespace Desk

variable {d : Desk} {m after : Machine} {pid : Nat} {c : Connection} {path : Path}

def withMachine (machine : Machine) (d : Desk) : Desk := HasMachine.setMachine machine d

theorem onMachine_run {α : Type} {step : Run Machine α} {outcome : Except Failure α}
    (h : step.run m = (outcome, after)) :
    (Desk.onMachine step).run (d.withMachine m) = (outcome, d.withMachine after) :=
  Run.onMachine_run h

theorem awaitPublication_published {uri : String} (hc : m.connection? pid = some c)
    (huri : m.uriOf path = .ok uri) (hpublished : c.session.hasPublished uri = true)
    (wait : Decimal.Binary64) (retries : Nat) :
    (means.awaitPublication wait pid path retries).run (d.withMachine m) =
      (.ok (), d.withMachine m) := by
  cases retries with
  | zero => rfl
  | succ retries =>
    have hasked : (means.hasPublished pid path).run (d.withMachine m) =
        (.ok true, d.withMachine m) := by
      rw [← hpublished]
      exact onMachine_run (hasPublished_run hc huri)
    rw [SurveyMeans.awaitPublication, run_bind_ok hasked]
    rfl

theorem awaitPublication_succ {uri : String} (hc : m.connection? pid = some c)
    (huri : m.uriOf path = .ok uri) (hpublished : c.session.hasPublished uri = false)
    {wait : Decimal.Binary64} (hslept : (sleep wait).run m = (.ok (), after)) (retries : Nat) :
    (means.awaitPublication wait pid path (retries + 1)).run (d.withMachine m) =
      (means.awaitPublication wait pid path retries).run (d.withMachine after) := by
  have hasked : (means.hasPublished pid path).run (d.withMachine m) =
      (.ok false, d.withMachine m) := by
    rw [← hpublished]
    exact onMachine_run (hasPublished_run hc huri)
  have hwaited : (means.sleep wait).run (d.withMachine m) = (.ok (), d.withMachine after) :=
    onMachine_run hslept
  rw [SurveyMeans.awaitPublication, run_bind_ok hasked]
  exact run_bind_ok hwaited _

/-- While nothing comes the waits go by. -/
theorem awaitPublication_quiet {uri : String} (h : m.IsAtRest fun _ => False)
    (hc : m.connection? pid = some c) (huri : m.uriOf path = .ok uri)
    (wait : Decimal.Binary64) (retries : Nat) :
    ∃ after, (means.awaitPublication wait pid path retries).run (d.withMachine m) =
      (.ok (), d.withMachine after) ∧ m.Stays after ∧ after.IsAtRest fun _ => False := by
  cases hpublished : c.session.hasPublished uri with
  | true => exact ⟨m, awaitPublication_published hc huri hpublished wait retries, .refl m, h⟩
  | false =>
    induction retries generalizing m c with
    | zero => exact ⟨m, rfl, .refl m, h⟩
    | succ retries ih =>
      obtain ⟨between, hslept, hstays, hrest⟩ := h.sleep_run wait
      obtain ⟨c', hc', hsame⟩ := hstays.each pid c hc
      have hstill : c'.session.hasPublished uri = false := by
        rw [Session.hasPublished, hsame.published]
        exact hpublished
      obtain ⟨after, hrun, hmore, hlast⟩ :=
        ih hrest hc' ((uriOf_congr hstays.untouched path).trans huri) hstill
      exact ⟨after, (awaitPublication_succ hc huri hpublished hslept retries).trans hrun,
        hstays.trans hmore, hlast⟩

/-- What comes within the waits is read. -/
theorem awaitPublication_told {uri : String} {diagnostics : Json} {items : List Json} {delay : Nat}
    (h : m.IsAtRest (· = pid)) (hc : m.connection? pid = some c)
    (hawaits : c.IsAwaiting (delay + 1) (ServerBehaviour.publish uri diagnostics))
    (huri : m.uriOf path = .ok uri) (hpublished : c.session.hasPublished uri = false)
    (hread : IsReadAs (ServerBehaviour.publish uri diagnostics)
      (ServerBehaviour.publish uri (.array items))) (wait : Decimal.Binary64) {retries : Nat}
    (htime : delay + 1 ≤ retries) :
    ∃ after, (means.awaitPublication wait pid path retries).run (d.withMachine m) =
      (.ok (), d.withMachine after) ∧ Hears pid c uri items m after := by
  induction retries generalizing m c delay with
  | zero => exact absurd htime (Nat.not_succ_le_zero delay)
  | succ retries ih =>
    cases delay with
    | zero =>
      obtain ⟨after, hslept, hears⟩ := h.sleep_told hc hawaits (Nat.le_refl 1) nofun
        (uriOf_ne_empty huri) hread wait
      obtain ⟨c', hc', -, -, -, -, hsession⟩ := hears.connection
      refine ⟨after, ?_, hears⟩
      rw [awaitPublication_succ hc huri hpublished hslept]
      refine awaitPublication_published hc'
        ((uriOf_congr hears.spares.untouched path).trans huri) ?_ wait retries
      rw [hsession, Session.hasPublished_withPublished]
    | succ delay =>
      obtain ⟨between, c₁, hslept, hspares, hrest, hc₁, hnearer, hbehaviour, hdialogue, hsession⟩ :=
        h.sleep_nearer hc hawaits wait
      obtain ⟨after, hrun, hears⟩ := ih hrest hc₁ hnearer
        ((uriOf_congr hspares.untouched path).trans huri) (by rw [hsession]; exact hpublished)
        (Nat.le_of_succ_le_succ htime)
      refine ⟨after, (awaitPublication_succ hc huri hpublished hslept retries).trans hrun,
        hspares.trans hears.spares, hears.rest, ?_⟩
      rw [← hbehaviour, ← hdialogue, ← hsession]
      exact hears.connection

/-- What is read when all waits are over. -/
theorem attend_run {outcome : Except Failure (List Json)} {opened waited polled : Machine}
    {uri : String} {wait : Decimal.Binary64} {retries : Nat}
    (hopened : (openDocument pid path none).run m = (.ok (), opened))
    (hwaited : (sleep wait).run opened = (.ok (), waited))
    (hpolled : (means.awaitPublication wait pid path retries).run (d.withMachine waited) =
      (.ok (), d.withMachine polled))
    (hc : polled.connection? pid = some c) (huri : polled.uriOf path = .ok uri)
    (hread : c.session.diagnostics uri = outcome) :
    (means.attend ⟨wait, .ok retries⟩ pid path).run (d.withMachine m) =
      (outcome, d.withMachine polled) := by
  have hopened' : (means.openDocument pid path).run (d.withMachine m) =
      (.ok (), d.withMachine opened) := onMachine_run hopened
  have hwaited' : (means.sleep wait).run (d.withMachine opened) = (.ok (), d.withMachine waited) :=
    onMachine_run hwaited
  have hread' : (means.diagnostics pid path).run (d.withMachine polled) =
      (outcome, d.withMachine polled) := by
    rw [← hread]
    exact onMachine_run (diagnosticsOf_run hc huri)
  rw [SurveyMeans.attend, run_bind_ok hopened', run_bind_ok hwaited',
    run_bind_ok (ofExcept_run (.ok retries) _), run_bind_ok hpolled, hread']

/-- The contents of a file go to a server under the next version, and what the server publishes for
them comes back; nothing else happens to any server. -/
structure Exchanges (pid : Nat) (c : Connection) (uri text : String) (items : List Json)
    (m after : Machine) : Prop where
  spares : m.Spares pid after
  rest : after.IsAtRest fun _ => False
  connection : ∃ c' languageId diagnostics, after.connection? pid = some c' ∧ c'.IsIdle ∧
    c'.behaviour = c.behaviour ∧
    c'.session = (c.session.setVersion uri (c.session.nextVersion uri)).withPublished uri items ∧
    c'.dialogue = c.dialogue ++
      [.toServer ((c.session.nextDocument uri).message text languageId),
        .fromServer (ServerBehaviour.publish uri diagnostics)] ∧
    IsReadAs (ServerBehaviour.publish uri diagnostics) (ServerBehaviour.publish uri (.array items))

/-- The contents of a file are sent to a server that publishes something for them. -/
theorem openDocument_published {uri text : String} {publication : Publication} {value : Json}
    (h : m.IsAtRest fun _ => False) (hc : m.connection? pid = some c) (hidle : c.IsIdle)
    (huri : m.uriOf path = .ok uri) (htext : m.readText path = .ok text)
    (hplain : c.session.nextVersion uri = 1 → (c.session.languageOf path none).IsPlain)
    (hpublishes : c.behaviour.publication? (c.session.nextDocument uri) = some publication)
    (hends : ¬ c.behaviour.EndsAt (c.session.nextDocument uri))
    (hread : IsReadAs (ServerBehaviour.publish uri
      (ServerBehaviour.Publication.at publication (c.session.nextVersion uri))) value) :
    let message := ServerBehaviour.publish uri
      (ServerBehaviour.Publication.at publication (c.session.nextVersion uri))
    ∃ opened c', (openDocument pid path none).run m = (.ok (), opened) ∧
      m.Spares pid opened ∧ opened.IsAtRest (· = pid) ∧ opened.connection? pid = some c' ∧
      c'.IsAwaiting publication.delay message ∧
      (publication.delay = 0 → .read pid ∈ opened.turns) ∧ c'.behaviour = c.behaviour ∧
      c'.session = c.session.setVersion uri (c.session.nextVersion uri) ∧
      c'.dialogue = c.dialogue ++
        [.toServer ((c.session.nextDocument uri).message text (c.session.languageOf path none)),
          .fromServer message] := by
  intro message
  obtain ⟨opened, c', hrun, hspares, hrest, hc', htaken, hdue⟩ :=
    openDocument_run h hc hidle huri htext hplain
  obtain ⟨hawaits, hreader, hbehaviour, hsession, hdialogue⟩ :=
    (hidle.sent (c.session.nextDocument uri) text _).takeDocument_publishes
      hpublishes hends hread
  generalize (c.sent (c.session.nextDocument uri) text _).takeDocument
    (c.session.nextDocument uri) = taken at *
  have hlives : (taken.behaviour.breaksPipe && taken.hasExited) = false := by
    rw [Connection.hasExited, hawaits.running]
    exact Bool.and_false _
  rw [hlives] at hrun
  refine ⟨opened, c', hrun, hspares, hrest, hc', hawaits.of_stays htaken, ?_,
    htaken.behaviour.trans hbehaviour, (htaken.session hawaits.running).trans hsession, ?_⟩
  · intro hdelay
    refine hdue ?_ hreader
    rw [hawaits.pipe, if_pos hdelay]
    exact Frame.ofContent_ne_nil _
  · rw [htaken.dialogue, hdialogue]
    exact List.append_assoc ..

/-- What comes within all waits is read, and so is what comes with the first one. -/
theorem waits_told {uri : String} {diagnostics : Json} {items : List Json} {delay : Nat}
    (h : m.IsAtRest (· = pid)) (hc : m.connection? pid = some c)
    (hawaits : c.IsAwaiting delay (ServerBehaviour.publish uri diagnostics))
    (hdue : delay = 0 → .read pid ∈ m.turns) (huri : m.uriOf path = .ok uri)
    (hread : IsReadAs (ServerBehaviour.publish uri diagnostics)
      (ServerBehaviour.publish uri (.array items)))
    (wait : Decimal.Binary64) {retries : Nat}
    (htime : delay ≤ if c.session.hasPublished uri then 1 else 1 + retries) :
    ∃ waited after, (sleep wait).run m = (.ok (), waited) ∧
      (means.awaitPublication wait pid path retries).run (d.withMachine waited) =
        (.ok (), d.withMachine after) ∧ Hears pid c uri items m after := by
  by_cases hsoon : delay ≤ 1
  · obtain ⟨waited, hwaited, hears⟩ :=
      h.sleep_told hc hawaits hsoon hdue (uriOf_ne_empty huri) hread wait
    obtain ⟨c', hc', -, -, -, -, hsession⟩ := hears.connection
    refine ⟨waited, waited, hwaited, ?_, hears⟩
    refine awaitPublication_published hc'
      ((uriOf_congr hears.spares.untouched path).trans huri) ?_ wait retries
    rw [hsession, Session.hasPublished_withPublished]
  · obtain ⟨later, rfl⟩ : ∃ later, delay = later + 2 := ⟨delay - 2, by omega⟩
    have hnew : c.session.hasPublished uri = false := by
      refine Bool.eq_false_iff.2 fun hpublished => hsoon ?_
      rwa [if_pos hpublished] at htime
    rw [if_neg (Bool.eq_false_iff.1 hnew)] at htime
    obtain ⟨waited, c', hwaited, hspares, hrest, hc', hnearer, hbehaviour, hdialogue, hsession⟩ :=
      h.sleep_nearer hc hawaits wait
    obtain ⟨after, hpolled, hears⟩ := awaitPublication_told hrest hc' hnearer
      ((uriOf_congr hspares.untouched path).trans huri) (by rw [hsession]; exact hnew) hread wait
      (show later + 1 ≤ retries by omega)
    refine ⟨waited, after, hwaited, hpolled, hspares.trans hears.spares, hears.rest, ?_⟩
    rw [← hbehaviour, ← hdialogue, ← hsession]
    exact hears.connection

/-- What a server publishes in time for the contents of a file is what is read in the end. -/
theorem attend_published {uri text : String} {publication : Publication} {items : List Json}
    (h : m.IsAtRest fun _ => False) (hc : m.connection? pid = some c) (hidle : c.IsIdle)
    (huri : m.uriOf path = .ok uri) (htext : m.readText path = .ok text)
    (hplain : c.session.nextVersion uri = 1 → (c.session.languageOf path none).IsPlain)
    (hpublishes : c.behaviour.publication? (c.session.nextDocument uri) = some publication)
    (hends : ¬ c.behaviour.EndsAt (c.session.nextDocument uri))
    (hread : IsReadAs (ServerBehaviour.publish uri
      (ServerBehaviour.Publication.at publication (c.session.nextVersion uri)))
      (ServerBehaviour.publish uri (.array items)))
    {wait : Decimal.Binary64} {retries : Nat}
    (htime : publication.delay ≤ if c.session.hasPublished uri then 1 else 1 + retries) :
    ∃ after, (means.attend ⟨wait, .ok retries⟩ pid path).run (d.withMachine m) =
      (.ok items, d.withMachine after) ∧ Exchanges pid c uri text items m after := by
  obtain ⟨opened, c₁, hopened, hspares, hrest, hc₁, hawaits, hdue, hbehaviour, hsession,
    hdialogue⟩ := openDocument_published h hc hidle huri htext hplain hpublishes hends hread
  obtain ⟨waited, after, hwaited, hpolled, hears⟩ := waits_told hrest hc₁ hawaits hdue
    ((uriOf_congr hspares.untouched path).trans huri) hread wait (by rw [hsession]; exact htime)
  obtain ⟨c', hc', hrunning, hreader, hbehaviour', hdialogue', hsession'⟩ := hears.connection
  have hclear := hears.rest.connections pid c' id hc'
  have hall := hspares.trans hears.spares
  refine ⟨after, ?_, hall, hears.rest, c', _, _, hc', ?_, hbehaviour'.trans hbehaviour,
    by rw [hsession', hsession], hdialogue'.trans hdialogue, hread⟩
  · refine attend_run hopened hwaited hpolled hc' ((uriOf_congr hall.untouched path).trans huri) ?_
    rw [hsession', Session.diagnostics_withPublished]
  · refine ⟨hrunning, ?_, ?_, hreader, hclear.pipe, hclear.unframed, hclear.delayed⟩
    · rw [hsession', hsession]
      exact hidle.unnoticed
    · rw [hsession', hsession]
      exact hidle.hasPipes

/-- What is published later than with the first wait comes too late for a document that something
was published for: that is read again. -/
theorem attend_late {uri text : String} {publication : Publication} {old : List Json} {value : Json}
    (h : m.IsAtRest fun _ => False) (hc : m.connection? pid = some c) (hidle : c.IsIdle)
    (huri : m.uriOf path = .ok uri) (htext : m.readText path = .ok text)
    (hplain : c.session.nextVersion uri = 1 → (c.session.languageOf path none).IsPlain)
    (hpublishes : c.behaviour.publication? (c.session.nextDocument uri) = some publication)
    (hends : ¬ c.behaviour.EndsAt (c.session.nextDocument uri))
    (hread : IsReadAs (ServerBehaviour.publish uri
      (ServerBehaviour.Publication.at publication (c.session.nextVersion uri))) value)
    (hold : c.session.published.get? (Uri.key uri) = some (.array old))
    (hlate : 1 < publication.delay) (wait : Decimal.Binary64) (retries : Nat) :
    ∃ after c' languageId, (means.attend ⟨wait, .ok retries⟩ pid path).run (d.withMachine m) =
        (.ok old, d.withMachine after) ∧ after.connection? pid = some c' ∧
      c'.dialogue = c.dialogue ++
        [.toServer ((c.session.nextDocument uri).message text languageId),
          .fromServer (ServerBehaviour.publish uri
            (ServerBehaviour.Publication.at publication (c.session.nextVersion uri)))] := by
  obtain ⟨opened, c₁, hopened, hspares, hrest, hc₁, hawaits, -, -, hsession,
    hdialogue⟩ := openDocument_published h hc hidle huri htext hplain hpublishes hends hread
  obtain ⟨later, hlater⟩ : ∃ later, publication.delay = later + 2 :=
    ⟨publication.delay - 2, by omega⟩
  rw [hlater] at hawaits
  obtain ⟨waited, c₂, hwaited, hspares₂, -, hc₂, -, -, hdialogue₂, hsession₂⟩ :=
    hrest.sleep_nearer hc₁ hawaits wait
  have huri₂ : waited.uriOf path = .ok uri :=
    (uriOf_congr (hspares₂.untouched.trans hspares.untouched) path).trans huri
  have hkept : c₂.session.published = c.session.published := by
    rw [hsession₂, hsession]
    rfl
  have hpublished : c₂.session.hasPublished uri = true := by
    rw [Session.hasPublished, hkept, Members.has, hold]
    rfl
  refine ⟨waited, c₂, _, attend_run hopened hwaited
    (awaitPublication_published hc₂ huri₂ hpublished wait retries) hc₂ huri₂ ?_, hc₂,
    hdialogue₂.trans hdialogue⟩
  rw [Session.diagnostics, hkept, hold]
  rfl

/-- A file that cannot be sent fails, and nothing happens to any server. -/
theorem attend_unfit {patience : Patience} (hc : m.connection? pid = some c)
    (hunfit : ¬ ∃ uri text, m.uriOf path = .ok uri ∧ m.readText path = .ok text) :
    ∃ failure, (means.attend patience pid path).run (d.withMachine m) =
      (.error failure, d.withMachine m) := by
  obtain ⟨failure, hrun⟩ := openDocument_fails hc hunfit
  have hopened : (means.openDocument pid path).run (d.withMachine m) =
      (.error failure, d.withMachine m) := onMachine_run hrun
  exact ⟨failure, by rw [SurveyMeans.attend, run_bind, hopened]⟩

structure Silent (pid : Nat) (c : Connection) (uri : String) (m after : Machine) : Prop where
  spares : m.Spares pid after
  rest : after.IsAtRest fun _ => False
  connection : ∃ c', after.connection? pid = some c' ∧ c'.behaviour = c.behaviour ∧
    c'.session.spec = c.session.spec ∧ c'.session.published = c.session.published ∧
    c'.session.versions = c.session.versions.set (Uri.key uri) (c.session.nextVersion uri) ∧
    (c'.IsIdle ∨ c'.exitCode ≠ none)

theorem Silent.of_stays {uri : String} {between : Machine} (h : Silent pid c uri m between)
    (hstays : between.Stays after) (hrest : after.IsAtRest fun _ => False) :
    Silent pid c uri m after := by
  obtain ⟨c', hc', hbehaviour, hspec, hpublished, hversions, hkind⟩ := h.connection
  obtain ⟨c'', hc'', hsame⟩ := hstays.each pid c' hc'
  refine ⟨h.spares.trans (hstays.spares pid), hrest, c'', hc'', hsame.behaviour.trans hbehaviour,
    hsame.spec.trans hspec, hsame.published.trans hpublished, hsame.versions.trans hversions, ?_⟩
  exact hkind.imp (fun h => h.of_stays hsame) fun h => by rwa [hsame.exitCode]

/-- A file that would be opened under a language whose name cannot be written fails. The client
keeps its version, and nothing else happens. -/
theorem attend_unwritten {patience : Patience} {uri text : String} (h : m.IsAtRest fun _ => False)
    (hc : m.connection? pid = some c) (hidle : c.IsIdle) (huri : m.uriOf path = .ok uri)
    (htext : m.readText path = .ok text)
    (hunwritten : ¬ (c.session.nextVersion uri = 1 → (c.session.languageOf path none).IsPlain)) :
    ∃ after, (means.attend patience pid path).run (d.withMachine m) =
        (.error .unencodable, d.withMachine after) ∧ Silent pid c uri m after ∧
      after.dialogue pid = m.dialogue pid := by
  obtain ⟨journal, hrun⟩ := openDocument_unwritten hc hidle.hasPipes huri htext hunwritten
  let change := fun c' : Connection =>
    { c' with session := c'.session.setVersion uri (c.session.nextVersion uri) }
  have hopened : (means.openDocument pid path).run (d.withMachine m) = (.error .unencodable,
      d.withMachine ((m.revise pid change).withJournal journal)) := onMachine_run hrun
  have hspares : m.Spares pid ((m.revise pid change).withJournal journal) :=
    (spares_revise pid change m).trans ((Stays.withJournal journal _).spares pid)
  have hc' : ((m.revise pid change).withJournal journal).connection? pid = some (change c) :=
    connection?_revise hc change
  have hkept : (change c).IsIdle := ⟨hidle.running, hidle.unnoticed, hidle.hasPipes, hidle.reader,
    hidle.pipe, hidle.unframed, hidle.delayed⟩
  refine ⟨(m.revise pid change).withJournal journal, ?_, ⟨hspares, ?_, change c, hc', rfl, rfl, rfl,
    rfl, .inl hkept⟩, ?_⟩
  · rw [SurveyMeans.attend, run_bind, hopened]
  · exact (h.except pid).of_spares hspares h.awaited h.tasks hc' hkept.isAtRest
  · rw [dialogue, dialogue, hc', hc]
    rfl

/-- A document for which nothing is published leaves the server idle or ended. -/
theorem takeDocument_atRest {document : DocumentRef} (hidle : c.IsIdle)
    (hsilent : c.behaviour.publication? document = none) :
    (c.takeDocument document).IsAtRest ∧ (c.takeDocument document).behaviour = c.behaviour ∧
      (c.takeDocument document).session = c.session ∧
      ((c.takeDocument document).IsIdle ∨ (c.takeDocument document).exitCode ≠ none) := by
  rw [Connection.takeDocument_silent hsilent]
  split
  · have hended : (c.exit 1).exitCode ≠ none := nofun
    exact ⟨⟨hidle.pipe, hidle.unframed, hidle.delayed, .inr fun h => absurd h hended⟩, rfl, rfl,
      .inr hended⟩
  · exact ⟨hidle.isAtRest, rfl, rfl, .inl hidle⟩

theorem openDocument_silent {uri text : String} (h : m.IsAtRest fun _ => False)
    (hc : m.connection? pid = some c) (hidle : c.IsIdle) (huri : m.uriOf path = .ok uri)
    (htext : m.readText path = .ok text)
    (hplain : c.session.nextVersion uri = 1 → (c.session.languageOf path none).IsPlain)
    (hsilent : c.behaviour.publication? (c.session.nextDocument uri) = none) :
    ∃ outcome opened, (openDocument pid path none).run m = (outcome, opened) ∧
      Silent pid c uri m opened := by
  obtain ⟨opened, c', hrun, hspares, hrest, hc', htaken, -⟩ :=
    openDocument_run h hc hidle huri htext hplain
  obtain ⟨hatRest, hbehaviour, hsession, hkind⟩ :=
    takeDocument_atRest (hidle.sent (c.session.nextDocument uri) text _) hsilent
  refine ⟨_, opened, hrun, hspares, ?_, c', hc', htaken.behaviour.trans hbehaviour,
    by rw [htaken.spec, hsession]; rfl, by rw [htaken.published, hsession]; rfl,
    by rw [htaken.versions, hsession]; rfl, ?_⟩
  · exact hrest.of_spares ((Stays.refl opened).spares pid) hrest.awaited hrest.tasks hc'
      (hatRest.of_stays htaken)
  · exact hkind.imp (fun h => h.of_stays htaken) fun h => by rwa [htaken.exitCode]

/-- Where nothing was published for a document and nothing is, nothing is found. -/
theorem attend_silent {uri text : String} (h : m.IsAtRest fun _ => False)
    (hc : m.connection? pid = some c) (hidle : c.IsIdle) (huri : m.uriOf path = .ok uri)
    (htext : m.readText path = .ok text)
    (hplain : c.session.nextVersion uri = 1 → (c.session.languageOf path none).IsPlain)
    (hsilent : c.behaviour.publication? (c.session.nextDocument uri) = none)
    (hnew : c.session.hasPublished uri = false) (wait : Decimal.Binary64) (retries : Nat) :
    ∃ outcome after, (means.attend ⟨wait, .ok retries⟩ pid path).run (d.withMachine m) =
        (outcome, d.withMachine after) ∧ (∀ found, outcome = .ok found → found = []) ∧
      Silent pid c uri m after := by
  obtain ⟨outcome, opened, hopened, hsent⟩ :=
    openDocument_silent h hc hidle huri htext hplain hsilent
  cases outcome with
  | error failure =>
    refine ⟨.error failure, opened, ?_, nofun, hsent⟩
    have hopened' : (means.openDocument pid path).run (d.withMachine m) =
        (.error failure, d.withMachine opened) := onMachine_run hopened
    rw [SurveyMeans.attend, run_bind, hopened']
  | ok done =>
    obtain ⟨waited, hwaited, hstays, hrest⟩ := hsent.rest.sleep_run wait
    obtain ⟨c₁, hc₁, -⟩ := hsent.connection
    obtain ⟨c₂, hc₂, -⟩ := hstays.each pid c₁ hc₁
    have huri₂ : waited.uriOf path = .ok uri :=
      (uriOf_congr (hstays.untouched.trans hsent.spares.untouched) path).trans huri
    obtain ⟨after, hpolled, hmore, hlast⟩ := awaitPublication_quiet hrest hc₂ huri₂ wait retries
    have hall := hsent.of_stays (hstays.trans hmore) hlast
    obtain ⟨c', hc', -, -, hpublished, -⟩ := hall.connection
    have hread : c'.session.diagnostics uri = .ok [] := by
      rw [Session.hasPublished, Members.has, Option.isSome_eq_false_iff, Option.isNone_iff_eq_none]
        at hnew
      rw [Session.diagnostics, hpublished, hnew]
    exact ⟨.ok [], after, attend_run hopened hwaited hpolled hc'
      ((uriOf_congr hmore.untouched path).trans huri₂) hread, fun found h => (Except.ok.inj h).symm,
      hall⟩

end Desk

end ProjectCheck
