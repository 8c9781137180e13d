import ProjectCheck.Proofs.Machine.Sleep

/-!
One document is sent to a server that is alive. The server may publish something for it, at once or
after some waits, and it may end; nothing else happens to any server.
-/
namespace ProjectCheck

open Run Frame Message

def ServerBehaviour.publication? (b : ServerBehaviour) (document : DocumentRef) :
    Option Publication :=
  b.publications.get? (b.entryFor document.uri document.version)

def ServerBehaviour.EndsAt (b : ServerBehaviour) (document : DocumentRef) : Prop :=
  b.fatalFiles.contains (b.entryFor document.uri document.version) = true

def Session.languageOf (s : Session) (path : Path) (language : Option LooseText) : LooseText :=
  language.getD ((s.spec.map (·.languageId path)).getD "plaintext")

def Session.nextDocument (s : Session) (uri : String) : DocumentRef := ⟨uri, s.nextVersion uri⟩

def DocumentRef.message (document : DocumentRef) (text : String) (languageId : LooseText) : Json :=
  if document.version = 1 then
    notification "textDocument/didOpen" (some (didOpenParams document.uri languageId text))
  else
    notification "textDocument/didChange"
      (some (didChangeParams document.uri document.version.toNat text))

namespace Connection

variable {c : Connection}

structure IsIdle (c : Connection) : Prop where
  running : c.exitCode = none
  unnoticed : c.session.exitNoticed = false
  hasPipes : c.session.hasPipes = true
  reader : c.reader = .waiting
  pipe : c.pipe = []
  unframed : c.unframed = []
  delayed : c.delayed = []

theorem IsIdle.isAtRest (h : c.IsIdle) : c.IsAtRest :=
  ⟨h.pipe, h.unframed, h.delayed, .inr fun _ => ⟨h.unnoticed, h.reader⟩⟩

theorem IsIdle.of_stays (h : c.IsIdle) {after : Connection} (hstays : c.Stays after) :
    after.IsIdle where
  running := hstays.exitCode.trans h.running
  unnoticed := by rw [hstays.session h.running]; exact h.unnoticed
  hasPipes := by rw [hstays.session h.running]; exact h.hasPipes
  reader := hstays.waiting h.running h.pipe h.reader
  pipe := hstays.pipe.trans h.pipe
  unframed := hstays.unframed.trans h.unframed
  delayed := hstays.delayed.trans h.delayed

def sent (document : DocumentRef) (text : String) (languageId : LooseText) (c : Connection) :
    Connection :=
  { c with
    session := c.session.setVersion document.uri document.version.toNat
    dialogue := c.dialogue ++ [.toServer (document.message text languageId)] }

theorem IsIdle.sent (h : c.IsIdle) (document : DocumentRef) (text : String)
    (languageId : LooseText) : (c.sent document text languageId).IsIdle :=
  ⟨h.running, h.unnoticed, h.hasPipes, h.reader, h.pipe, h.unframed, h.delayed⟩

theorem take_message (hrunning : c.exitCode = none) (uri text : String) (languageId : LooseText)
    (version : Nat) :
    c.take (DocumentRef.message ⟨uri, version⟩ text languageId) =
      c.takeDocument ⟨uri, version⟩ := by
  have hexited : c.hasExited = false := by rw [hasExited, hrunning]; rfl
  unfold DocumentRef.message
  split
  · rename_i hversion
    obtain rfl : version = 1 := Int.ofNat_inj.1 hversion
    rw [take_notification, hexited]
    rfl
  · rw [take_notification, hexited]
    rfl

/-- A server that publishes something for a document sends it once. -/
theorem IsIdle.takeDocument_publishes (h : c.IsIdle) {document : DocumentRef}
    {publication : Publication} {value : Json}
    (hpublishes : c.behaviour.publication? document = some publication)
    (hends : ¬ c.behaviour.EndsAt document)
    (hread : IsReadAs (ServerBehaviour.publish document.uri
      (ServerBehaviour.Publication.at publication document.version)) value) :
    let message := ServerBehaviour.publish document.uri
      (ServerBehaviour.Publication.at publication document.version)
    let after := c.takeDocument document
    after.IsAwaiting publication.delay message ∧ after.reader = .waiting ∧
      after.behaviour = c.behaviour ∧ after.session = c.session ∧
      after.dialogue = c.dialogue ++ [.fromServer message] := by
  intro message after
  have hlives : c.behaviour.fatalFiles.contains
      (c.behaviour.entryFor document.uri document.version) = false := Bool.eq_false_iff.2 hends
  have hafter : after =
      (c.say (.fromServer message)).bring publication.delay (ofContent (content message)) := by
    rw [ServerBehaviour.publication?] at hpublishes
    simp only [after, takeDocument, hpublishes, hread.post_eq, bring]
    split <;> simp only [say, hlives, Bool.false_eq_true, ↓reduceIte, message]
  rw [hafter, bring]
  split
  · rename_i hdelay
    rw [hdelay]
    refine ⟨⟨h.running, h.unnoticed, h.unframed, ?_, h.delayed, ?_, fun h => absurd rfl h⟩,
      h.reader, rfl, rfl, rfl⟩
    · simp [say, h.pipe]
    · rw [say, h.reader]
      rintro ⟨⟩
  · rename_i hdelay
    refine ⟨⟨h.running, h.unnoticed, h.unframed, ?_, ?_, ?_, fun _ => h.reader⟩, h.reader, rfl, rfl,
      rfl⟩
    · simp [say, h.pipe, hdelay]
    · simp [say, h.delayed, hdelay]
    · rw [say, h.reader]
      rintro ⟨⟩

theorem takeDocument_silent {document : DocumentRef}
    (hsilent : c.behaviour.publication? document = none) :
    c.takeDocument document =
      if c.behaviour.fatalFiles.contains (c.behaviour.entryFor document.uri document.version)
      then c.exit 1 else c := by
  rw [ServerBehaviour.publication?] at hsilent
  simp only [takeDocument, hsilent]

end Connection

namespace Machine

variable {m between after : Machine} {pid : Nat} {c : Connection}

/-- What is written to a server reaches it, and its tasks are woken for what it does. -/
theorem deliver_run (hc : m.connection? pid = some c) (message : Json) :
    let taken := (c.say (.toServer message)).take message
    ∃ after woken, (deliver pid message c).run m =
        (if taken.behaviour.breaksPipe && taken.hasExited then .error .brokenPipe else .ok (),
          after) ∧
      (m.revise pid fun _ => taken).Stays after ∧ after.turns = m.turns ++ woken ∧
      (∀ turn ∈ woken, ∃ server, turn.server? = some server) ∧
      (taken.pipe ≠ [] → taken.reader = .waiting → .read pid ∈ woken) := by
  intro taken
  obtain ⟨after, woken, hrun, hstays, -, hturns, htasks, hreads⟩ :=
    stir_run pid ((m.noted (.sent pid message)).revise pid fun _ => taken)
  have hsame : (m.revise pid fun _ => taken).Stays
      ((m.noted (.sent pid message)).revise pid fun _ => taken) := .of_same rfl rfl rfl
  refine ⟨after, woken, ?_, hsame.trans hstays, hturns, htasks, ?_⟩
  · have hnoted : (note (.sent pid message)).run m = (.ok ⟨⟩, m.noted (.sent pid message)) := rfl
    have hupdated : (updateConnection pid fun _ => taken).run (m.noted (.sent pid message)) =
        (.ok ⟨⟩, (m.noted (.sent pid message)).revise pid fun _ => taken) := rfl
    have hbreaks : ∀ breaks : Bool,
        (if breaks then Run.fail .brokenPipe else pure () : Run Machine Unit).run after =
          (if breaks then .error .brokenPipe else .ok (), after) := by
      rintro (_ | _) <;> rfl
    rw [deliver, run_bind_ok hnoted, run_bind_ok hupdated, run_bind_ok hrun]
    exact hbreaks _
  · exact fun hpipe hreader => hreads taken (connection?_revise hc _) hpipe hreader

theorem send_run (hc : m.connection? pid = some c) (hpipes : c.session.hasPipes = true)
    {message : Json} (hwritten : message.isWellFormed = true) :
    (send pid message).run m = (deliver pid message c).run m := by
  rw [send, run_bind_ok (run_get m)]
  simp only [hc, hpipes, hwritten, Bool.not_true, Bool.false_eq_true, ↓reduceIte]

theorem send_unwritten (hc : m.connection? pid = some c) (hpipes : c.session.hasPipes = true)
    {message : Json} (hwritten : ¬ message.isWellFormed = true) :
    (send pid message).run m = (.error .unencodable, m) := by
  rw [send, run_bind_ok (run_get m)]
  simp only [hc, hpipes, hwritten, Bool.not_true, Bool.false_eq_true, Bool.not_false, ↓reduceIte]
  rfl

theorem send_pipeless (hc : m.connection? pid = some c) (hpipes : c.session.hasPipes = false)
    (message : Json) : (send pid message).run m = (.ok (), m) := by
  rw [send, run_bind_ok (run_get m)]
  simp only [hc, hpipes]
  rfl

/-- Only a language that is opened can keep a message from being written. -/
theorem isWellFormed_message (document : DocumentRef) (text : String) (languageId : LooseText) :
    (document.message text languageId).isWellFormed = true ↔
      (document.version = 1 → languageId.IsPlain) := by
  unfold DocumentRef.message
  split
  · rename_i hversion
    rw [← Json.isWellFormed_ofText]
    simp [notification, didOpenParams, withParams, Json.isWellFormed, Json.haveWellFormed,
      Message.version, hversion]
  · rename_i hversion
    exact iff_of_true rfl fun h => absurd h hversion

/-- A document is sent by one message, after its version is kept. -/
theorem sendDocument_send (pid : Nat) (s : Session) (uri text : String) (languageId : LooseText)
    (m : Machine) :
    ∃ logs, (sendDocument pid s uri text languageId).run m =
      (send pid ((s.nextDocument uri).message text languageId)).run
        ((m.revise pid fun c => { c with
          session := c.session.setVersion uri (s.nextVersion uri) }).withJournal
            { m.journal with logs := logs }) := by
  by_cases hversion : s.nextVersion uri = 1
  · have hmessage : (s.nextDocument uri).message text languageId =
        notification "textDocument/didOpen" (some (didOpenParams uri languageId text)) :=
      if_pos (congrArg Nat.cast hversion)
    rw [hmessage]
    simp only [sendDocument, hversion, ↓reduceIte]
    exact ⟨_, rfl⟩
  · have hmessage : (s.nextDocument uri).message text languageId =
        notification "textDocument/didChange"
          (some (didChangeParams uri (s.nextVersion uri) text)) :=
      if_neg fun h => hversion (Int.ofNat_inj.1 h)
    rw [hmessage]
    simp only [sendDocument, hversion, ↓reduceIte]
    exact ⟨_, rfl⟩

/-- A document is sent under its next version, and the server does something with it. -/
theorem sendDocument_run (hc : m.connection? pid = some c) (hidle : c.IsIdle)
    (uri text : String) {languageId : LooseText}
    (hplain : c.session.nextVersion uri = 1 → languageId.IsPlain) :
    let document := c.session.nextDocument uri
    let taken := (c.sent document text languageId).takeDocument document
    ∃ after woken, (sendDocument pid c.session uri text languageId).run m =
        (if taken.behaviour.breaksPipe && taken.hasExited then .error .brokenPipe else .ok (),
          after) ∧
      (m.revise pid fun _ => taken).Stays after ∧ after.turns = m.turns ++ woken ∧
      (∀ turn ∈ woken, ∃ server, turn.server? = some server) ∧
      (taken.pipe ≠ [] → taken.reader = .waiting → .read pid ∈ woken) := by
  intro document taken
  let versioned : Connection :=
    { c with session := c.session.setVersion uri (c.session.nextVersion uri) }
  have htaken : (versioned.say (.toServer (document.message text languageId))).take
      (document.message text languageId) = taken := by
    have hrunning :
        (versioned.say (.toServer (document.message text languageId))).exitCode = none :=
      hidle.running
    exact Connection.take_message hrunning uri text languageId (c.session.nextVersion uri)
  obtain ⟨logs, hsent⟩ := sendDocument_send pid c.session uri text languageId m
  have hversioned : ((m.revise pid fun c' => { c' with
      session := c'.session.setVersion uri (c.session.nextVersion uri) }).withJournal
        { m.journal with logs := logs }).connection? pid = some versioned := connection?_revise hc _
  obtain ⟨after, woken, hrun, hstays, hturns, htasks, hreads⟩ :=
    deliver_run hversioned (document.message text languageId)
  rw [htaken] at hrun hstays hreads
  refine ⟨after, woken, ?_, ?_, hturns, htasks, hreads⟩
  · rw [hsent, send_run hversioned hidle.hasPipes
      ((isWellFormed_message _ text languageId).2 fun h => hplain (Int.ofNat_inj.1 h)), hrun]
  · refine Stays.trans ?_ hstays
    rw [revise_withJournal, revise_revise]
    exact .of_same rfl rfl rfl

theorem uriOf_congr (h : after.untouched = m.untouched) (path : Path) :
    after.uriOf path = m.uriOf path := by
  change after.untouched.uriOf path = m.untouched.uriOf path
  rw [h]

theorem uriOf_ne_empty {path : Path} {uri : String} (h : m.uriOf path = .ok uri) : uri ≠ "" := by
  rw [uriOf] at h
  cases hreal : m.resolve path with
  | error failure =>
    rw [hreal] at h
    cases h
  | ok real =>
    rw [hreal] at h
    obtain rfl := Except.ok.inj h
    intro hempty
    have := congrArg String.toList hempty
    simp [Uri.ofPath, Uri.scheme] at this

/-- A file that has a URI and can be read is sent to the server, unless it is opened under a
language whose name cannot be written. -/
theorem openDocument_run {path : Path} {uri text : String} (h : m.IsAtRest fun _ => False)
    (hc : m.connection? pid = some c) (hidle : c.IsIdle) (huri : m.uriOf path = .ok uri)
    (htext : m.readText path = .ok text)
    (hplain : c.session.nextVersion uri = 1 → (c.session.languageOf path none).IsPlain) :
    ∃ after c',
      let document := c.session.nextDocument uri
      let taken := (c.sent document text (c.session.languageOf path none)).takeDocument document
      (openDocument pid path none).run m =
        (if taken.behaviour.breaksPipe && taken.hasExited then .error .brokenPipe else .ok (),
          after) ∧
      m.Spares pid after ∧ after.IsAtRest (· = pid) ∧ after.connection? pid = some c' ∧
      taken.Stays c' ∧ (taken.pipe ≠ [] → taken.reader = .waiting → .read pid ∈ after.turns) := by
  obtain ⟨after, woken, hrun, hstays, hturns, htasks, hreads⟩ :=
    sendDocument_run hc hidle uri text hplain
  obtain ⟨c', hc', hsame⟩ := hstays.each pid _ (connection?_revise hc _)
  refine ⟨after, c', ?_, (spares_revise pid _ m).trans (hstays.spares pid), ?_, hc',
    hsame, fun hpipe hreader => ?_⟩
  · have hsession : m.session? pid = some c.session := by
      rw [session?, hc, Option.map_some]
    rw [openDocument, run_bind_ok (run_get m)]
    simp only [hsession, huri, htext]
    rw [← hrun]
    rfl
  · refine ⟨hstays.awaited.trans h.awaited, fun turn hmem => ?_,
      fun other found hother hfound => ?_⟩
    · rw [hturns] at hmem
      exact (List.mem_append.1 hmem).elim (h.tasks turn) (htasks turn)
    obtain ⟨c₁, hc₁, hstays₁⟩ := hstays.exists_before hfound
    rw [connection?_revise_of_ne (Ne.symm hother)] at hc₁
    exact (h.connections other c₁ id hc₁).of_stays hstays₁
  · rw [hturns]
    exact List.mem_append_right m.turns (hreads hpipe hreader)

/-- A file that would be opened under a language whose name cannot be written is not sent, though
its version is kept. -/
theorem openDocument_unwritten {path : Path} {uri text : String} (hc : m.connection? pid = some c)
    (hpipes : c.session.hasPipes = true) (huri : m.uriOf path = .ok uri)
    (htext : m.readText path = .ok text)
    (hunwritten : ¬ (c.session.nextVersion uri = 1 → (c.session.languageOf path none).IsPlain)) :
    ∃ journal, (openDocument pid path none).run m = (.error .unencodable,
      (m.revise pid fun c' => { c' with
        session := c'.session.setVersion uri
          (c.session.nextVersion uri) }).withJournal journal) := by
  have hsession : m.session? pid = some c.session := by
    rw [session?, hc, Option.map_some]
  obtain ⟨logs, hsent⟩ :=
    sendDocument_send pid c.session uri text (c.session.languageOf path none) m
  have hc' : ((m.revise pid fun c' => { c' with
      session := c'.session.setVersion uri (c.session.nextVersion uri) }).withJournal
        { m.journal with logs := logs }).connection? pid = some { c with
          session := c.session.setVersion uri (c.session.nextVersion uri) } :=
    connection?_revise hc _
  have hmessage : ¬ ((c.session.nextDocument uri).message text
      (c.session.languageOf path none)).isWellFormed = true := fun hwritten =>
    hunwritten fun hversion => (isWellFormed_message ..).1 hwritten (congrArg Nat.cast hversion)
  refine ⟨{ m.journal with logs := logs }, ?_⟩
  rw [openDocument, run_bind_ok (run_get m)]
  simp only [hsession, huri, htext]
  exact hsent.trans (send_unwritten hc' hpipes hmessage)

/-- A file that has no URI or cannot be read is not sent to the server. -/
theorem openDocument_fails {path : Path} (hc : m.connection? pid = some c)
    (hunfit : ¬ ∃ uri text, m.uriOf path = .ok uri ∧ m.readText path = .ok text) :
    ∃ failure, (openDocument pid path none).run m = (.error failure, m) := by
  have hsession : m.session? pid = some c.session := by
    rw [session?, hc, Option.map_some]
  rw [openDocument, run_bind_ok (run_get m)]
  simp only [hsession]
  cases huri : m.uriOf path with
  | error failure => exact ⟨failure, rfl⟩
  | ok uri =>
    cases htext : m.readText path with
    | error failure => exact ⟨failure, rfl⟩
    | ok text => exact absurd ⟨uri, text, huri, htext⟩ hunfit

theorem hasPublished_run {path : Path} {uri : String} (hc : m.connection? pid = some c)
    (huri : m.uriOf path = .ok uri) :
    (hasPublished pid path).run m = (.ok (c.session.hasPublished uri), m) := by
  rw [hasPublished, run_bind_ok (run_get m), huri, session?, hc]
  rfl

theorem diagnosticsOf_run {path : Path} {uri : String} (hc : m.connection? pid = some c)
    (huri : m.uriOf path = .ok uri) :
    (diagnosticsOf pid path).run m = (c.session.diagnostics uri, m) := by
  rw [diagnosticsOf, run_bind_ok (run_get m), huri, session?, hc]
  exact ofExcept_run _ m

end Machine

end ProjectCheck
