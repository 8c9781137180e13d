import ProjectCheck.Proofs.Files.Names
import ProjectCheck.Proofs.Server.Greeting

/-!
Starting servers, and starting them again. A server that was greeted is idle and knows of no
document; one that could not be greeted is ended. In both cases the other servers go on as they
were, and what a fleet knows of a server that has ended is forgotten when it is started again.
-/
namespace ProjectCheck

open Run Message

namespace Connection

variable {c between after : Connection}

theorem IsNew.greets (h : c.IsNew) : c.Greets c.startTasks where
  behaviour := rfl
  running := h.running
  unnoticed := h.unnoticed
  hasPipes := h.hasPipes
  spec := rfl
  published := rfl
  versions := rfl
  pipe := h.pipe
  unframed := h.unframed
  delayed := h.delayed
  dialogue := .refl _

theorem Greets.of_stays (h : c.Greets between) (hstays : between.Stays after) : c.Greets after where
  behaviour := hstays.behaviour.trans h.behaviour
  running := hstays.exitCode.trans h.running
  unnoticed := by rw [hstays.session h.running]; exact h.unnoticed
  hasPipes := by rw [hstays.session h.running]; exact h.hasPipes
  spec := hstays.spec.trans h.spec
  published := hstays.published.trans h.published
  versions := hstays.versions.trans h.versions
  pipe := hstays.pipe.trans h.pipe
  unframed := hstays.unframed.trans h.unframed
  delayed := hstays.delayed.trans h.delayed
  dialogue := by rw [hstays.dialogue]; exact h.dialogue

theorem Greets.trans (h : c.Greets between) (hnext : between.Greets after) : c.Greets after where
  behaviour := hnext.behaviour.trans h.behaviour
  running := hnext.running
  unnoticed := hnext.unnoticed
  hasPipes := hnext.hasPipes
  spec := hnext.spec.trans h.spec
  published := hnext.published.trans h.published
  versions := hnext.versions.trans h.versions
  pipe := hnext.pipe
  unframed := hnext.unframed
  delayed := hnext.delayed
  dialogue := h.dialogue.trans hnext.dialogue

theorem IsNew.of_stays (h : c.IsNew) (hstays : c.Stays after) : after.IsNew where
  running := hstays.exitCode.trans h.running
  unnoticed := by rw [hstays.session h.running]; exact h.unnoticed
  hasPipes := by rw [hstays.session h.running]; exact h.hasPipes
  lastId := by rw [hstays.session h.running]; exact h.lastId
  pending := by rw [hstays.session h.running]; exact h.pending
  pipe := hstays.pipe.trans h.pipe
  unframed := hstays.unframed.trans h.unframed
  delayed := hstays.delayed.trans h.delayed

theorem Greets.isIdle (h : c.Greets after) (hreader : after.reader = .waiting) : after.IsIdle :=
  ⟨h.running, h.unnoticed, h.hasPipes, hreader, h.pipe, h.unframed, h.delayed⟩

/-- The client says that it is ready, and the server does nothing. -/
theorem Greets.initialized (h : c.Greets between) :
    (between.say (.toServer Message.initialized)).take Message.initialized =
        between.say (.toServer Message.initialized) ∧
      c.Greets (between.say (.toServer Message.initialized)) := by
  refine ⟨?_, ⟨h.behaviour, h.running, h.unnoticed, h.hasPipes, h.spec, h.published, h.versions,
    h.pipe, h.unframed, h.delayed, h.dialogue.trans ?_⟩⟩
  · rw [Message.initialized, take_notification]
    simp
  · exact .of_message not_isAboutDocument_initialized

end Connection

theorem findProjectRoot_congr {m after : Machine} (h : after.untouched = m.untouched) (path : Path)
    (markers : List LooseText) :
    findProjectRoot after path markers = findProjectRoot m path markers := by
  change findProjectRoot after.untouched path markers = findProjectRoot m.untouched path markers
  rw [h]

namespace Machine

variable {m after : Machine} {pid : Nat} {c : Connection}

theorem startTasks_run (pid : Nat) (m : Machine) :
    ∃ started, (startTasks pid).run m = (.ok ⟨⟩, started) ∧
      (m.revise pid Connection.startTasks).Stays started ∧
      started.turns = m.turns ++ [.watch pid, .listen pid, .read pid] :=
  ⟨{ m.revise pid Connection.startTasks with
      turns := m.turns ++ [.watch pid] ++ [.listen pid] ++ [.read pid] },
    rfl, .of_same rfl rfl rfl, by simp⟩

theorem isPlain_folderName (uri : String) : (folderName uri).IsPlain := by
  rw [folderName]
  generalize Uri.key (Uri.afterScheme uri) = text
  rw [Path.name]
  cases hlast : (Path.ofText text).parts.getLast? with
  | none => exact LooseText.isPlain_ofString ""
  | some part => exact Path.isPlain_of_mem_names (List.mem_of_getLast? hlast)

theorem isWellFormed_initializeParams (rootUri : String) :
    (initializeParams (some rootUri)).isWellFormed = true := by
  have hname := Json.isWellFormed_ofText.2 (isPlain_folderName rootUri)
  unfold initializeParams
  simp only
  split
  · rfl
  · simp [Json.isWellFormed, Json.haveWellFormed, Json.areWellFormed, capabilities, hname]

/-- The client says that it is ready. -/
theorem notify_initialized (hc : m.connection? pid = some c) {new : Connection}
    (hgreets : new.Greets c) :
    ∃ after woken c', (notify pid "initialized" (some (.object []))).run m = (.ok (), after) ∧
      m.Spares pid after ∧ after.awaited = m.awaited ∧ after.turns = m.turns ++ woken ∧
      (∀ turn ∈ woken, ∃ server, turn.server? = some server) ∧
      after.connection? pid = some c' ∧ new.Greets c' ∧
      (c.reader = .waiting → c'.reader = .waiting) := by
  obtain ⟨journal, hlogged⟩ :=
    comes_log .debug (toString "LSP Notification: " ++ toString "initialized") m
  have hc' : (m.withJournal journal).connection? pid = some c := hc
  obtain ⟨after, woken, hrun, hstays, hturns, htasks, -⟩ := deliver_run hc' Message.initialized
  obtain ⟨htaken, hmore⟩ := hgreets.initialized
  rw [htaken] at hrun hstays
  have halive : (c.say (.toServer Message.initialized)).hasExited = false := by
    rw [Connection.hasExited, hmore.running]
    rfl
  rw [halive, Bool.and_false] at hrun
  obtain ⟨c', hafter, hsame⟩ := hstays.each pid _ (connection?_revise hc' _)
  have hrevised : m.Spares pid ((m.withJournal journal).revise pid fun _ =>
      c.say (.toServer Message.initialized)) := by
    obtain ⟨huntouched, hlength, hothers⟩ := spares_revise pid (fun _ =>
      c.say (.toServer Message.initialized)) m
    exact ⟨huntouched, hlength, hothers⟩
  refine ⟨after, woken, c', ?_, hrevised.trans (hstays.spares pid), hstays.awaited, hturns, htasks,
    hafter, hmore.of_stays hsame, hsame.waiting hmore.running hmore.pipe⟩
  rw [notify, run_bind_ok hlogged]
  exact (send_run hc' hgreets.hasPipes rfl).trans hrun

/-- The tasks for a new server are started. -/
theorem started_run (h : m.IsAtRest fun _ => False) (hc : m.connection? pid = some c)
    (hnew : c.IsNew) :
    ∃ started c', (startTasks pid).run m = (.ok ⟨⟩, started) ∧ m.Spares pid started ∧
      started.IsAtRest (· = pid) ∧ started.connection? pid = some c' ∧ c.Greets c' ∧ c'.IsNew ∧
      c'.reader ≠ .over ∧ .read pid ∈ started.turns := by
  obtain ⟨started, hstart, hstays, hturns⟩ := startTasks_run pid m
  obtain ⟨c', hc', hsame⟩ := hstays.each pid _ (connection?_revise hc Connection.startTasks)
  have hspares := (spares_revise pid Connection.startTasks m).trans (hstays.spares pid)
  have hstarting : c.startTasks.IsNew := ⟨hnew.running, hnew.unnoticed, hnew.hasPipes, hnew.lastId,
    hnew.pending, hnew.pipe, hnew.unframed, hnew.delayed⟩
  refine ⟨started, c', hstart, hspares, (h.except pid).spared hspares ?_ ?_, hc',
    hnew.greets.of_stays hsame, hstarting.of_stays hsame, hsame.reading hnew.running nofun, ?_⟩
  · exact hstays.awaited.trans h.awaited
  · rw [hturns]
    intro turn hmem
    rcases List.mem_append.1 hmem with hmem | hmem
    · exact h.tasks turn hmem
    · simp only [List.mem_cons, List.not_mem_nil, or_false] at hmem
      rcases hmem with rfl | rfl | rfl <;> exact ⟨pid, rfl⟩
  · rw [hturns]
    simp

/-- A new server is greeted. When that succeeds the server is idle. -/
theorem greet_run (h : m.IsAtRest fun _ => False) (hc : m.connection? pid = some c)
    (hnew : c.IsNew) (hendures : c.behaviour.Endures) (path : Path) :
    ∃ outcome after c', (Fleet.greet pid path).run m = (outcome, after) ∧ m.Spares pid after ∧
      after.IsAtRest (· = pid) ∧ after.connection? pid = some c' ∧ c.Greets c' ∧
      (∀ said, outcome = .ok said → c'.IsIdle) ∧
      (c.behaviour.Welcomes → ∀ root, findProjectRoot m path rootMarkers = .ok root →
        ∃ said, outcome = .ok said) := by
  obtain ⟨journal, hlogged⟩ := comes_log .debug "LSP Client: Starting server communication" m
  obtain ⟨started, c₁, hstart, hspares, hrest, hc₁, hgreets, hnew₁, hreading, hread⟩ :=
    started_run (h.of_stays (.of_same rfl rfl rfl) h.tasks :
      (m.withJournal journal).IsAtRest fun _ => False) hc hnew
  have hspares : m.Spares pid started := ⟨hspares.untouched, hspares.length, hspares.others⟩
  have hroot : findProjectRoot started path rootMarkers = findProjectRoot m path rootMarkers :=
    findProjectRoot_congr hspares.untouched path rootMarkers
  rw [Fleet.greet, run_bind_ok hlogged, run_bind_ok hstart, run_bind_ok (run_get started), hroot]
  cases hfound : findProjectRoot m path rootMarkers with
  | error failure =>
    exact ⟨.error failure, started, c₁, rfl, hspares, hrest, hc₁, hgreets, nofun, nofun⟩
  | ok root =>
    rw [run_bind_ok (ofExcept_run (.ok root) started)]
    obtain ⟨outcome, asked, c₂, hrequest, hasked, hrest₂, hc₂, hgreets₂, hwaiting, hwelcomes⟩ :=
      request_run hrest hc₁ hnew₁ hreading hread (by rwa [hgreets.behaviour])
        (isWellFormed_initializeParams root)
    cases outcome with
    | error failure =>
      refine ⟨.error failure, asked, c₂, ?_, hspares.trans hasked, hrest₂, hc₂,
        hgreets.trans hgreets₂, nofun, fun hwelcome => ?_⟩
      · rw [run_bind, hrequest]
      · obtain ⟨said, hsaid⟩ := hwelcomes (by rwa [hgreets.behaviour])
        cases hsaid
    | ok said =>
      obtain ⟨after, woken, c₃, hnotify, hnotified, hawaited, hturns, htasks, hc₃, hgreets₃,
        hwaiting₃⟩ := notify_initialized hc₂ (hgreets.trans hgreets₂)
      have hall := (hspares.trans hasked).trans hnotified
      refine ⟨.ok said, after, c₃, ?_, hall, hrest₂.spared hnotified
        (hawaited.trans hrest₂.awaited) ?_, hc₃, hgreets₃,
        fun _ _ => hgreets₃.isIdle (hwaiting₃ (hwaiting said rfl)), fun _ _ _ => ⟨said, rfl⟩⟩
      · rw [run_bind_ok hrequest, run_bind_ok hnotify]
        rfl
      · rw [hturns]
        intro turn hmem
        exact (List.mem_append.1 hmem).elim (hrest₂.tasks turn) (htasks turn)

/-- A server that has ended is left with nothing but its tasks. -/
theorem terminate_exited (hc : m.connection? pid = some c) (hexited : c.exitCode ≠ none) :
    ∃ after, (terminate pid).run m = (.ok (), after) ∧ m.Stays after ∧ after.turns = m.turns := by
  have hover : c.hasExited = true := Option.isSome_iff_ne_none.2 hexited
  refine ⟨m.revise pid Connection.cancelTasks, ?_, .revise hc ?_, rfl⟩
  · rw [terminate, run_bind_ok (run_get m)]
    simp only [hc, tellToEnd, hover, Bool.not_true, Bool.false_eq_true, ↓reduceIte]
    rfl
  · exact ⟨rfl, rfl, rfl, rfl, rfl, rfl, rfl, rfl, rfl, fun h => absurd h hexited,
      fun h => absurd h hexited, fun h => absurd h hexited, fun _ => ⟨rfl, rfl, rfl⟩⟩

/-- A server that was greeted in vain is told to end, and nobody listens to it any more. -/
theorem terminate_greeted (hc : m.connection? pid = some c) {new : Connection}
    (hgreets : new.Greets c) :
    ∃ after c', (terminate pid).run m = (.ok (), after) ∧ m.Spares pid after ∧
      after.awaited = m.awaited ∧ after.turns = m.turns ∧ after.connection? pid = some c' ∧
      c'.IsAtRest ∧ LeavesDocuments new.dialogue c'.dialogue := by
  have halive : c.hasExited = false := by
    rw [Connection.hasExited, hgreets.running]
    rfl
  let told : Connection → Connection := fun c => c.takeTermination.cancelTasks
  have hrun : (terminate pid).run m =
      (.ok (), ((m.noted (.terminated pid)).revise pid told)) := by
    rw [terminate, run_bind_ok (run_get m)]
    simp only [hc, tellToEnd, halive, Bool.not_false, ↓reduceIte]
    have hboth : ((m.noted (.terminated pid)).revise pid Connection.takeTermination).revise pid
        Connection.cancelTasks = (m.noted (.terminated pid)).revise pid told := revise_revise ..
    rw [← hboth]
    rfl
  obtain ⟨huntouched, hlength, hothers⟩ := spares_revise pid told m
  refine ⟨_, told c, hrun, ⟨huntouched, hlength, hothers⟩, rfl, rfl, connection?_revise hc told,
    ?_, ?_⟩
  · simp only [told, Connection.takeTermination]
    split
    · exact ⟨hgreets.pipe, hgreets.unframed, hgreets.delayed, .inl ⟨rfl, rfl, rfl⟩⟩
    · exact ⟨hgreets.pipe, hgreets.unframed, hgreets.delayed, .inl ⟨rfl, rfl, rfl⟩⟩
  · have hdialogue : (told c).dialogue = c.dialogue ++ [.termination] :=
      Connection.dialogue_takeTermination c
    rw [hdialogue]
    exact hgreets.dialogue.trans (.of_append fun _ hmem => absurd hmem List.not_mem_nil)

/-- The machine later on. Servers may have been started since, but they know of no document, and
nothing has happened to the others that matters. -/
structure Continues (m after : Machine) : Prop where
  untouched : after.untouched = m.untouched
  kept : ∀ pid c, m.connection? pid = some c → ∃ c', after.connection? pid = some c' ∧ c.Stays c'
  started : ∀ pid c', m.connection? pid = none → after.connection? pid = some c' →
    LeavesDocuments [] c'.dialogue

theorem Stays.continues (h : m.Stays after) : m.Continues after where
  untouched := h.untouched
  kept := h.each
  started pid c' hnone hc' := by
    obtain ⟨c, hc, -⟩ := h.exists_before hc'
    cases hnone.symm.trans hc

theorem Continues.trans {between : Machine} (h : m.Continues between)
    (hnext : between.Continues after) : m.Continues after where
  untouched := hnext.untouched.trans h.untouched
  kept pid c hc := by
    obtain ⟨c₁, hc₁, hfirst⟩ := h.kept pid c hc
    obtain ⟨c₂, hc₂, hsecond⟩ := hnext.kept pid c₁ hc₁
    exact ⟨c₂, hc₂, hfirst.trans hsecond⟩
  started pid c' hnone hc' := by
    cases hc : between.connection? pid with
    | none => exact hnext.started pid c' hc hc'
    | some c =>
      obtain ⟨c₂, hc₂, hstays⟩ := hnext.kept pid c hc
      obtain rfl := Option.some.inj (hc'.symm.trans hc₂)
      rw [hstays.dialogue]
      exact h.started pid c hnone hc

/-- No document was sent since. -/
theorem Continues.leavesDocuments (h : m.Continues after) (pid : Nat) :
    LeavesDocuments (m.dialogue pid) (after.dialogue pid) := by
  rw [dialogue, dialogue]
  cases hc : m.connection? pid with
  | some c =>
    obtain ⟨c', hc', hstays⟩ := h.kept pid c hc
    rw [hc', Option.map_some, Option.map_some, Option.getD_some, Option.getD_some, hstays.dialogue]
    exact .refl _
  | none =>
    cases hc' : after.connection? pid with
    | none => exact .refl _
    | some c' => exact h.started pid c' hc hc'

structure Spawns (m : Machine) (new : Connection) (after : Machine) : Prop where
  untouched : after.untouched = m.untouched
  awaited : after.awaited = m.awaited
  turns : after.turns = m.turns
  length : after.connections.length = m.connections.length + 1
  others : ∀ pid c, m.connection? pid = some c → after.connection? pid = some c
  new : after.connection? m.connections.length = some new

theorem spawn_run (command : List LooseText) (spec : ServerSpec)
    (hspawns : m.refusesSpawn = false) :
    ∃ after, (spawn command spec).run m = (.ok m.connections.length, after) ∧
      m.Spawns (m.newConnection command spec) after := by
  refine ⟨{ m with
    connections := m.connections ++ [m.newConnection command spec]
    journal := { m.journal with
      events := m.journal.events ++ [.spawned m.connections.length command] } }, ?_, rfl, rfl, rfl,
    List.length_append, fun pid c hc => ?_, ?_⟩
  · rw [spawn, run_bind_ok (run_get m), if_neg (Bool.eq_false_iff.1 hspawns)]
    rfl
  · exact (List.getElem?_append_left (Station.lt_length_of_connection? hc)).trans hc
  · exact List.getElem?_concat_length

theorem spawn_refused (command : List LooseText) (spec : ServerSpec)
    (hrefuses : m.refusesSpawn = true) :
    (spawn command spec).run m =
      (.error (.notStarted "FileNotFoundError" (command.headD "")), m) := by
  rw [spawn, run_bind_ok (run_get m), if_pos hrefuses]
  rfl

theorem Spawns.isAtRest {new : Connection} (h : m.Spawns new after)
    (hrest : m.IsAtRest fun _ => False) (hnew : new.IsAtRest) :
    after.IsAtRest fun _ => False where
  awaited := h.awaited.trans hrest.awaited
  tasks := by rw [h.turns]; exact hrest.tasks
  connections pid c _ hc := by
    cases hbefore : m.connection? pid with
    | some before =>
      obtain rfl := Option.some.inj ((h.others pid before hbefore).symm.trans hc)
      exact hrest.connections pid before id hbefore
    | none =>
      have hle := connection?_eq_none_iff.1 hbefore
      have hlt := Station.lt_length_of_connection? hc
      obtain rfl : pid = m.connections.length := by
        have := h.length
        omega
      obtain rfl := Option.some.inj (h.new.symm.trans hc)
      exact hnew

/-- What happens to a new server leaves the others as they were. -/
theorem Spawns.continues {new c' : Connection} {between : Machine} (h : m.Spawns new between)
    (hspares : between.Spares m.connections.length after)
    (hc' : after.connection? m.connections.length = some c')
    (hdialogue : LeavesDocuments [] c'.dialogue) : m.Continues after where
  untouched := hspares.untouched.trans h.untouched
  kept pid c hc := by
    have hlt := Station.lt_length_of_connection? hc
    exact hspares.others pid c (Nat.ne_of_lt hlt) (h.others pid c hc)
  started pid found hnone hfound := by
    have hle := connection?_eq_none_iff.1 hnone
    have hlt := Station.lt_length_of_connection? hfound
    obtain rfl : pid = m.connections.length := by
      have := h.length
      have := hspares.length
      omega
    obtain rfl := Option.some.inj (hc'.symm.trans hfound)
    exact hdialogue

end Machine

structure Connection.Starts (new c : Connection) : Prop where
  idle : c.IsIdle
  behaviour : c.behaviour = new.behaviour
  spec : c.session.spec = new.session.spec
  published : c.session.published = []
  versions : c.session.versions = []

namespace Fleet

variable {m : Machine} {f : Fleet} {spec : ServerSpec} {executable : LooseText} {path : Path}

theorem onMachine_run {α : Type} {step : Run Machine α} {outcome : Except Failure α}
    {m after : Machine} (h : step.run m = (outcome, after)) (f : Fleet) :
    (onMachine step).run ⟨m, f⟩ = (outcome, ⟨after, f⟩) :=
  Run.onMachine_run (s := (⟨m, f⟩ : Station)) h

theorem log_run (level : Level) (text : String) (m : Machine) (f : Fleet) :
    ∃ journal, (Fleet.log level text).run ⟨m, f⟩ = (.ok (), ⟨m.withJournal journal, f⟩) := by
  obtain ⟨journal, hrun⟩ := Machine.comes_log level text m
  exact ⟨journal, onMachine_run hrun f⟩

inductive Launches (m : Machine) (f : Fleet) (key : LooseText) (new : Connection) :
    Except Failure Nat → Station → Prop
  | failed {failure : Failure} {after : Machine} (hcontinues : m.Continues after)
      (hrest : after.IsAtRest fun _ => False) : Launches m f key new (.error failure) ⟨after, f⟩
  | started {after : Machine} {started : Started} {c : Connection}
      (hspawns : m.refusesSpawn = false) (hcontinues : m.Continues after)
      (hrest : after.IsAtRest fun _ => False)
      (hc : after.connection? started.pid = some c) (hstarts : new.Starts c) :
      Launches m f key new (.ok started.pid) ⟨after, f.withStarted key started⟩

theorem isNew_newConnection (m : Machine) (command : List LooseText) (spec : ServerSpec) :
    (m.newConnection command spec).IsNew := ⟨rfl, rfl, rfl, rfl, rfl, rfl, rfl, rfl⟩

/-- A launch fails or starts a new server. It succeeds when the server answers. -/
theorem launch_run (h : m.IsAtRest fun _ => False)
    (hendures : (m.newConnection (spec.launchCommand (some executable)) spec).behaviour.Endures) :
    let new := m.newConnection (spec.launchCommand (some executable)) spec
    ∃ outcome after, (launch spec executable path).run ⟨m, f⟩ = (outcome, after) ∧
      Launches m f spec.key new outcome after ∧
      (m.refusesSpawn = false → new.behaviour.Welcomes →
        ∀ root, findProjectRoot m path rootMarkers = .ok root → ∃ pid, outcome = .ok pid) := by
  intro new
  obtain ⟨journal, hlogged⟩ := log_run .info s!"Starting LSP server: {spec.key}" m f
  let logged := m.withJournal journal
  have hsame : m.Stays logged := .withJournal journal m
  have hrest : logged.IsAtRest fun _ => False := h.of_stays hsame h.tasks
  rw [launch, run_bind_ok hlogged]
  cases hspawns : m.refusesSpawn with
  | true =>
    have hrefused := onMachine_run (Machine.spawn_refused (m := logged)
      (spec.launchCommand (some executable)) spec hspawns) f
    rw [run_bind, hrefused]
    exact ⟨_, _, rfl, .failed hsame.continues hrest, nofun⟩
  | false =>
    obtain ⟨grown, hspawn, hgrown⟩ := Machine.spawn_run (m := logged)
      (spec.launchCommand (some executable)) spec hspawns
    have hnew := isNew_newConnection logged (spec.launchCommand (some executable)) spec
    have hidle : new.IsAtRest := ⟨rfl, rfl, rfl, .inl ⟨rfl, rfl, rfl⟩⟩
    obtain ⟨outcome, greeted, c, hgreet, hspares, hrest₁, hc, hgreets, hsuccess, hwelcome⟩ :=
      Machine.greet_run (hgrown.isAtRest hrest hidle) hgrown.new hnew hendures path
    rw [run_bind_ok (onMachine_run hspawn f),
      run_bind_ok (attempt_run (onMachine_run hgreet f))]
    cases outcome with
    | ok said =>
      let started : Started := ⟨logged.connections.length, said.asObject?⟩
      have hkept : (keep spec.key started).run ⟨greeted, f⟩ =
          (.ok ⟨⟩, ⟨greeted, f.withStarted spec.key started⟩) := rfl
      obtain ⟨last, hlast⟩ := log_run .info s!"LSP server '{spec.key}' started successfully" greeted
        (f.withStarted spec.key started)
      have hidle : c.IsIdle := hsuccess said rfl
      have hstays := Machine.Stays.withJournal last greeted
      refine ⟨.ok started.pid, ⟨greeted.withJournal last, f.withStarted spec.key started⟩, ?_,
        .started (c := c) hspawns ?_ ?_ hc
          ⟨hidle, hgreets.behaviour, hgreets.spec, hgreets.published, hgreets.versions⟩,
        fun _ _ _ _ => ⟨_, rfl⟩⟩
      · exact (run_bind_ok hkept _).trans ((run_bind_ok hlast _).trans rfl)
      · exact hsame.continues.trans ((hgrown.continues hspares hc hgreets.dialogue).trans
          hstays.continues)
      · have hspared := (Machine.Stays.refl greeted).spares started.pid
        exact (hrest₁.of_spares hspared hrest₁.awaited hrest₁.tasks hc
          hidle.isAtRest).of_stays hstays hrest₁.tasks
    | error failure =>
      obtain ⟨last, hlast⟩ := log_run .warning s!"LSP server '{spec.key}' failed to initialize"
        greeted f
      have hlogged : (greeted.withJournal last).connection? logged.connections.length = some c := hc
      obtain ⟨ended, c', hterminate, hended, hawaited, hturns, hc', hidle, hdialogue⟩ :=
        Machine.terminate_greeted hlogged hgreets
      have hspared : greeted.Spares logged.connections.length ended :=
        ((Machine.Stays.withJournal last greeted).spares _).trans hended
      refine ⟨.error failure, ⟨ended, f⟩, ?_, .failed ?_ ?_, fun _ hwelcomes root hroot => ?_⟩
      · exact (run_bind_ok hlast _).trans (run_bind_ok (onMachine_run hterminate f) _)
      · exact hsame.continues.trans (hgrown.continues (hspares.trans hspared) hc' hdialogue)
      · exact hrest₁.of_spares hspared (hawaited.trans hrest₁.awaited)
          (by rw [hturns]; exact hrest₁.tasks) hc' hidle
      · have hroot' : findProjectRoot grown path rootMarkers = .ok root :=
          (findProjectRoot_congr hgrown.untouched path rootMarkers).trans hroot
        obtain ⟨said, hsaid⟩ := hwelcome hwelcomes root hroot'
        cases hsaid

end Fleet

end ProjectCheck
