import ProjectCheck.Proofs.Machine.Rest
import ProjectCheck.Proofs.Server.Bulletins

/-!
Waits of the client. A machine at rest stays at rest, and what a server has sent is read when the
waits before it are over.
-/
namespace ProjectCheck

open Run Frame

namespace Connection

/-- Nothing that the server has sent is on its way. The tasks for the server are over, or the client
listens as long as the server is alive. -/
structure IsAtRest (c : Connection) : Prop where
  pipe : c.pipe = []
  unframed : c.unframed = []
  delayed : c.delayed = []
  listening : c.IsRetired ∨
    (c.exitCode = none → c.session.exitNoticed = false ∧ c.reader = .waiting)

/-- The server is alive, the client listens, and all that is on its way is one message that comes
after a number of waits. -/
structure IsAwaiting (delay : Nat) (message : Json) (c : Connection) : Prop where
  running : c.exitCode = none
  unnoticed : c.session.exitNoticed = false
  unframed : c.unframed = []
  pipe : c.pipe = if delay = 0 then ofContent (content message) else []
  delayed : c.delayed = if delay = 0 then [] else [(delay, ofContent (content message))]
  reading : c.reader ≠ .over
  waiting : delay ≠ 0 → c.reader = .waiting

variable {c after : Connection} {delay : Nat} {message : Json}

theorem IsAtRest.of_stays (h : c.IsAtRest) (hstays : c.Stays after) : after.IsAtRest where
  pipe := hstays.pipe.trans h.pipe
  unframed := hstays.unframed.trans h.unframed
  delayed := hstays.delayed.trans h.delayed
  listening := by
    rcases h.listening with hretired | hlistening
    · exact .inl (hstays.retired hretired)
    · refine .inr fun hrunning => ?_
      rw [hstays.exitCode] at hrunning
      obtain ⟨hnoticed, hreader⟩ := hlistening hrunning
      exact ⟨by rw [hstays.session hrunning]; exact hnoticed,
        hstays.waiting hrunning h.pipe hreader⟩

theorem IsAtRest.isUnmoved (h : c.IsAtRest) (turn : Turn) : c.IsUnmoved turn :=
  h.listening.imp (fun h => h) fun hlistening =>
    ⟨fun hrunning => (hlistening hrunning).1, fun _ => ⟨h.pipe, h.unframed⟩⟩

theorem IsAtRest.pass_eq (h : c.IsAtRest) : c.pass = c := by
  obtain ⟨hpipe, -, hdelayed, -⟩ := h
  simp only [pass, hdelayed, List.map_nil, List.filter_nil, List.flatMap_nil, List.append_nil]
  rw [← hdelayed]

theorem IsAwaiting.of_stays (h : c.IsAwaiting delay message) (hstays : c.Stays after) :
    after.IsAwaiting delay message where
  running := hstays.exitCode.trans h.running
  unnoticed := by rw [hstays.session h.running]; exact h.unnoticed
  unframed := hstays.unframed.trans h.unframed
  pipe := hstays.pipe.trans h.pipe
  delayed := hstays.delayed.trans h.delayed
  reading := hstays.reading h.running h.reading
  waiting hdelay :=
    hstays.waiting h.running (h.pipe.trans (if_neg hdelay)) (h.waiting hdelay)

/-- What comes is one wait nearer, and what has come stays. -/
theorem IsAwaiting.pass (h : c.IsAwaiting delay message) :
    c.pass.IsAwaiting (delay - 1) message := by
  obtain ⟨hrunning, hunnoticed, hunframed, hpipe, hdelayed, hreading, hwaiting⟩ := h
  refine ⟨hrunning, hunnoticed, hunframed, ?_, ?_, hreading, fun hdelay => hwaiting (by omega)⟩
  all_goals
    simp only [Connection.pass, hpipe, hdelayed]
    rcases delay with _ | _ | delay <;> simp

def readOut (outcome : Except Failure Unit) (c : Connection) :
    Connection :=
  match outcome with
  | .ok _ => { c with unframed := [], reader := .waiting }
  | .error _ => { c with reader := .over }

end Connection

namespace Machine

variable {m between after : Machine} {pid : Nat} {c : Connection} {message value : Json}

/-! Waking the tasks that have waited. -/

def withDue (woken : List Turn) (m : Machine) : Machine := { m with turns := m.turns ++ woken }

theorem comes_due (turn : Turn) (m : Machine) : Comes (due turn) m (.ok ()) (m.withDue [turn]) :=
  .of_run rfl

theorem comes_wakeReader (pid : Nat) (c : Connection) :
    ∃ change woken,
      (∀ m, Comes (wakeReader pid c) m (.ok ()) ((m.revise pid change).withDue woken)) ∧
      c.Stays (change c) ∧ (change c).watcher = c.watcher ∧
      (∀ turn ∈ woken, ∃ server, turn.server? = some server) ∧
      (c.pipe ≠ [] → c.reader = .waiting → .read pid ∈ woken) := by
  unfold wakeReader
  by_cases hwakes : c.reader = .waiting ∧ c.pipe ≠ []
  · obtain ⟨hreader, hpipe⟩ := hwakes
    refine ⟨fun c => { c with reader := .woken }, [.read pid], fun m => ?_, ?_, rfl, ?_, ?_⟩
    · rw [if_pos (by simp [hreader, hpipe])]
      exact (comes_updateConnection ..).bind fun journal => (comes_due ..).congr fun _ => rfl
    · exact ⟨rfl, rfl, rfl, rfl, rfl, rfl, rfl, rfl, rfl, fun _ => rfl, fun _ _ => nofun,
        fun _ h => absurd h hpipe, fun h => nomatch hreader.symm.trans h.1⟩
    · intro turn hmem
      exact ⟨pid, by rw [List.mem_singleton.1 hmem]; rfl⟩
    · exact fun _ _ => List.mem_singleton.2 rfl
  · refine ⟨id, [], fun m => ?_, .refl c, rfl, nofun, fun hpipe hreader =>
      absurd ⟨hreader, hpipe⟩ hwakes⟩
    rw [if_neg (by simpa using hwakes), revise_id]
    exact (Comes.pure () m).congr fun _ => by rw [withDue, List.append_nil]

theorem comes_wakeWatcher (pid : Nat) (c : Connection) :
    ∃ change woken,
      (∀ m, Comes (wakeWatcher pid c) m (.ok ()) ((m.revise pid change).withDue woken)) ∧
      (∀ c' : Connection, c'.watcher = c.watcher → c'.Stays (change c')) ∧
      (∀ turn ∈ woken, ∃ server, turn.server? = some server) := by
  unfold wakeWatcher
  split
  · rename_i hwakes
    have hwatcher : c.watcher = .waiting := by
      simp only [Bool.and_eq_true, decide_eq_true_eq] at hwakes
      exact hwakes.1
    refine ⟨fun c => { c with watcher := .woken }, [.watch pid], fun m => ?_, fun c' hc' => ?_, ?_⟩
    · exact (comes_updateConnection ..).bind fun journal => (comes_due ..).congr fun _ => rfl
    · exact ⟨rfl, rfl, rfl, rfl, rfl, rfl, rfl, rfl, rfl, fun _ => rfl, fun _ h => h,
        fun _ _ h => h, fun h => nomatch (hc'.trans hwatcher).symm.trans h.2.2⟩
    · intro turn hmem
      exact ⟨pid, by rw [List.mem_singleton.1 hmem]; rfl⟩
  · refine ⟨id, [], fun m => ?_, fun c' _ => .refl c', nofun⟩
    rw [revise_id]
    exact (Comes.pure () m).congr fun _ => by rw [withDue, List.append_nil]

/-- Waking the tasks for a server changes nothing else, and the reader has a turn if there is
something to read. -/
theorem stir_run (pid : Nat) (m : Machine) :
    ∃ after woken, (stir pid).run m = (.ok (), after) ∧ m.Stays after ∧
      (∀ other, other ≠ pid → after.connection? other = m.connection? other) ∧
      after.turns = m.turns ++ woken ∧
      (∀ turn ∈ woken, ∃ server, turn.server? = some server) ∧
      ∀ c, m.connection? pid = some c → c.pipe ≠ [] → c.reader = .waiting → .read pid ∈ woken := by
  cases hc : m.connection? pid with
  | none =>
    have hstirred : (stir pid).run m = (.ok (), m) := by
      rw [stir, run_bind_ok (run_get m), hc]
      rfl
    refine ⟨m, [], hstirred, .refl m, fun _ _ => rfl, (List.append_nil _).symm, ?_, ?_⟩
    · intro turn hmem
      cases hmem
    · intro c h
      cases h
  | some c =>
    obtain ⟨first, read, hread, hfirst, hwatcher, hreads, hsome⟩ := comes_wakeReader pid c
    obtain ⟨second, watch, hwatch, hsecond, hwatches⟩ := comes_wakeWatcher pid c
    obtain ⟨journal, hrun⟩ := hread m
    obtain ⟨last, hlast⟩ := hwatch (((m.revise pid first).withDue read).withJournal journal)
    let after := ((((m.revise pid first).withDue read).withJournal journal).revise pid
      second).withDue watch |>.withJournal last
    have hsame : after = ((m.revise pid fun c => second (first c)).withDue
        (read ++ watch)).withJournal last := by
      rw [← revise_revise]
      simp only [after, withDue, revise, withJournal, List.append_assoc]
    refine ⟨after, read ++ watch, ?_, ?_, ?_, ?_, ?_, ?_⟩
    · rw [stir, run_bind_ok (run_get m), hc]
      exact (run_bind_ok hrun _).trans hlast
    · rw [hsame]
      exact Stays.trans (.revise hc (hfirst.trans (hsecond _ hwatcher))) (.of_same rfl rfl rfl)
    · intro other hne
      rw [hsame]
      exact connection?_revise_of_ne (Ne.symm hne) _ m
    · rw [hsame]
      rfl
    · intro turn hmem
      rcases List.mem_append.1 hmem with hmem | hmem
      · exact hreads turn hmem
      · exact hwatches turn hmem
    · rintro c' heq hpipe hreader
      obtain rfl := Option.some.inj heq
      exact List.mem_append_left watch (hsome hpipe hreader)

theorem stirs_run (pids : List Nat) (m : Machine) :
    ∃ after woken, (pids.forM stir).run m = (.ok (), after) ∧ m.Stays after ∧
      after.turns = m.turns ++ woken ∧
      (∀ turn ∈ woken, ∃ server, turn.server? = some server) ∧
      ∀ pid ∈ pids, ∀ c, m.connection? pid = some c → c.pipe ≠ [] → c.reader = .waiting →
        .read pid ∈ woken := by
  induction pids generalizing m with
  | nil =>
    refine ⟨m, [], rfl, .refl m, (List.append_nil _).symm, ?_, ?_⟩
    · intro turn hmem
      cases hmem
    · intro pid hmem
      cases hmem
  | cons pid rest ih =>
    obtain ⟨between, woken, hfirst, hstays, hothers, hturns, htasks, hreads⟩ := stir_run pid m
    obtain ⟨after, last, hrest, hmore, hlast, hlastTasks, hlastReads⟩ := ih between
    refine ⟨after, woken ++ last, ?_, hstays.trans hmore, ?_, ?_, ?_⟩
    · exact (run_bind_ok hfirst _).trans hrest
    · rw [hlast, hturns, List.append_assoc]
    · intro turn hmem
      rcases List.mem_append.1 hmem with hmem | hmem
      · exact htasks turn hmem
      · exact hlastTasks turn hmem
    · intro other hmem c hc hpipe hreader
      by_cases hother : other = pid
      · subst hother
        exact List.mem_append_left last (hreads c hc hpipe hreader)
      · have hmem : other ∈ rest := (List.mem_cons.1 hmem).resolve_left hother
        exact List.mem_append_right woken
          (hlastReads other hmem c ((hothers other hother).trans hc) hpipe hreader)

/-! One wait. -/

def passed (m : Machine) : Machine :=
  { m with connections := m.connections.map Connection.pass }

theorem connection?_passed (m : Machine) (pid : Nat) :
    m.passed.connection? pid = (m.connection? pid).map Connection.pass := List.getElem?_map

/-- A wait goes by, the tasks are woken and all that is due is done. -/
theorem sleep_run (seconds : Decimal.Binary64) (m : Machine) :
    ∃ stirred woken, (sleep seconds).run m = giveWay.run stirred ∧ m.passed.Stays stirred ∧
      stirred.turns = m.turns ++ woken ∧
      (∀ turn ∈ woken, ∃ server, turn.server? = some server) ∧
      ∀ pid c, m.connection? pid = some c → c.pass.pipe ≠ [] → c.pass.reader = .waiting →
        .read pid ∈ woken := by
  let noted := m.withJournal { m.journal with sleeps := m.journal.sleeps ++ [seconds] }
  obtain ⟨stirred, woken, hrun, hstays, hturns, htasks, hreads⟩ :=
    stirs_run (List.range noted.passed.connections.length) noted.passed
  have hsame : m.passed.Stays noted.passed := .of_same rfl rfl rfl
  refine ⟨stirred, woken, ?_, hsame.trans hstays, hturns, htasks, ?_⟩
  · have hnoted : (record fun j => { j with sleeps := j.sleeps ++ [seconds] }).run m =
        (.ok ⟨⟩, noted) := rfl
    have hgone : (modify fun m : Machine =>
        { m with connections := m.connections.map Connection.pass } : Run Machine PUnit).run noted =
          (.ok ⟨⟩, noted.passed) := rfl
    rw [sleep, run_bind_ok hnoted, run_bind_ok hgone, run_bind_ok (run_get noted.passed),
      run_bind_ok hrun]
    rfl
  · intro pid c hc hpipe hreader
    have hpassed : noted.passed.connection? pid = some c.pass := by
      rw [connection?_passed]
      exact congrArg (Option.map _) hc
    have hlt : pid < noted.passed.connections.length :=
      Station.lt_length_of_connection? hpassed
    exact hreads pid (List.mem_range.2 hlt) c.pass hpassed hpipe hreader

/-- Giving way does all that is due when it does not matter. -/
theorem giveWay_run (hm : m.IsOpen) (hdue : m.AreUnmoved m.turns) :
    ∃ after, giveWay.run m = (.ok (), after) ∧ m.Stays after ∧ after.turns = [] := by
  obtain ⟨after, hstays, hturns, hrun⟩ := takeTurns_append hm (List.append_nil _).symm hdue
  refine ⟨after, ?_, hstays, hturns⟩
  rw [giveWay, run_bind_ok (run_get m), hrun, takeTurns, run_bind_ok (run_get after), hturns]
  rfl

/-- Nobody waits for an answer, only tasks of servers have turns, and nothing is on its way but
perhaps for the servers that are excepted. -/
structure IsAtRest (excepted : Nat → Prop) (m : Machine) : Prop where
  awaited : m.awaited = none
  tasks : ∀ turn ∈ m.turns, ∃ pid, turn.server? = some pid
  connections : ∀ pid c, ¬ excepted pid → m.connection? pid = some c → c.IsAtRest

theorem IsAtRest.of_stays {excepted : Nat → Prop} (h : m.IsAtRest excepted) (hstays : m.Stays after)
    (htasks : ∀ turn ∈ after.turns, ∃ pid, turn.server? = some pid) : after.IsAtRest excepted where
  awaited := hstays.awaited.trans h.awaited
  tasks := htasks
  connections pid c' hpid hc' := by
    obtain ⟨c, hc, hsame⟩ := hstays.exists_before hc'
    exact (h.connections pid c hpid hc).of_stays hsame

/-- When tasks of servers are woken, only tasks of servers have turns. -/
theorem IsAtRest.tasks_of_woken {excepted : Nat → Prop} (h : m.IsAtRest excepted)
    {woken : List Turn} (hturns : after.turns = m.turns ++ woken)
    (htasks : ∀ turn ∈ woken, ∃ pid, turn.server? = some pid) :
    ∀ turn ∈ after.turns, ∃ pid, turn.server? = some pid := by
  rw [hturns]
  intro turn hmem
  exact (List.mem_append.1 hmem).elim (h.tasks turn) (htasks turn)

/-- A machine at rest stays at rest while the client waits. -/
theorem IsAtRest.sleep_run (h : m.IsAtRest fun _ => False) (seconds : Decimal.Binary64) :
    ∃ after, (sleep seconds).run m = (.ok (), after) ∧ m.Stays after ∧
      after.IsAtRest (fun _ => False) := by
  obtain ⟨stirred, woken, hrun, hstays, hturns, htasks, -⟩ := Machine.sleep_run seconds m
  have hpassed : m.passed = m := by
    have hsame : m.connections.map Connection.pass = m.connections :=
      (List.map_congr_left fun c hmem => by
        obtain ⟨pid, hc⟩ := List.mem_iff_getElem?.1 hmem
        exact (h.connections pid c id hc).pass_eq).trans (List.map_id _)
    rw [passed, hsame]
  rw [hpassed] at hstays
  have hall := h.tasks_of_woken hturns htasks
  have hrest := h.of_stays hstays hall
  obtain ⟨after, hway, hmore, hnone⟩ := giveWay_run (.of_none hrest.awaited)
    ⟨hall, fun turn _ pid c _ hc => (hrest.connections pid c id hc).isUnmoved turn⟩
  refine ⟨after, hrun.trans hway, hstays.trans hmore, hrest.of_stays hmore ?_⟩
  rw [hnone]
  exact fun _ hmem => absurd hmem List.not_mem_nil

/-! One message is read. -/

/-- The first piece is read like the others as long as the server is alive. -/
theorem readTurnPieces_run (hm : IsAlive pid m) (c : Connection) :
    (readTurnPieces pid c).run m =
      (readPieces pid c.unframed (piecesOf pieceSize c.pipe)).run m := by
  unfold readTurnPieces
  split
  · rename_i hpieces
    rw [hpieces, readPieces_cons hm]
  · rfl

/-- The pieces of one message are read as its content. -/
theorem readPieces_content (hm : IsAlive pid m)
    (hmeasurable : isMeasurable (content message) = true)
    {pieces : List Bytes} (hpieces : pieces.flatten = ofContent (content message)) :
    (readPieces pid [] pieces).run m =
      (readContent pid (content message) >>= fun _ => pure (some [])).run m := by
  rw [readPieces_all hm (List.forall_mem_singleton.2 hmeasurable)
    (by rw [hpieces, List.flatMap_singleton])]
  simp only [List.forM_eq_forM, List.forM_cons, List.forM_nil, bind_assoc, pure_bind]

/-- A reader that has one whole message to read takes its content, and waits again unless that
fails. -/
theorem comes_readTurn {outcome : Except Failure Unit} (hc : m.connection? pid = some c)
    (hawaits : c.IsAwaiting 0 message) (hmeasurable : isMeasurable (content message) = true)
    (hread : ∀ journal, Comes (readContent pid (content message))
      ((m.revise pid fun c => { c with pipe := [] }).withJournal journal) outcome after) :
    Comes (readTurn pid c) m (.ok ()) (after.revise pid (Connection.readOut outcome)) := by
  refine (comes_updateConnection ..).bind fun journal => ?_
  have hm : IsAlive pid ((m.revise pid fun c => { c with pipe := [] }).withJournal journal) :=
    ⟨_, connection?_revise hc _, hawaits.unnoticed, hawaits.running⟩
  have hpieces : (piecesOf pieceSize c.pipe).flatten = ofContent (content message) := by
    rw [flatten_piecesOf (by decide), hawaits.pipe]
    rfl
  have htaken : Comes (readTurnPieces pid c)
      ((m.revise pid fun c => { c with pipe := [] }).withJournal journal)
      (outcome.map fun _ => some []) after := by
    obtain ⟨last, hlast⟩ := hread journal
    refine ⟨last, ?_⟩
    rw [readTurnPieces_run hm, hawaits.unframed, readPieces_content hm hmeasurable hpieces,
      run_bind, hlast]
    cases outcome <;> rfl
  refine htaken.attempt.bind fun last => ?_
  cases outcome with
  | ok _ => exact (comes_updateConnection ..).congr fun _ => rfl
  | error failure => exact (comes_updateConnection ..).congr fun _ => rfl

/-- A message that is taken in silence changes the session. -/
theorem comes_receive {session : Session} {logs : List String} (hc : m.connection? pid = some c)
    (hreception : c.session.receive value = { session, logs })
    (hdecided : ∀ journal, Comes handOnDecision
      ((m.revise pid fun c => { c with session }).withJournal journal) (.ok ()) after) :
    Comes (receive pid value) m (.ok ()) after := by
  have hsession : m.session? pid = some c.session := by
    rw [session?, hc, Option.map_some]
  refine Comes.get_bind ?_
  simp only [hsession, react, hreception]
  refine (comes_updateConnection ..).bind fun journal => (hdecided journal).bind fun journal => ?_
  exact (comes_debug ..).bind fun journal => ⟨_, rfl⟩

end Machine

def Connection.told (uri : String) (items : List Json) (c : Connection) : Connection :=
  { c with
    session := c.session.withPublished uri items
    pipe := []
    unframed := []
    reader := .waiting }

namespace Machine

variable {m between after : Machine} {pid : Nat} {c : Connection} {uri : String}
  {diagnostics : Json} {items : List Json}

/-- Items that have come are read, and the reader waits again. -/
theorem comes_readTurn_items (hawaited : m.awaited = none) (hc : m.connection? pid = some c)
    (hawaits : c.IsAwaiting 0 (ServerBehaviour.publish uri diagnostics)) (huri : uri ≠ "")
    (hread : IsReadAs (ServerBehaviour.publish uri diagnostics)
      (ServerBehaviour.publish uri (.array items))) :
    Comes (readTurn pid c) m (.ok ()) (m.revise pid (Connection.told uri items)) := by
  have hreceived : ∀ journal, Comes
      (readContent pid (content (ServerBehaviour.publish uri diagnostics)))
      ((m.revise pid fun c => { c with pipe := [] }).withJournal journal) (.ok ())
      (m.revise pid fun c =>
        { c with session := c.session.withPublished uri items, pipe := [] }) := by
    intro journal
    rw [hread.readContent_eq]
    refine comes_receive (connection?_revise hc _)
      (Session.receive_items _ huri items) fun last => ?_
    refine Comes.congr (comes_handOnDecision (.of_none hawaited)) fun _ => ?_
    simp only [revise_withJournal, withJournal_withJournal, revise_revise]
    exact congrArg (withJournal _) (revise_congr hc rfl)
  refine (comes_readTurn hc hawaits hread.measurable hreceived).congr fun _ => ?_
  rw [revise_revise]
  rfl

structure Spares (pid : Nat) (m after : Machine) : Prop where
  untouched : after.untouched = m.untouched
  length : after.connections.length = m.connections.length
  others : ∀ other c, other ≠ pid → m.connection? other = some c →
    ∃ c', after.connection? other = some c' ∧ c.Stays c'

theorem Stays.spares (h : m.Stays after) (pid : Nat) : m.Spares pid after :=
  ⟨h.untouched, h.length, fun other c _ hc => h.each other c hc⟩

theorem Spares.trans (h : m.Spares pid between) (hnext : between.Spares pid after) :
    m.Spares pid after where
  untouched := hnext.untouched.trans h.untouched
  length := hnext.length.trans h.length
  others other c hother hc := by
    obtain ⟨c₁, hc₁, hfirst⟩ := h.others other c hother hc
    obtain ⟨c₂, hc₂, hsecond⟩ := hnext.others other c₁ hother hc₁
    exact ⟨c₂, hc₂, hfirst.trans hsecond⟩

theorem Spares.exists_before (h : m.Spares pid after) {other : Nat} (hother : other ≠ pid)
    {c' : Connection} (hc' : after.connection? other = some c') :
    ∃ c, m.connection? other = some c ∧ c.Stays c' :=
  exists_connection?_of_length_eq h.length (fun c => h.others other c hother) hc'

theorem spares_revise (pid : Nat) (change : Connection → Connection) (m : Machine) :
    m.Spares pid (m.revise pid change) where
  untouched := rfl
  length := List.length_modify ..
  others _ c hother hc :=
    ⟨c, (connection?_revise_of_ne (Ne.symm hother) change m).trans hc, .refl c⟩

theorem IsAtRest.except (h : m.IsAtRest fun _ => False) (pid : Nat) : m.IsAtRest (· = pid) :=
  ⟨h.awaited, h.tasks, fun other c _ hc => h.connections other c id hc⟩

/-- What happens to the excepted server leaves the others at rest. -/
theorem IsAtRest.spared (h : m.IsAtRest (· = pid)) (hspares : m.Spares pid after)
    (hawaited : after.awaited = none)
    (htasks : ∀ turn ∈ after.turns, ∃ pid, turn.server? = some pid) :
    after.IsAtRest (· = pid) where
  awaited := hawaited
  tasks := htasks
  connections other found hother hfound := by
    obtain ⟨c, hc, hstays⟩ := hspares.exists_before hother hfound
    exact (h.connections other c hother hc).of_stays hstays

/-- With the excepted server at rest all are. -/
theorem IsAtRest.of_spares (h : m.IsAtRest (· = pid)) (hspares : m.Spares pid after)
    (hawaited : after.awaited = none)
    (htasks : ∀ turn ∈ after.turns, ∃ pid, turn.server? = some pid)
    {c' : Connection} (hc' : after.connection? pid = some c') (hrest : c'.IsAtRest) :
    after.IsAtRest fun _ => False where
  awaited := hawaited
  tasks := htasks
  connections other found _ hfound := by
    by_cases hother : other = pid
    · subst hother
      obtain rfl := Option.some.inj (hc'.symm.trans hfound)
      exact hrest
    · obtain ⟨c, hc, hstays⟩ := hspares.exists_before hother hfound
      exact (h.connections other c hother hc).of_stays hstays

theorem IsAtRest.passed (h : m.IsAtRest (· = pid)) : m.passed.IsAtRest (· = pid) where
  awaited := h.awaited
  tasks := h.tasks
  connections other c' hother hc' := by
    rw [connection?_passed] at hc'
    obtain ⟨c, hc, rfl⟩ := Option.map_eq_some_iff.1 hc'
    have hrest := h.connections other c hother hc
    rwa [hrest.pass_eq]

theorem IsAtRest.spares_passed (h : m.IsAtRest (· = pid)) : m.Spares pid m.passed where
  untouched := rfl
  length := List.length_map ..
  others other c hother hc := by
    refine ⟨c, ?_, .refl c⟩
    rw [connection?_passed, hc, Option.map_some, (h.connections other c hother hc).pass_eq]

/-- A wait goes by, and the tasks of a server for which something has come have turns before
them. -/
theorem IsAtRest.stirred_run (h : m.IsAtRest (· = pid)) (hc : m.connection? pid = some c)
    (seconds : Decimal.Binary64) :
    ∃ stirred c', (sleep seconds).run m = giveWay.run stirred ∧ m.Spares pid stirred ∧
      stirred.IsAtRest (· = pid) ∧ stirred.connection? pid = some c' ∧ c.pass.Stays c' ∧
      (∀ turn ∈ m.turns, turn ∈ stirred.turns) ∧
      (c.pass.pipe ≠ [] → c.pass.reader = .waiting → .read pid ∈ stirred.turns) := by
  obtain ⟨stirred, woken, hrun, hstays, hturns, htasks, hreads⟩ := Machine.sleep_run seconds m
  have hall := h.tasks_of_woken hturns htasks
  obtain ⟨c', hc', hpassed⟩ := hstays.each pid c.pass (by rw [connection?_passed, hc]; rfl)
  refine ⟨stirred, c', hrun, h.spares_passed.trans (hstays.spares pid),
    h.passed.of_stays hstays hall, hc', hpassed, ?_, ?_⟩
  · intro turn hmem
    rw [hturns]
    exact List.mem_append_left woken hmem
  · intro hpipe hreader
    rw [hturns]
    exact List.mem_append_right m.turns (hreads pid c hc hpipe hreader)

/-- While what a server has sent is more than one wait away, it comes one wait nearer. -/
theorem IsAtRest.sleep_nearer {delay : Nat} {message : Json} (h : m.IsAtRest (· = pid))
    (hc : m.connection? pid = some c) (hawaits : c.IsAwaiting (delay + 2) message)
    (seconds : Decimal.Binary64) :
    ∃ after c', (sleep seconds).run m = (.ok (), after) ∧ m.Spares pid after ∧
      after.IsAtRest (· = pid) ∧ after.connection? pid = some c' ∧
      c'.IsAwaiting (delay + 1) message ∧ c'.behaviour = c.behaviour ∧ c'.dialogue = c.dialogue ∧
      c'.session = c.session := by
  obtain ⟨stirred, c₁, hrun, hspares, hrest, hc₁, hpassed, -, -⟩ := h.stirred_run hc seconds
  have hnearer := hawaits.pass.of_stays hpassed
  have hunmoved : stirred.AreUnmoved stirred.turns := by
    refine ⟨hrest.tasks, fun turn _ other c' _ hc' => ?_⟩
    by_cases hother : other = pid
    · subst hother
      obtain rfl := Option.some.inj (hc₁.symm.trans hc')
      exact .inr ⟨fun _ => hnearer.unnoticed, fun _ => ⟨hnearer.pipe, hnearer.unframed⟩⟩
    · exact (hrest.connections other c' hother hc').isUnmoved turn
  obtain ⟨after, hway, hmore, hnone⟩ := giveWay_run (.of_none hrest.awaited) hunmoved
  obtain ⟨c', hc', hlast⟩ := hmore.each pid c₁ hc₁
  have hstays := hpassed.trans hlast
  refine ⟨after, c', hrun.trans hway, hspares.trans (hmore.spares pid), hrest.of_stays hmore ?_,
    hc', hnearer.of_stays hlast, hstays.behaviour, hstays.dialogue, hstays.session hawaits.running⟩
  rw [hnone]
  exact fun _ hmem => absurd hmem List.not_mem_nil

/-- A reader that is not over reads when it has its turn. -/
theorem comes_takeTurn_read {outcome : Except Failure Unit} (hc : m.connection? pid = some c)
    (hreading : c.reader ≠ .over) (h : Comes (readTurn pid c) m outcome after) :
    Comes (takeTurn (.read pid)) m outcome after := by
  refine Comes.get_bind ?_
  simp only [hc, ne_eq, hreading, not_false_eq_true, ↓reduceIte]
  exact h

/-- The reader has its turn and reads what has come. -/
theorem IsAtRest.told_run {later : List Turn} (h : m.IsAtRest (· = pid))
    (hc : m.connection? pid = some c)
    (hcome : c.IsAwaiting 0 (ServerBehaviour.publish uri diagnostics))
    (hturns : m.turns = .read pid :: later) (huri : uri ≠ "")
    (hread : IsReadAs (ServerBehaviour.publish uri diagnostics)
      (ServerBehaviour.publish uri (.array items))) :
    ∃ told, (∀ fuel, (takeTurns (fuel + 1)).run m = (takeTurns fuel).run told) ∧
      m.Spares pid told ∧ told.turns = later ∧ told.IsAtRest (fun _ => False) ∧
      told.connection? pid = some (c.told uri items) := by
  let taken : Machine := { m with turns := later }
  have hawaited : taken.awaited = none := h.awaited
  have htaken : taken.connection? pid = some c := hc
  obtain ⟨journal, hrun⟩ := comes_takeTurn_read htaken hcome.reading
    (comes_readTurn_items hawaited htaken hcome huri hread)
  let told := (taken.revise pid (Connection.told uri items)).withJournal journal
  have htold : told.connection? pid = some (c.told uri items) := connection?_revise htaken _
  have hspares : m.Spares pid told := ⟨rfl, List.length_modify .., fun other c hother hc =>
    ⟨c, (connection?_revise_of_ne (Ne.symm hother) _ taken).trans hc, .refl c⟩⟩
  refine ⟨told, takeTurns_succ hturns nofun hrun, hspares, rfl, ?_, htold⟩
  refine h.of_spares hspares h.awaited (fun turn hmem => h.tasks turn ?_) htold ?_
  · rw [hturns]
    exact List.mem_cons_of_mem _ hmem
  · exact ⟨rfl, rfl, hcome.delayed, .inr fun _ => ⟨hcome.unnoticed, rfl⟩⟩

/-- The turns before the first one of a reader find nothing when only its server is not at rest. -/
theorem takeTurns_until_read {message : Json} (hopen : m.IsOpen)
    (htasks : ∀ turn ∈ m.turns, ∃ pid, turn.server? = some pid)
    (hothers : ∀ other c, other ≠ pid → m.connection? other = some c → c.IsAtRest)
    (hc : m.connection? pid = some c) (hcome : c.IsAwaiting 0 message)
    (hmem : .read pid ∈ m.turns) :
    ∃ waited later, (∀ fuel, (takeTurns (m.turns.length + fuel)).run m =
        (takeTurns (later.length + fuel + 1)).run waited) ∧
      m.Stays waited ∧ waited.turns = .read pid :: later ∧ ∀ turn ∈ later, turn ∈ m.turns := by
  obtain ⟨before, later, hsplit, hnot⟩ := List.eq_append_cons_of_mem hmem
  have hbefore : m.AreUnmoved before := by
    refine ⟨fun turn hturn => htasks turn (by rw [hsplit]; exact List.mem_append_left _ hturn),
      fun turn hturn other c' hserver hc' => ?_⟩
    by_cases hother : other = pid
    · subst hother
      obtain rfl := Option.some.inj (hc.symm.trans hc')
      refine .inr ⟨fun _ => hcome.unnoticed, ?_⟩
      rintro ⟨server, rfl⟩
      obtain rfl := Option.some.inj hserver
      exact absurd hturn hnot
    · exact (hothers other c' hother hc').isUnmoved turn
  obtain ⟨waited, hstays, hdue, hrun⟩ := takeTurns_append hopen hsplit hbefore
  refine ⟨waited, later, fun fuel => ?_, hstays, hdue, fun turn hturn => ?_⟩
  · have hlength : m.turns.length + fuel = before.length + (later.length + fuel + 1) := by
      rw [hsplit, List.length_append, List.length_cons]
      omega
    rw [hlength, hrun]
  · rw [hsplit]
    exact List.mem_append_right before (List.mem_cons_of_mem _ hturn)

/-- All that is due is done, and what has come for a server is read. -/
theorem IsAtRest.giveWay_told (h : m.IsAtRest (· = pid)) (hc : m.connection? pid = some c)
    (hcome : c.IsAwaiting 0 (ServerBehaviour.publish uri diagnostics))
    (hmem : .read pid ∈ m.turns) (huri : uri ≠ "")
    (hread : IsReadAs (ServerBehaviour.publish uri diagnostics)
      (ServerBehaviour.publish uri (.array items))) :
    ∃ after c₁ c', giveWay.run m = (.ok (), after) ∧ m.Spares pid after ∧
      after.IsAtRest (fun _ => False) ∧ after.connection? pid = some c' ∧ c.Stays c₁ ∧
      (c₁.told uri items).Stays c' := by
  obtain ⟨waited, later, hwaited, hfirst, hdue, hkept⟩ := takeTurns_until_read (.of_none h.awaited)
    h.tasks h.connections hc hcome hmem
  obtain ⟨c₁, hc₁, hsame⟩ := hfirst.each pid c hc
  have hrest : waited.IsAtRest (· = pid) := by
    refine h.of_stays hfirst fun turn hturn => ?_
    rw [hdue] at hturn
    rcases List.mem_cons.1 hturn with rfl | hturn
    · exact ⟨pid, rfl⟩
    · exact h.tasks turn (hkept turn hturn)
  obtain ⟨told, htold, hspares, hlater, hall, hc₂⟩ :=
    hrest.told_run hc₁ (hcome.of_stays hsame) hdue huri hread
  have hunmoved : told.AreUnmoved later := by
    refine ⟨fun turn hturn => hall.tasks turn (hlater ▸ hturn), fun turn _ other c' _ hc' => ?_⟩
    exact (hall.connections other c' id hc').isUnmoved turn
  obtain ⟨after, hmore, hnone, hlast⟩ := takeTurns_append (.of_none hall.awaited)
    (hlater.trans (List.append_nil later).symm) hunmoved
  obtain ⟨c', hc', hstays⟩ := hmore.each pid _ hc₂
  refine ⟨after, c₁, c', ?_, ((hfirst.spares pid).trans hspares).trans (hmore.spares pid),
    hall.of_stays hmore ?_, hc', hsame, hstays⟩
  · rw [giveWay, run_bind_ok (run_get m), hwaited, htold, hlast, takeTurns,
      run_bind_ok (run_get after), hnone]
    rfl
  · rw [hnone]
    exact fun _ hmem => absurd hmem List.not_mem_nil

/-- The machine later on, when items that were published for a document have been read by the client
of one server. -/
structure Hears (pid : Nat) (c : Connection) (uri : String) (items : List Json)
    (m after : Machine) : Prop where
  spares : m.Spares pid after
  rest : after.IsAtRest fun _ => False
  connection : ∃ c', after.connection? pid = some c' ∧ c'.exitCode = none ∧ c'.reader = .waiting ∧
    c'.behaviour = c.behaviour ∧ c'.dialogue = c.dialogue ∧
    c'.session = c.session.withPublished uri items

/-- What has come from a server, or is one wait away, is read during the next wait. -/
theorem IsAtRest.sleep_told {delay : Nat} (h : m.IsAtRest (· = pid))
    (hc : m.connection? pid = some c)
    (hawaits : c.IsAwaiting delay (ServerBehaviour.publish uri diagnostics)) (hdelay : delay ≤ 1)
    (hdue : delay = 0 → .read pid ∈ m.turns) (huri : uri ≠ "")
    (hread : IsReadAs (ServerBehaviour.publish uri diagnostics)
      (ServerBehaviour.publish uri (.array items))) (seconds : Decimal.Binary64) :
    ∃ after, (sleep seconds).run m = (.ok (), after) ∧ Hears pid c uri items m after := by
  obtain ⟨stirred, c₁, hrun, hspares, hrest, hc₁, hpassed, hkept, hreads⟩ :=
    h.stirred_run hc seconds
  have hcome : c₁.IsAwaiting 0 (ServerBehaviour.publish uri diagnostics) := by
    have := hawaits.pass.of_stays hpassed
    rwa [Nat.sub_eq_zero_of_le hdelay] at this
  have hmem : .read pid ∈ stirred.turns := by
    by_cases hnow : delay = 0
    · exact hkept _ (hdue hnow)
    · refine hreads ?_ (hawaits.waiting hnow)
      rw [← hpassed.pipe, hcome.pipe]
      exact ofContent_ne_nil _
  obtain ⟨after, c₂, c', hway, hmore, hall, hc', hsame, htold⟩ :=
    hrest.giveWay_told hc₁ hcome hmem huri hread
  have hstays := hpassed.trans hsame
  have hrunning : c₂.exitCode = none := hstays.exitCode.trans hawaits.running
  refine ⟨after, hrun.trans hway, hspares.trans hmore, hall, c', hc',
    htold.exitCode.trans hrunning, htold.waiting hrunning rfl rfl,
    htold.behaviour.trans hstays.behaviour, htold.dialogue.trans hstays.dialogue, ?_⟩
  rw [htold.session hrunning, Connection.told, hstays.session hawaits.running]
  rfl

end Machine

end ProjectCheck
