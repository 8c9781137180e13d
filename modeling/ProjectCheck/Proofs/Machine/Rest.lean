import ProjectCheck.Proofs.Machine.Ending
import ProjectCheck.Proofs.Server.Upkeep

/-!
Machines at rest. As long as nothing that the servers have sent is on its way, the turns that are
due and the waits of the client leave everything as it is that matters later: who is alive, what was
said, what was published and which versions were sent.
-/
namespace ProjectCheck

open Run

namespace Connection

def IsRetired (c : Connection) : Prop := c.reader = .over ∧ c.listener = .over ∧ c.watcher = .over

structure Stays (c after : Connection) : Prop where
  behaviour : after.behaviour = c.behaviour
  exitCode : after.exitCode = c.exitCode
  dialogue : after.dialogue = c.dialogue
  pipe : after.pipe = c.pipe
  unframed : after.unframed = c.unframed
  delayed : after.delayed = c.delayed
  spec : after.session.spec = c.session.spec
  published : after.session.published = c.session.published
  versions : after.session.versions = c.session.versions
  session : c.exitCode = none → after.session = c.session
  reading : c.exitCode = none → c.reader ≠ .over → after.reader ≠ .over
  waiting : c.exitCode = none → c.pipe = [] → c.reader = .waiting → after.reader = .waiting
  retired : c.IsRetired → after.IsRetired

variable {c between after : Connection}

theorem Stays.refl (c : Connection) : c.Stays c :=
  ⟨rfl, rfl, rfl, rfl, rfl, rfl, rfl, rfl, rfl, fun _ => rfl, fun _ h => h, fun _ _ h => h, id⟩

theorem Stays.trans (h : c.Stays between) (hnext : between.Stays after) : c.Stays after where
  behaviour := hnext.behaviour.trans h.behaviour
  exitCode := hnext.exitCode.trans h.exitCode
  dialogue := hnext.dialogue.trans h.dialogue
  pipe := hnext.pipe.trans h.pipe
  unframed := hnext.unframed.trans h.unframed
  delayed := hnext.delayed.trans h.delayed
  spec := hnext.spec.trans h.spec
  published := hnext.published.trans h.published
  versions := hnext.versions.trans h.versions
  session hrunning := (hnext.session (h.exitCode.trans hrunning)).trans (h.session hrunning)
  reading hrunning hreader :=
    hnext.reading (h.exitCode.trans hrunning) (h.reading hrunning hreader)
  waiting hrunning hpipe hreader :=
    hnext.waiting (h.exitCode.trans hrunning) (h.pipe.trans hpipe)
      (h.waiting hrunning hpipe hreader)
  retired hretired := hnext.retired (h.retired hretired)

/-- What becomes of a turn does not matter: the tasks are over, or the client has not noticed an
end before there was one, and where the turn reads there is nothing to be read. -/
def IsUnmoved (c : Connection) (turn : Turn) : Prop :=
  c.IsRetired ∨
    (c.exitCode = none → c.session.exitNoticed = false) ∧
    ((∃ pid, turn = .read pid) → c.pipe = [] ∧ c.unframed = [])

theorem IsUnmoved.of_stays {turn : Turn} (h : c.IsUnmoved turn) (hstays : c.Stays after) :
    after.IsUnmoved turn := by
  rcases h with hretired | ⟨hnoticed, hread⟩
  · exact .inl (hstays.retired hretired)
  · refine .inr ⟨fun hrunning => ?_, fun hturn => ?_⟩
    · rw [hstays.exitCode] at hrunning
      rw [hstays.session hrunning]
      exact hnoticed hrunning
    · rw [hstays.pipe, hstays.unframed]
      exact hread hturn

end Connection

namespace Machine

variable {m between after : Machine} {pid : Nat} {c : Connection}

/-! The machine with one connection changed. -/

theorem revise_revise (pid : Nat) (first second : Connection → Connection) (m : Machine) :
    (m.revise pid first).revise pid second = m.revise pid fun c => second (first c) := by
  simp only [revise, List.modify_modify_eq]
  rfl

theorem revise_withJournal (pid : Nat) (change : Connection → Connection) (journal : Journal)
    (m : Machine) : (m.withJournal journal).revise pid change =
      (m.revise pid change).withJournal journal := rfl

theorem connection?_revise (hc : m.connection? pid = some c) (change : Connection → Connection) :
    (m.revise pid change).connection? pid = some (change c) := by
  rw [connection?_revise_self, hc, Option.map_some]

/-- Only the connection that is there matters to a change. -/
theorem revise_congr (hc : m.connection? pid = some c) {first second : Connection → Connection}
    (h : first c = second c) : m.revise pid first = m.revise pid second := by
  have hconnections : m.connections.modify pid first = m.connections.modify pid second := by
    refine List.ext_getElem? fun other => ?_
    rw [List.getElem?_modify, List.getElem?_modify]
    split
    · rename_i hpid
      subst hpid
      change (m.connection? pid).map _ = (m.connection? pid).map _
      rw [hc, Option.map_some, Option.map_some, h]
    · rfl
  rw [revise, hconnections, revise]

theorem revise_id (pid : Nat) (m : Machine) : m.revise pid id = m := by
  rw [revise, List.modify_id]

theorem revise_eq_self (hc : m.connection? pid = some c) {change : Connection → Connection}
    (h : change c = c) : m.revise pid change = m := by
  rw [revise_congr hc (h.trans (id_eq c).symm), revise_id]

structure Stays (m after : Machine) : Prop where
  untouched : after.untouched = m.untouched
  awaited : after.awaited = m.awaited
  length : after.connections.length = m.connections.length
  each : ∀ pid c, m.connection? pid = some c → ∃ c', after.connection? pid = some c' ∧ c.Stays c'

namespace Stays

/-- The turns and the journal do not matter. -/
theorem of_same (huntouched : after.untouched = m.untouched) (hawaited : after.awaited = m.awaited)
    (hconnections : after.connections = m.connections) : m.Stays after where
  untouched := huntouched
  awaited := hawaited
  length := by rw [hconnections]
  each pid c hc := ⟨c, by rw [connection?, hconnections]; exact hc, .refl c⟩

theorem refl (m : Machine) : m.Stays m := of_same rfl rfl rfl

theorem withJournal (journal : Journal) (m : Machine) : m.Stays (m.withJournal journal) :=
  of_same rfl rfl rfl

theorem trans (h : m.Stays between) (hnext : between.Stays after) : m.Stays after where
  untouched := hnext.untouched.trans h.untouched
  awaited := hnext.awaited.trans h.awaited
  length := hnext.length.trans h.length
  each pid c hc := by
    obtain ⟨c₁, hc₁, hfirst⟩ := h.each pid c hc
    obtain ⟨c₂, hc₂, hsecond⟩ := hnext.each pid c₁ hc₁
    exact ⟨c₂, hc₂, hfirst.trans hsecond⟩

theorem revise (hc : m.connection? pid = some c) {change : Connection → Connection}
    (h : c.Stays (change c)) : m.Stays (m.revise pid change) where
  untouched := rfl
  awaited := rfl
  length := List.length_modify ..
  each other c' hc' := by
    by_cases hpid : pid = other
    · subst hpid
      obtain rfl := Option.some.inj (hc.symm.trans hc')
      exact ⟨_, connection?_revise hc change, h⟩
    · exact ⟨c', (connection?_revise_of_ne hpid change m).trans hc', .refl c'⟩

theorem exists_before (h : m.Stays after) {c' : Connection}
    (hc' : after.connection? pid = some c') :
    ∃ c, m.connection? pid = some c ∧ c.Stays c' :=
  exists_connection?_of_length_eq h.length (h.each pid) hc'

end Stays

def IsOpen (m : Machine) : Prop :=
  ∀ pid id, m.awaited = some (pid, id) →
    ∃ c, m.connection? pid = some c ∧ c.exitCode = none ∧ c.session.decision? id = none

theorem IsOpen.of_stays (h : m.IsOpen) (hstays : m.Stays after) : after.IsOpen := by
  intro pid id hawaited
  obtain ⟨c, hc, hrunning, hdecision⟩ := h pid id (hstays.awaited.symm.trans hawaited)
  obtain ⟨c', hc', hsame⟩ := hstays.each pid c hc
  exact ⟨c', hc', hsame.exitCode.trans hrunning, by rw [hsame.session hrunning]; exact hdecision⟩

theorem IsOpen.of_none (h : m.awaited = none) : m.IsOpen := by
  intro pid id hawaited
  cases h.symm.trans hawaited

/-! One turn. -/

theorem comes_updateConnection (pid : Nat) (change : Connection → Connection) (m : Machine) :
    Comes (updateConnection pid change) m (.ok ()) (m.revise pid change) := .of_run rfl

/-- Nothing is handed on while nothing is decided. -/
theorem comes_handOnDecision (h : m.IsOpen) : Comes handOnDecision m (.ok ()) m := by
  refine Comes.get_bind ?_
  cases hawaited : m.awaited with
  | none => exact .pure () m
  | some awaited =>
    obtain ⟨c, hc, -, hdecision⟩ := h awaited.1 awaited.2 hawaited
    have hnone : (m.session? awaited.1).bind (·.decision? awaited.2) = none := by
      rw [session?, hc]
      exact hdecision
    simp only [hnone, Option.isSome_none, Bool.false_eq_true, ↓reduceIte]
    exact .pure () m

/-- Whether a server is alive is found out, and nothing changes but what the client knows of an
end. -/
theorem comes_checkAlive (hc : m.connection? pid = some c)
    (hnoticed : c.exitCode = none → c.session.exitNoticed = false) :
    Comes (checkAlive pid) m (.ok c.exitCode.isNone) (m.revise pid fun c =>
      { c with session := { c.session with
          exitNoticed := c.session.exitNoticed || c.exitCode.isSome } }) := by
  refine Comes.get_bind ?_
  simp only [hc]
  cases hcode : c.exitCode with
  | none =>
    have hsame : (c.session.exitNoticed || c.exitCode.isSome) = c.session.exitNoticed := by
      rw [hcode, Option.isSome_none, Bool.or_false]
    rw [revise_eq_self hc (by rw [hsame])]
    simp only [hnoticed hcode, Bool.false_eq_true, ↓reduceIte]
    exact .pure true m
  | some code =>
    cases hknown : c.session.exitNoticed with
    | true =>
      have hsame : (c.session.exitNoticed || c.exitCode.isSome) = c.session.exitNoticed := by
        rw [hknown, Bool.true_or]
      rw [revise_eq_self hc (by rw [hsame])]
      exact .pure false m
    | false =>
      refine (comes_updateConnection ..).bind fun journal => ?_
      refine (comes_log ..).bind fun journal => ?_
      have hsame : (m.revise pid fun c => { c with session := { c.session with
            exitNoticed := c.session.exitNoticed || c.exitCode.isSome } }) =
          m.revise pid fun c => { c with session := { c.session with exitNoticed := true } } :=
        revise_congr hc (by rw [hcode, hknown]; rfl)
      rw [hsame]
      exact ⟨_, rfl⟩

theorem comes_logLines (lines : List Bytes) (m : Machine) :
    ∃ outcome, Comes (logLines lines) m outcome m := by
  unfold logLines
  cases hlong : lines.any (·.length > lineLimit) with
  | false => exact ⟨_, (comes_debug _ m).bind fun journal => .pure () _⟩
  | true => exact ⟨_, (comes_debug _ m).bind fun journal => ⟨_, rfl⟩⟩

/-- The listener waits again whatever it has heard. -/
theorem comes_listenTurn (pid : Nat) (c : Connection) (m : Machine) :
    Comes (listenTurn pid c) m (.ok ())
      (m.revise pid fun c => { c with listener := .waiting }) := by
  refine (comes_updateConnection ..).bind fun journal => ?_
  obtain ⟨outcome, hlogged⟩ := comes_logLines (wholeLines [] c.behaviour.stderr).1
    ((m.revise pid fun c => { c with listener := .waiting }).withJournal journal)
  exact hlogged.attempt.bind fun journal => ⟨_, rfl⟩

/-- The end of a server is noticed, and nobody who waits for another one is told. -/
theorem comes_noticeExit (hm : m.IsOpen) (hc : m.connection? pid = some c) {code : Int}
    (hcode : c.exitCode = some code) :
    Comes (noticeExit pid) m (.ok ())
      (m.revise pid fun c => { c with session := c.session.noticeExit }) := by
  refine Comes.get_bind ?_
  simp only [hc, Option.bind_some, hcode]
  refine (comes_log ..).bind fun journal => (comes_updateConnection ..).bind fun journal => ?_
  have hstays : c.Stays { c with session := c.session.noticeExit } :=
    ⟨rfl, rfl, rfl, rfl, rfl, rfl, rfl, rfl, rfl, fun h => (nomatch hcode.symm.trans h),
      fun _ h => h, fun _ _ h => h, id⟩
  have hnoticed : m.Stays (m.revise pid fun c => { c with session := c.session.noticeExit }) :=
    .revise hc hstays
  refine Comes.congr (comes_handOnDecision ?_) fun _ => rfl
  exact hm.of_stays (hnoticed.trans (.of_same rfl rfl rfl))

/-- The watcher of a server that is alive waits again, and that of another one is over. -/
theorem comes_watchTurn (hm : m.IsOpen) (hc : m.connection? pid = some c)
    (hover : c.watcher ≠ .over) :
    ∃ change, Comes (watchTurn pid c) m (.ok ()) (m.revise pid change) ∧ c.Stays (change c) := by
  have hretired : ¬ c.IsRetired := fun h => hover h.2.2
  unfold watchTurn
  cases hcode : c.exitCode with
  | none =>
    simp only [Connection.hasExited, hcode, Option.isSome_none, Bool.false_eq_true, ↓reduceIte]
    refine ⟨_, comes_updateConnection .., ?_⟩
    exact ⟨rfl, rfl, rfl, rfl, rfl, rfl, rfl, rfl, rfl, fun _ => rfl, fun _ h => h,
      fun _ _ h => h, fun h => absurd h hretired⟩
  | some code =>
    simp only [Connection.hasExited, hcode, Option.isSome_some, ↓reduceIte]
    have hwatched : m.Stays (m.revise pid fun c => { c with watcher := .over }) :=
      .revise hc ⟨rfl, rfl, rfl, rfl, rfl, rfl, rfl, rfl, rfl, fun _ => rfl, fun _ h => h,
        fun _ _ h => h, fun h => absurd h hretired⟩
    have hnoticed : c.Stays { c with watcher := .over, session := c.session.noticeExit } :=
      ⟨rfl, rfl, rfl, rfl, rfl, rfl, rfl, rfl, rfl, fun h => (nomatch hcode.symm.trans h),
        fun _ h => h, fun _ _ h => h, fun h => absurd h hretired⟩
    refine ⟨fun c => { c with watcher := .over, session := c.session.noticeExit },
      (comes_updateConnection ..).bind fun journal => ?_, hnoticed⟩
    have hopen := hm.of_stays hwatched
    refine Comes.congr (comes_noticeExit (hopen.of_stays ?_)
      (connection?_revise hc fun c => { c with watcher := .over }) hcode) fun _ => ?_
    · exact .of_same rfl rfl rfl
    simp only [revise_withJournal, withJournal_withJournal, revise_revise]

theorem piecesOf_nil (size : Nat) : piecesOf size [] = [] := by
  rw [piecesOf]
  exact if_pos (.inr rfl)

/-- A reader that has nothing to read waits again, or is over when the server has ended. -/
theorem comes_readTurn_nothing (hc : m.connection? pid = some c) (hover : c.reader ≠ .over)
    (hnoticed : c.exitCode = none → c.session.exitNoticed = false) (hpipe : c.pipe = [])
    (hunframed : c.unframed = []) :
    ∃ change, Comes (readTurn pid c) m (.ok ()) (m.revise pid change) ∧ c.Stays (change c) := by
  have hretired : ¬ c.IsRetired := fun h => hover h.1
  have hpieces : readTurnPieces pid c = readPieces pid [] [] := by
    unfold readTurnPieces
    rw [hpipe, hunframed, piecesOf_nil]
    split
    · rename_i h
      cases h
    · rfl
  have hsame : m.revise pid (fun c => { c with pipe := [] }) = m :=
    revise_eq_self hc (by rw [← hpipe])
  unfold readTurn
  rw [hpieces]
  cases hcode : c.exitCode with
  | none =>
    refine ⟨fun c => { c with unframed := [], reader := .waiting }, ?_, ?_⟩
    · refine (comes_updateConnection ..).bind fun journal => ?_
      rw [hsame]
      have hread : Comes (readPieces pid [] []) (m.withJournal journal) (.ok (some []))
          (m.withJournal journal) := by
        have halive : IsAlive pid (m.withJournal journal) := ⟨c, hc, hnoticed hcode, hcode⟩
        exact .of_run (run_bind_ok (checkAlive_of_isAlive halive) _)
      exact hread.attempt.bind fun journal => ⟨_, rfl⟩
    · exact ⟨rfl, rfl, rfl, rfl, hunframed.symm, rfl, rfl, rfl, rfl, fun _ => rfl,
        fun _ _ => nofun, fun _ _ _ => rfl, fun h => absurd h hretired⟩
  | some code =>
    refine ⟨fun c => { c with reader := .over, session := { c.session with
      exitNoticed := c.session.exitNoticed || c.exitCode.isSome } }, ?_, ?_⟩
    · refine (comes_updateConnection ..).bind fun journal => ?_
      rw [hsame]
      have hread : Comes (readPieces pid [] []) (m.withJournal journal) (.ok none)
          (m.revise pid fun c => { c with session := { c.session with
            exitNoticed := c.session.exitNoticed || c.exitCode.isSome } }) := by
        refine ((comes_checkAlive (m := m.withJournal journal) hc hnoticed).congr
          fun _ => rfl).bind fun journal => ?_
        rw [hcode]
        exact ⟨_, rfl⟩
      refine hread.attempt.bind fun journal => ?_
      exact (comes_updateConnection ..).congr fun _ => by
        simp only [revise_withJournal, withJournal_withJournal, revise_revise]
    · exact ⟨rfl, rfl, rfl, rfl, rfl, rfl, rfl, rfl, rfl, fun h => (nomatch hcode.symm.trans h),
        fun h => (nomatch hcode.symm.trans h), fun h => (nomatch hcode.symm.trans h),
        fun h => absurd h hretired⟩

end Machine

def Turn.server? : Turn → Option Nat
  | watch pid | listen pid | read pid => some pid
  | say _ | handOn | resume => none

namespace Machine

variable {m after : Machine} {turn : Turn} {due rest : List Turn}

theorem comes_taskTurn {pid : Nat} {state : Connection → TaskState}
    {act : Connection → Run Machine Unit}
    (h : ∀ c, m.connection? pid = some c → state c ≠ .over →
      ∃ change, Comes (act c) m (.ok ()) (m.revise pid change) ∧ c.Stays (change c)) :
    ∃ after, Comes (taskTurn pid state act) m (.ok ()) after ∧ m.Stays after ∧
      after.turns = m.turns := by
  cases hc : m.connection? pid with
  | none =>
    refine ⟨m, Comes.get_bind ?_, .refl m, rfl⟩
    simp only [hc]
    exact .pure () m
  | some c =>
    by_cases hover : state c = .over
    · refine ⟨m, Comes.get_bind ?_, .refl m, rfl⟩
      simp only [hc, hover, ne_eq, not_true_eq_false, ↓reduceIte]
      exact .pure () m
    · obtain ⟨change, hcomes, hstays⟩ := h c hc hover
      refine ⟨m.revise pid change, Comes.get_bind ?_, .revise hc hstays, rfl⟩
      simp only [hc, ne_eq, hover, not_false_eq_true, ↓reduceIte]
      exact hcomes

/-- A turn of a task that finds nothing leaves all as it is that matters. -/
theorem comes_takeTurn {pid : Nat} (hturn : turn.server? = some pid) (hm : m.IsOpen)
    (hunmoved : ∀ c, m.connection? pid = some c → c.IsUnmoved turn) :
    ∃ after, Comes (takeTurn turn) m (.ok ()) after ∧ m.Stays after ∧ after.turns = m.turns := by
  cases turn with
  | watch server =>
    obtain rfl := Option.some.inj hturn
    exact comes_taskTurn fun c hc hover => comes_watchTurn hm hc hover
  | listen server =>
    obtain rfl := Option.some.inj hturn
    refine comes_taskTurn fun c hc hover => ⟨_, comes_listenTurn server c m, ?_⟩
    exact ⟨rfl, rfl, rfl, rfl, rfl, rfl, rfl, rfl, rfl, fun _ => rfl, fun _ h => h,
      fun _ _ h => h, fun h => absurd h.2.1 hover⟩
  | read server =>
    obtain rfl := Option.some.inj hturn
    refine comes_taskTurn fun c hc hover => ?_
    rcases hunmoved c hc with hretired | ⟨hnoticed, hread⟩
    · exact absurd hretired.1 hover
    · obtain ⟨hpipe, hunframed⟩ := hread ⟨server, rfl⟩
      exact comes_readTurn_nothing hc hover hnoticed hpipe hunframed
  | say texts => cases hturn
  | handOn => cases hturn
  | resume => cases hturn

structure AreUnmoved (due : List Turn) (m : Machine) : Prop where
  tasks : ∀ turn ∈ due, ∃ pid, turn.server? = some pid
  unmoved : ∀ turn ∈ due, ∀ pid c, turn.server? = some pid → m.connection? pid = some c →
    c.IsUnmoved turn

theorem AreUnmoved.of_stays (h : m.AreUnmoved due) (hstays : m.Stays after) :
    after.AreUnmoved due where
  tasks := h.tasks
  unmoved turn hmem pid c' hturn hc' := by
    obtain ⟨c, hc, hsame⟩ := hstays.exists_before hc'
    exact (h.unmoved turn hmem pid c hturn hc).of_stays hsame

/-- What is due first is done first. -/
theorem takeTurns_succ (hturns : m.turns = turn :: rest) (hresume : turn ≠ .resume)
    (hrun : (takeTurn turn).run { m with turns := rest } = (.ok (), after)) (fuel : Nat) :
    (takeTurns (fuel + 1)).run m = (takeTurns fuel).run after := by
  rw [takeTurns, run_bind_ok (run_get m)]
  simp only [hturns]
  rw [run_bind_ok (run_modify _ m), run_bind_ok hrun]
  simp only [ne_eq, hresume, not_false_eq_true, ↓reduceIte]

/-- What is due first is done without anything that matters. -/
theorem takeTurns_append (hm : m.IsOpen) (hturns : m.turns = due ++ rest)
    (hdue : m.AreUnmoved due) :
    ∃ after, m.Stays after ∧ after.turns = rest ∧
      ∀ fuel, (takeTurns (due.length + fuel)).run m = (takeTurns fuel).run after := by
  induction due generalizing m with
  | nil => exact ⟨m, .refl m, hturns, fun fuel => by rw [List.length_nil, Nat.zero_add]⟩
  | cons turn due ih =>
    obtain ⟨pid, hpid⟩ := hdue.tasks turn (List.mem_cons_self ..)
    let taken : Machine := { m with turns := due ++ rest }
    have htaken : m.Stays taken := .of_same rfl rfl rfl
    obtain ⟨between, ⟨journal, hrun⟩, hstays, hrest⟩ := comes_takeTurn hpid (hm.of_stays htaken)
      fun c hc => hdue.unmoved turn (List.mem_cons_self ..) pid c hpid hc
    have hall : m.Stays (between.withJournal journal) :=
      (htaken.trans hstays).trans (.of_same rfl rfl rfl)
    obtain ⟨after, hlast, hleft, hafter⟩ := ih (hm.of_stays hall) hrest
      (AreUnmoved.of_stays ⟨fun other hmem => hdue.tasks other (List.mem_cons_of_mem turn hmem),
        fun other hmem => hdue.unmoved other (List.mem_cons_of_mem turn hmem)⟩ hall)
    have hresume : turn ≠ .resume := by
      rintro rfl
      cases hpid
    refine ⟨after, hall.trans hlast, hleft, fun fuel => ?_⟩
    rw [List.length_cons, Nat.succ_add, takeTurns_succ hturns hresume hrun]
    exact hafter fuel

end Machine

end ProjectCheck
