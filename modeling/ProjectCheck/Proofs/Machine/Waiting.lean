import ProjectCheck.Machine.Turns
import ProjectCheck.Proofs.Machine.Calm

/-!
Waiting is calm. A turn reads what a server has sent, sees its end or logs what it complains of, and
nothing that is due says anything to a server; so nothing is said while someone gives way, waits for
an answer or sleeps.
-/
namespace ProjectCheck.Machine

open Run Message Frame

variable {m : Machine} {pid : Nat}

/-- Changing how far the tasks of a server are says nothing. -/
theorem calmly_tasks (pid : Nat) (reader listener watcher : TaskState → TaskState) (m : Machine) :
    Moves Calmly (updateConnection pid fun c =>
      { c with reader := reader c.reader, listener := listener c.listener,
               watcher := watcher c.watcher }) m :=
  lenient_calmly.tasks m pid reader listener watcher

theorem calmly_watchTurn (pid : Nat) (c : Connection) (m : Machine) :
    Moves Calmly (watchTurn pid c) m := by
  unfold watchTurn
  split
  · exact Moves.bind steady_calmly (calmly_tasks pid id id (fun _ => .over) m) fun _ after =>
      calmly_noticeExit pid after
  · exact calmly_tasks pid id id (fun _ => .waiting) m

theorem calmly_logLines (lines : List Bytes) (m : Machine) : Moves Calmly (logLines lines) m := by
  refine Moves.bind steady_calmly (lenient_calmly.moves_debug _ m) fun _ after => ?_
  split
  · exact steady_calmly.refl after
  · exact steady_calmly.refl after

theorem calmly_listenTurn (pid : Nat) (c : Connection) (m : Machine) :
    Moves Calmly (listenTurn pid c) m := by
  refine Moves.bind steady_calmly (calmly_tasks pid id (fun _ => .waiting) id m) fun _ between => ?_
  exact Moves.bind_pure steady_calmly (Moves.attempt (calmly_logLines _ between))

/-- What the reader does with the pieces of what a server has sent is calm and leaves nothing unread
as long as it goes on. -/
theorem ends_readTurnPieces (pid : Nat) {c : Connection} {messages : List Json}
    (hmeasurable : ∀ message ∈ messages, isMeasurable (content message) = true)
    (hunframed : c.unframed = []) (hpipe : c.pipe = (messages.map content).flatMap ofContent)
    (m : Machine) :
    Ends (readTurnPieces pid c) m fun result after =>
      CalmlyGiven pid messages m after ∧ ∀ rest, result = .ok (some rest) → rest = [] := by
  have hpieces : (piecesOf pieceSize c.pipe).flatten = c.pipe := flatten_piecesOf (by decide) c.pipe
  unfold readTurnPieces
  rw [hunframed]
  split
  · rename_i piece pieces _ heq
    rw [heq, List.flatten_cons, hpipe] at hpieces
    obtain ⟨wholeContents, leftContents, rest, hsplit, hpiece, hrest⟩ :=
      exists_cut (show piece <+: (messages.map content).flatMap ofContent from
        ⟨pieces.flatten, hpieces⟩)
    obtain ⟨whole, left, rfl, rfl, rfl⟩ := List.map_eq_append_iff.1 hsplit
    rw [hpiece, List.map_append, List.flatMap_append, List.append_assoc,
      List.append_cancel_left_eq] at hpieces
    rw [readPiece_eq (by rwa [← List.map_append, List.forall_mem_map]) hrest
      (by rwa [List.nil_append]), handOver_bind]
    refine Ends.bind_of (calmly_forM_readContent (fun message hmem =>
      List.mem_append_left left hmem) m) (fun _ between hcalm => ?_) fun failure after hcalm =>
        ⟨hcalm, nofun⟩
    refine (ends_readPieces pid (whole ++ left) pieces
      (fun message hmem => hmeasurable message (List.mem_append_right whole hmem))
      (fun message hmem => List.mem_append_right whole hmem) hrest hpieces between).mono ?_
    exact fun result after ⟨hafter, hleft⟩ =>
      ⟨(steady_calmlyGiven pid _).trans hcalm hafter, hleft⟩
  · exact ends_readPieces pid messages _ hmeasurable (fun _ hmem => hmem) (Unfinished.nil _)
      (by rw [List.nil_append, hpieces, hpipe]) m

/-- Nothing that could not be read whole is left behind. -/
theorem calmly_leave (pid : Nat) (m : Machine) :
    Moves Calmly (updateConnection pid fun c => { c with unframed := [], reader := .waiting }) m :=
  calmly_revise fun _ _ h =>
    ⟨⟨h.phase, rfl, h.pipe, h.delayed, h.decided, h.ended⟩, ⟨⟨rfl, rfl, rfl, id⟩, rfl, rfl⟩⟩

theorem calmly_readTurn {c : Connection} (hc : m.connection? pid = some c) :
    Moves Calmly (readTurn pid c) m := by
  refine moves_of_faithful fun hfaithful => ?_
  have hconnection := hfaithful.connections pid c hc
  obtain ⟨messages, hsent, hpipe⟩ := hconnection.pipe
  have htaken : Calmly m (m.revise pid fun c => { c with pipe := [] }) :=
    calmly_revise fun c _ h =>
      ⟨⟨h.phase, h.unframed, ⟨[], nofun, rfl⟩, h.delayed, h.decided, h.ended⟩,
        ⟨⟨rfl, rfl, rfl, id⟩, rfl, rfl⟩⟩
  have hgiven : ∀ message ∈ messages,
      (m.revise pid fun c => { c with pipe := [] }).Sent pid message :=
    fun message hmem => (htaken hfaithful).2.sent ⟨c, hc, hsent message hmem⟩
  refine Moves.bind_of_run steady_calmly htaken fun _ between hrun => ?_
  obtain rfl : m.revise pid (fun c => { c with pipe := [] }) = between := (Prod.mk.inj hrun).2
  have hread := ends_readTurnPieces pid (fun message hmem => (hsent message hmem).2.2)
    hconnection.unframed hpipe (m.revise pid fun c => { c with pipe := [] })
  refine Ends.bind_ok hread.attempt fun result after hended => ?_
  obtain ⟨hgiving, hrest⟩ := hended
  have hcalm := hgiving hgiven
  split
  · rename_i rest
    obtain rfl := hrest rest rfl
    exact steady_calmly.trans hcalm (calmly_leave pid after)
  · exact steady_calmly.trans hcalm (calmly_tasks pid (fun _ => .over) id id after)

theorem calmly_taskTurn (pid : Nat) (state : Connection → TaskState)
    {turn : Connection → Run Machine Unit} (m : Machine)
    (hturn : ∀ c, m.connection? pid = some c → Moves Calmly (turn c) m) :
    Moves Calmly (taskTurn pid state turn) m := by
  refine Moves.get_bind ?_
  split
  · split
    · exact hturn _ ‹_›
    · exact steady_calmly.refl m
  · exact steady_calmly.refl m

theorem calmly_takeTurn (turn : Turn) (m : Machine) : Moves Calmly (takeTurn turn) m := by
  cases turn with
  | watch pid => exact calmly_taskTurn pid _ m fun c _ => calmly_watchTurn pid c m
  | listen pid => exact calmly_taskTurn pid _ m fun c _ => calmly_listenTurn pid c m
  | read pid => exact calmly_taskTurn pid _ m fun c hc => calmly_readTurn hc
  | say texts => exact lenient_calmly.moves_debug texts m
  | handOn => exact lenient_calmly.moves_due .resume m
  | resume => exact steady_calmly.refl m

theorem calmly_takeTurns (fuel : Nat) (m : Machine) : Moves Calmly (takeTurns fuel) m := by
  induction fuel generalizing m with
  | zero => exact steady_calmly.refl m
  | succ fuel ih =>
    refine Moves.get_bind ?_
    split
    · exact steady_calmly.refl m
    · refine Moves.bind steady_calmly (lenient_calmly.quiet rfl rfl) fun _ between => ?_
      refine Moves.bind steady_calmly (calmly_takeTurn _ between) fun _ after => ?_
      split
      · exact ih after
      · exact steady_calmly.refl after

/-- Giving way says nothing. -/
theorem calmly_giveWay (m : Machine) : Moves Calmly giveWay m :=
  Moves.get_bind (calmly_takeTurns _ m)

/-- Waiting for an answer says nothing. -/
theorem calmly_awaitDecision (pid id : Nat) (m : Machine) :
    Moves Calmly (awaitDecision pid id) m := by
  refine Moves.bind steady_calmly (lenient_calmly.quiet rfl rfl) fun _ between => ?_
  exact Moves.bind steady_calmly (calmly_giveWay between) fun _ after =>
    lenient_calmly.quiet rfl rfl

theorem calmly_sayFirst (texts : List String) (m : Machine) : Moves Calmly (sayFirst texts) m :=
  lenient_calmly.quiet rfl rfl

theorem calmly_takeBack (m : Machine) : Moves Calmly takeBack m := by
  refine Moves.get_bind ?_
  split
  · exact Moves.bind_pure steady_calmly (lenient_calmly.quiet rfl rfl)
  · exact steady_calmly.refl m

/-- A wait of the client goes by for all servers. -/
theorem calmly_pass (m : Machine) :
    Calmly m { m with connections := m.connections.map Connection.pass } := by
  intro hfaithful
  have heach : ∀ pid, Machine.connection?
      { m with connections := m.connections.map Connection.pass } pid =
        (m.connection? pid).map Connection.pass := fun pid => List.getElem?_map
  have hcalm : m.Calm { m with connections := m.connections.map Connection.pass } :=
    ⟨rfl, List.length_map _, fun pid c hc =>
      ⟨c.pass, by rw [heach, hc, Option.map_some], c.calm_pass⟩⟩
  refine ⟨hfaithful.of_calm hcalm fun pid c' hc' => ?_, hcalm⟩
  rw [heach] at hc'
  obtain ⟨c, hc, rfl⟩ := Option.map_eq_some_iff.1 hc'
  exact (hfaithful.connections pid c hc).pass

/-- Sleeping says nothing. -/
theorem calmly_sleep (seconds : Decimal.Binary64) (m : Machine) :
    Moves Calmly (sleep seconds) m := by
  refine Moves.bind steady_calmly (lenient_calmly.quiet rfl rfl) fun _ first => ?_
  refine Moves.bind steady_calmly (calmly_pass first) fun _ second => ?_
  refine Moves.get_bind (Moves.bind steady_calmly ?_ fun _ after => calmly_giveWay after)
  exact Moves.forM steady_calmly (fun pid _ machine => lenient_calmly.moves_stir pid machine) second

/-- The end of a server says nothing. -/
theorem calmly_endServer (pid : Nat) (code : Int) (m : Machine) :
    Moves Calmly (endServer pid code) m := by
  refine Moves.bind steady_calmly (calmly_revise fun c _ h => ?_) fun _ after =>
    lenient_calmly.moves_stir pid after
  exact ⟨h.exit code, c.calm_exit code⟩

theorem calmly_startTasks (pid : Nat) (m : Machine) : Moves Calmly (startTasks pid) m := by
  refine Moves.bind steady_calmly
    (calmly_tasks pid (fun _ => .starting) (fun _ => .starting) (fun _ => .starting) m)
    fun _ after => ?_
  exact Moves.forM steady_calmly (fun turn _ machine => lenient_calmly.moves_due turn machine) after

end ProjectCheck.Machine
