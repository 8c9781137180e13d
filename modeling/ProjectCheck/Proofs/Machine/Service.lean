import ProjectCheck.Proofs.Machine.Talk
import ProjectCheck.Server.Fleet

/-!
What a client does with a process from its start to its end: it is started, made ready, told of
documents, asked to shut down and ended. A process that could be made ready is in the phase in which
documents may be told; one that was ended has ended, or has refused to.
-/
namespace ProjectCheck

open Run Message

namespace Connection

abbrev IsReady : Connection → Prop := Stands .ready 1

def IsDone (c : Connection) : Prop :=
  c.hasExited = true ∨ c.behaviour.refusesTermination = true ∧ .termination ∈ c.dialogue

theorem IsDone.of_calm {c after : Connection} (h : c.IsDone) (hcalm : c.Calm after) :
    after.IsDone := by
  rcases h with hexited | ⟨hrefuses, hmem⟩
  · exact .inl (hcalm.exited hexited)
  · exact .inr ⟨hcalm.behaviour ▸ hrefuses, hcalm.dialogue ▸ hmem⟩

/-! A server that is told to end. -/

theorem dialogue_takeTermination (c : Connection) :
    c.takeTermination.dialogue = c.dialogue ++ [.termination] := by
  unfold takeTermination
  split <;> rfl

theorem kin_takeTermination (c : Connection) : c.Kin c.takeTermination := by
  unfold takeTermination
  split
  · exact ⟨rfl, rfl, rfl, id⟩
  · exact ⟨rfl, rfl, rfl, fun _ => rfl⟩

theorem isDone_takeTermination (c : Connection) : c.takeTermination.IsDone := by
  unfold takeTermination
  split
  · exact .inr ⟨‹_›, List.mem_append_right _ (List.mem_singleton_self _)⟩
  · exact .inl rfl

/-- A server that has not ended and does not refuse was not told to end before. -/
theorem IsEndedOnce.terminations_eq_zero {c : Connection} (h : c.IsEndedOnce)
    (hexited : c.hasExited = false) (hrefuses : c.behaviour.refusesTermination = false) :
    terminations c.dialogue = 0 := by
  rcases h with hrefuses' | hnone | ⟨hexited', -⟩
  · cases hrefuses.symm.trans hrefuses'
  · exact hnone
  · cases hexited.symm.trans hexited'

theorem Faithful.takeTermination {c : Connection} (h : c.Faithful) (hexited : c.hasExited = false) :
    c.takeTermination.Faithful := by
  obtain ⟨phase, hdialogue⟩ := h.phase
  unfold Connection.takeTermination
  split
  case isTrue hrefuses => exact h.say (hdialogue.snoc .termination) (.inl hrefuses)
  case isFalse hrefuses =>
    have hnone := h.ended.terminations_eq_zero hexited (eq_false_of_ne_true hrefuses)
    -- It ends as it is told so.
    refine (h.exit (-15)).say (hdialogue.snoc .termination) (.inr (.inr ⟨rfl, ?_⟩))
    rw [Connection.say, terminations_append_singleton]
    exact congrArg (· + 1) hnone

end Connection

namespace Machine

variable {m between after : Machine} {pid : Nat}

/-- A server that is greeted either fails or is ready. -/
theorem talks_greet (hfaithful : m.Faithful) (hstands : m.Has pid (Connection.Stands .fresh 0))
    (path : Path) :
    Talks pid (Fleet.greet pid path) m fun _ after => after.Has pid Connection.IsReady := by
  have hlogged := Talks.of_calmly hfaithful hstands stands_of_calm
    (lenient_calmly.moves_log .debug "LSP Client: Starting server communication" m)
  refine hlogged.bind fun _ logged hfaithful hstands => ?_
  have hstarted := Talks.of_calmly hfaithful hstands stands_of_calm (calmly_startTasks pid logged)
  refine hstarted.bind fun _ started hfaithful hstands => Ends.get_bind ?_
  have hlocated := Talks.of_calmly hfaithful hstands stands_of_calm
    (Moves.ofExcept steady_calmly (findProjectRoot started path rootMarkers) started)
  refine hlocated.bind fun rootUri located hfaithful hstands => ?_
  have hasked : Talks pid (request pid "initialize" (some (initializeParams (some rootUri))))
      located fun _ after => after.Has pid (Connection.Stands .greeted 1) := by
    apply talks_request hfaithful hstands (.initializing _) fun _ hresult => .greeted hresult
    intro said message hdialogue hresult hmem
    exact (hdialogue.greeted_of_isResult hresult hmem).2 rfl
  refine hasked.bind fun said answered hfaithful hgreeted => ?_
  refine (talks_notify hfaithful hgreeted .initialized).bind fun _ after hfaithful hready => ?_
  exact .pure hfaithful hready

/-- A server that is ready may be asked to shut down. -/
theorem talks_shutDown (hfaithful : m.Faithful) (hready : m.Has pid Connection.IsReady) :
    Talks pid (Fleet.shutDown pid) m fun _ after =>
      after.Has pid (Connection.Stands .gone 2) := by
  have hasked : Talks pid (request pid "shutdown" none) m fun _ after =>
      after.Has pid (Connection.Stands .released 2) := by
    apply talks_request hfaithful hready .shutdown fun _ hresult => .released hresult
    intro said message hdialogue hresult hmem
    rcases hdialogue.released_of_isResult hresult hmem with h | h | h <;> cases h
  exact hasked.bind fun _ answered hfaithful hreleased => talks_notify hfaithful hreleased .exit

/-! Documents. -/

theorem calmly_setVersion (pid : Nat) (uri : String) (version : Nat) (m : Machine) :
    Moves Calmly (updateSession pid fun s => s.setVersion uri version) m := by
  refine calmly_session (fun s => s.setVersion uri version) ?_ m pid
  intro s
  exact ⟨rfl, rfl, rfl, fun _ _ hmem => hmem⟩

/-- A server that is ready is told of a document after something calm, and stays ready. -/
theorem ends_document {step : Run Machine Unit} {method : String} {params : Json}
    (hfaithful : m.Faithful) (hready : m.Has pid Connection.IsReady) (hstep : Moves Calmly step m)
    (hmethod : method = "textDocument/didOpen" ∨ method = "textDocument/didChange") :
    Ends (step >>= fun _ => notify pid method (some params)) m fun _ after =>
      Talked pid m after ∧ after.Has pid Connection.IsReady := by
  have habout : IsAboutDocument (notification method (some params)) := by
    rcases hmethod with rfl | rfl
    · exact ⟨params, .inl rfl⟩
    · exact ⟨params, .inr rfl⟩
  refine Ends.bind_of (talked_of_calmly hfaithful hready stands_of_calm hstep)
    (fun _ between hbetween => ?_) fun failure after h => h
  obtain ⟨htalked, hready⟩ := hbetween
  refine (ends_notify htalked.faithful hready (.document habout)).mono fun result after h => ?_
  obtain ⟨hafter, hready | ⟨-, hready⟩⟩ := h
  · exact ⟨htalked.trans hafter, hready⟩
  · exact ⟨htalked.trans hafter, hready⟩

theorem ends_sendDocument (hfaithful : m.Faithful) (hready : m.Has pid Connection.IsReady)
    (session : Session) (uri text : String) (languageId : LooseText) :
    Ends (sendDocument pid session uri text languageId) m fun _ after =>
      Talked pid m after ∧ after.Has pid Connection.IsReady := by
  unfold sendDocument
  simp only
  split
  · rw [← bind_assoc]
    refine ends_document hfaithful hready ?_ (.inl rfl)
    exact Moves.bind steady_calmly (lenient_calmly.moves_log .debug _ m) fun _ after =>
      calmly_setVersion pid uri _ after
  · rw [← bind_assoc]
    refine ends_document hfaithful hready ?_ (.inr rfl)
    exact Moves.bind steady_calmly (calmly_setVersion pid uri _ m) fun _ after =>
      lenient_calmly.moves_log .debug _ after

/-- Opening a document leaves a server ready that was so. -/
theorem ends_openDocument (hfaithful : m.Faithful) (hready : m.Has pid Connection.IsReady)
    (path : Path) (language : Option LooseText) :
    Ends (openDocument pid path language) m fun _ after =>
      Talked pid m after ∧ after.Has pid Connection.IsReady := by
  have hsame : Talked pid m m ∧ m.Has pid Connection.IsReady :=
    ⟨(Calm.refl m).talked hfaithful, hready⟩
  refine Ends.get_bind ?_
  split
  · exact hsame
  · refine Ends.ofExcept_bind (fun uri => ?_) fun _ => hsame
    refine Ends.ofExcept_bind (fun text => ?_) fun _ => hsame
    exact ends_sendDocument hfaithful hready _ uri text _

/-! The start and the end of a server. -/

/-- A server that is told to end is done. -/
theorem ends_tellToEnd {c : Connection} (hfaithful : m.Faithful)
    (hc : m.connection? pid = some c) :
    Ends (tellToEnd pid c) m fun result after => ∃ done, result = .ok done ∧
      Talked pid m after ∧ after.Has pid Connection.IsDone := by
  unfold tellToEnd
  cases hexited : c.hasExited with
  | true => exact ⟨⟨⟩, rfl, (Calm.refl m).talked hfaithful, c, hc, .inl hexited⟩
  | false =>
    have hconnection : ((m.noted (.terminated pid)).revise pid
        Connection.takeTermination).connection? pid = some c.takeTermination := by
      rw [connection?_revise_self, connection?_noted, hc, Option.map_some]
    refine ⟨⟨⟩, rfl, talked_revise hfaithful hc rfl (events_noted (fun _ => rfl) m) ?_ ?_,
      _, hconnection, c.isDone_takeTermination⟩
    · exact ⟨(hfaithful.connections pid c hc).takeTermination hexited, c.kin_takeTermination⟩
    · rw [c.dialogue_takeTermination]
      exact List.filter_append ..

/-- A server that is ended is done. -/
theorem ends_terminate (hfaithful : m.Faithful) {kind : Connection → Prop} (hpid : m.Has pid kind) :
    Ends (terminate pid) m fun result after => ∃ done, result = .ok done ∧
      Talked pid m after ∧ after.Has pid Connection.IsDone := by
  obtain ⟨c, hc, -⟩ := hpid
  refine Ends.get_bind ?_
  simp only [hc]
  refine Ends.bind_ok (ends_tellToEnd hfaithful hc) fun _ between hbetween => ?_
  obtain ⟨htalked, hdone⟩ := hbetween
  obtain ⟨hafter, hcalm⟩ := calmly_tasks pid (fun _ => .over) (fun _ => .over) (fun _ => .over)
    between htalked.faithful
  have hstill := hcalm.has hdone fun _ _ hcalm h => h.of_calm hcalm
  exact ⟨⟨⟩, rfl, htalked.trans (hcalm.talked hafter), hstill⟩

theorem faithful_newConnection (m : Machine) (command : List LooseText) (spec : ServerSpec) :
    (m.newConnection command spec).Faithful where
  phase := ⟨.fresh, .nil⟩
  unframed := rfl
  pipe := ⟨[], nofun, rfl⟩
  delayed := nofun
  decided := nofun
  ended := .inr (.inl rfl)

/-- The connections of a machine with one more. -/
theorem connection?_of_append {new : Connection} (h : after.connections = m.connections ++ [new])
    {other : Nat} {c : Connection} :
    after.connection? other = some c ↔
      m.connection? other = some c ∨ other = m.connections.length ∧ new = c := by
  rw [connection?, connection?, h]
  rcases Nat.lt_trichotomy other m.connections.length with hlt | rfl | hgt
  · have hne : other ≠ m.connections.length := by omega
    rw [List.getElem?_append_left hlt]
    simp [hne]
  · rw [List.getElem?_concat_length, List.getElem?_eq_none (Nat.le_refl _)]
    simp
  · have hne : other ≠ m.connections.length := by omega
    have hlength : (m.connections ++ [new]).length ≤ other := by
      rw [List.length_append, List.length_singleton]
      omega
    rw [List.getElem?_eq_none hlength, List.getElem?_eq_none (Nat.le_of_lt hgt)]
    simp [hne]

theorem dialogue_of_append {new : Connection} (h : after.connections = m.connections ++ [new])
    (hnew : new.dialogue = []) (other : Nat) : after.dialogue other = m.dialogue other := by
  unfold Machine.dialogue
  cases hc : m.connection? other with
  | some c => rw [(connection?_of_append h).2 (.inl hc)]
  | none =>
    cases hc' : after.connection? other with
    | none => rfl
    | some c =>
      rcases (connection?_of_append h).1 hc' with hsome | ⟨-, rfl⟩
      · cases hc.symm.trans hsome
      · rw [Option.map_some, Option.map_none, hnew]
        rfl

/-- A server that is started has a connection of its own, in which nothing was said. -/
theorem ends_spawn (hfaithful : m.Faithful) (command : List LooseText) (spec : ServerSpec) :
    Ends (spawn command spec) m fun result after => match result with
      | .error _ => after = m
      | .ok pid => after.Faithful ∧ pid = m.connections.length ∧
        after.connections = m.connections ++ [m.newConnection command spec] := by
  refine Ends.get_bind ?_
  split
  · exact rfl
  · refine ⟨⟨?_, ?_⟩, rfl, rfl⟩
    · intro other c hc
      rcases (connection?_of_append (m := m) rfl).1 hc with hc | ⟨-, rfl⟩
      · exact hfaithful.connections other c hc
      · exact faithful_newConnection m command spec
    · intro other
      rw [dialogue_of_append (m := m) rfl rfl, ← hfaithful.recorded]
      exact (List.filterMap_append ..).trans (List.append_nil _)

end Machine

end ProjectCheck
