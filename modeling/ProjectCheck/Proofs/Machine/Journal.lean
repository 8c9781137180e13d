import ProjectCheck.Proofs.Machine.Commands
import ProjectCheck.Proofs.Machine.Ending
import ProjectCheck.Server.Client

/-!
The journal is written and never read. Whatever was written down before, a step ends in the same
result and the same state, and adds the same entries to the journal. Nor does it make a difference
what is installed under names that are no commands. What serves the language servers adds no run of
a tool.
-/
namespace ProjectCheck

namespace Journal

def append (j k : Journal) : Journal :=
  ⟨j.logs ++ k.logs, j.calls ++ k.calls, j.sleeps ++ k.sleeps, j.events ++ k.events⟩

instance : Append Journal := ⟨append⟩

@[simp] theorem append_logs (j k : Journal) : (j ++ k).logs = j.logs ++ k.logs := rfl
@[simp] theorem append_calls (j k : Journal) : (j ++ k).calls = j.calls ++ k.calls := rfl
@[simp] theorem append_sleeps (j k : Journal) : (j ++ k).sleeps = j.sleeps ++ k.sleeps := rfl
@[simp] theorem append_events (j k : Journal) : (j ++ k).events = j.events ++ k.events := rfl

@[ext] theorem ext {j k : Journal} (hlogs : j.logs = k.logs) (hcalls : j.calls = k.calls)
    (hsleeps : j.sleeps = k.sleeps) (hevents : j.events = k.events) : j = k := by
  cases j
  cases k
  simp_all

@[simp] theorem append_nil (j : Journal) : j ++ ({} : Journal) = j := by
  ext1 <;> exact List.append_nil _

theorem append_assoc (i j k : Journal) : i ++ j ++ k = i ++ (j ++ k) := by
  ext1 <;> exact List.append_assoc ..

end Journal

class LawfulMachine (σ : Type) [HasMachine σ] : Prop where
  machine_set : ∀ (m : Machine) (s : σ), HasMachine.machine (HasMachine.setMachine m s) = m
  set_set : ∀ (first second : Machine) (s : σ), HasMachine.setMachine second
    (HasMachine.setMachine first s) = HasMachine.setMachine second s

instance : LawfulMachine Machine := ⟨fun _ _ => rfl, fun _ _ _ => rfl⟩

namespace Run

variable {σ α β ι : Type} [HasMachine σ]

def journaled (journal : Journal) (s : σ) : σ :=
  HasMachine.setMachine ((HasMachine.machine s).withJournal journal) s

/-- Whatever the journal is before, a step ends in the same result and state and adds to the journal
what is said. -/
def Writes (step : Run σ α) (s : σ) (said : Except Failure α → Journal → Prop) : Prop :=
  ∃ result after added, said result added ∧
    ∀ journal, step.run (journaled journal s) = (result, journaled (journal ++ added) after)

namespace Writes

variable {step : Run σ α} {next : α → Run σ β} {s : σ}

theorem mono {said weaker : Except Failure α → Journal → Prop} (h : Writes step s said)
    (hsaid : ∀ result added, said result added → weaker result added) : Writes step s weaker := by
  obtain ⟨result, after, added, hadded, hrun⟩ := h
  exact ⟨result, after, added, hsaid _ _ hadded, hrun⟩

/-- A step that adds nothing. -/
theorem of_run {said : Except Failure α → Journal → Prop} {result : Except Failure α} {after : σ}
    (hrun : ∀ journal, step.run (journaled journal s) = (result, journaled journal after))
    (hsaid : said result {}) : Writes step s said :=
  ⟨result, after, {}, hsaid, fun journal => by rw [hrun, Journal.append_nil]⟩

theorem ofExcept {r : Except Failure α} {said : Except Failure α → Journal → Prop}
    (h : said r {}) : Writes (ofExcept r) s said :=
  of_run (fun journal => ofExcept_run r (journaled journal s)) h

theorem pure {a : α} {said : Except Failure α → Journal → Prop} (h : said (.ok a) {}) :
    Writes (pure a) s said :=
  of_run (fun journal => run_pure a (journaled journal s)) h

/-- A second part goes on from the result of the first part and adds to what that has added. -/
theorem bind {first : Except Failure α → Journal → Prop} {said : Except Failure β → Journal → Prop}
    (hstep : Writes step s first)
    (hok : ∀ a j, first (.ok a) j → ∀ after,
      Writes (next a) after fun result k => said result (j ++ k))
    (herror : ∀ failure j, first (.error failure) j → said (.error failure) j) :
    Writes (step >>= next) s said := by
  obtain ⟨result, after, j, hj, hrun⟩ := hstep
  cases result with
  | error failure =>
    exact ⟨.error failure, after, j, herror failure j hj, fun journal =>
      run_bind_error (hrun journal) next⟩
  | ok a =>
    obtain ⟨result, last, k, hk, hnext⟩ := hok a j hj after
    refine ⟨result, last, j ++ k, hk, fun journal => ?_⟩
    rw [run_bind_ok (hrun journal), hnext, Journal.append_assoc]

/-- The same where the end of the first part is known. -/
theorem bind_of_run {said : Except Failure β → Journal → Prop} {a : α} {j : Journal} {between : σ}
    (hrun : ∀ journal, step.run (journaled journal s) = (.ok a, journaled (journal ++ j) between))
    (hnext : Writes (next a) between fun result k => said result (j ++ k)) :
    Writes (step >>= next) s said := by
  obtain ⟨result, after, k, hk, hlast⟩ := hnext
  refine ⟨result, after, j ++ k, hk, fun journal => ?_⟩
  rw [run_bind_ok (hrun journal), hlast, Journal.append_assoc]

/-- What reads the state does not read the journal. -/
theorem get_bind {next : σ → Run σ β} {said : Except Failure β → Journal → Prop}
    (hnext : Writes (next s) s said) (hblind : ∀ journal, next (journaled journal s) = next s) :
    Writes (get >>= next) s said := by
  obtain ⟨result, after, added, hadded, hrun⟩ := hnext
  refine ⟨result, after, added, hadded, fun journal => ?_⟩
  rw [run_bind_ok (run_get _), hblind]
  exact hrun journal

end Writes

end Run

structure LaunchRule where
  tool : List String → Prop
  server : List LooseText → Prop

structure Journal.Obeys (rule : LaunchRule) (j : Journal) : Prop where
  tools : ∀ call ∈ j.calls, rule.tool call.command
  servers : ∀ pid command, Event.spawned pid command ∈ j.events → rule.server command

namespace Journal.Obeys

variable {rule : LaunchRule} {j k : Journal}

theorem nil : Obeys rule {} := ⟨nofun, nofun⟩

theorem append (hj : j.Obeys rule) (hk : k.Obeys rule) : (j ++ k).Obeys rule :=
  ⟨List.forall_mem_append.2 ⟨hj.tools, hk.tools⟩, fun pid command hmem =>
    (List.mem_append.1 hmem).elim (hj.servers pid command) (hk.servers pid command)⟩

theorem of_quiet (hcalls : j.calls = [])
    (hevents : ∀ pid command, Event.spawned pid command ∉ j.events) : j.Obeys rule :=
  ⟨by rw [hcalls]; nofun, fun pid command hmem => absurd hmem (hevents pid command)⟩

end Journal.Obeys

namespace Run

variable {σ α β ι : Type} [HasMachine σ]

def outfitted (journal : Journal) (installed : List String) (s : σ) : σ :=
  HasMachine.setMachine { HasMachine.machine s with journal, installed } s

/-- Where the known commands are installed a step launches only what the rule lets be launched, and
nothing else of what is installed, nor the journal, makes a difference to it. -/
def Heeds (known : List String) (rule : LaunchRule) (step : Run σ α) : Prop :=
  ∀ s, ∃ result after added, Journal.Obeys rule added ∧
    ∀ journal installed, HaveSameCommands known installed →
      step.run (outfitted journal installed s) =
        (result, outfitted (journal ++ added) installed after)

namespace Heeds

variable {known : List String} {rule : LaunchRule} {step : Run σ α} {next : α → Run σ β}

/-- A step that adds nothing. -/
theorem of_run (h : ∀ s, ∃ (result : Except Failure α) (after : σ), ∀ journal installed,
    HaveSameCommands known installed →
      step.run (outfitted journal installed s) = (result, outfitted journal installed after)) :
    Heeds known rule step := by
  intro s
  obtain ⟨result, after, hrun⟩ := h s
  refine ⟨result, after, {}, .nil, fun journal installed hsame => ?_⟩
  rw [hrun journal installed hsame, Journal.append_nil]

theorem ofExcept (outcome : Except Failure α) : Heeds (σ := σ) known rule (ofExcept outcome) :=
  of_run fun s => ⟨outcome, s, fun _ _ _ => ofExcept_run outcome _⟩

theorem pure (a : α) : Heeds (σ := σ) known rule (pure a) :=
  of_run fun s => ⟨.ok a, s, fun _ _ _ => run_pure a _⟩

theorem fail (failure : Failure) : Heeds (σ := σ) (α := α) known rule (fail failure) :=
  ofExcept (.error failure)

theorem bind (hstep : Heeds known rule step) (hnext : ∀ a, Heeds known rule (next a)) :
    Heeds known rule (step >>= next) := by
  intro s
  obtain ⟨result, between, j, hj, hrun⟩ := hstep s
  cases result with
  | error failure =>
    exact ⟨.error failure, between, j, hj, fun journal installed hsame =>
      run_bind_error (hrun journal installed hsame) next⟩
  | ok a =>
    obtain ⟨result, after, k, hk, hlast⟩ := hnext a between
    refine ⟨result, after, j ++ k, hj.append hk, fun journal installed hsame => ?_⟩
    rw [run_bind_ok (hrun journal installed hsame), hlast _ _ hsame, Journal.append_assoc]

theorem bind_pure (hstep : Heeds known rule step) {result : α → β} :
    Heeds known rule (do return result (← step)) :=
  hstep.bind fun _ => pure _

theorem map (hstep : Heeds known rule step) (f : α → β) : Heeds known rule (f <$> step) := by
  rw [map_eq_pure_bind]
  exact hstep.bind fun _ => pure _

/-- What reads the state reads neither the journal nor what is installed under other names. -/
theorem get_bind_of {next : σ → Run σ β}
    (hnext : ∀ s, Heeds known rule (next (outfitted {} known s)))
    (hblind : ∀ journal installed s, HaveSameCommands known installed →
      next (outfitted journal installed s) = next (outfitted {} known s)) :
    Heeds known rule (get >>= next) := by
  intro s
  obtain ⟨result, after, added, hadded, hrun⟩ := hnext s s
  refine ⟨result, after, added, hadded, fun journal installed hsame => ?_⟩
  rw [run_bind_ok (run_get _), hblind journal installed s hsame]
  exact hrun journal installed hsame

theorem get_bind {next : σ → Run σ β} (hnext : ∀ s, Heeds known rule (next s))
    (hblind : ∀ journal installed s, HaveSameCommands known installed →
      next (outfitted journal installed s) = next (outfitted {} known s)) :
    Heeds known rule (get >>= next) :=
  get_bind_of (fun _ => hnext _) hblind

theorem attempt (hstep : Heeds known rule step) : Heeds known rule step.attempt := by
  intro s
  obtain ⟨result, after, added, hadded, hrun⟩ := hstep s
  exact ⟨.ok result, after, added, hadded, fun journal installed hsame =>
    attempt_run (hrun journal installed hsame)⟩

theorem ite {c : Prop} [Decidable c] {other : Run σ α} (hstep : Heeds known rule step)
    (hother : Heeds known rule other) : Heeds known rule (if c then step else other) := by
  split
  · exact hstep
  · exact hother

/-- Something is done under a condition. -/
theorem when {c : Prop} [Decidable c] {step : Run σ PUnit} (hstep : Heeds known rule step) :
    Heeds known rule (if c then step else Pure.pure ⟨⟩) :=
  ite hstep (pure _)

theorem modify {change : σ → σ} (hblind : ∀ journal installed s,
    change (outfitted journal installed s) = outfitted journal installed (change s)) :
    Heeds known rule (modify change : Run σ PUnit) :=
  of_run fun s => ⟨.ok ⟨⟩, change s, fun journal installed _ => by rw [run_modify, hblind]⟩

theorem forM {items : List ι} {step : ι → Run σ PUnit}
    (hstep : ∀ item, Heeds known rule (step item)) : Heeds known rule (items.forM step) := by
  induction items with
  | nil => exact pure _
  | cons item rest ih => exact (hstep item).bind fun _ => ih

theorem optionForM {item : Option ι} {step : ι → Run σ PUnit}
    (hstep : ∀ item, Heeds known rule (step item)) : Heeds known rule (item.forM step) := by
  cases item with
  | none => exact pure _
  | some item => exact hstep item

theorem mapM {items : List ι} {step : ι → Run σ β}
    (hstep : ∀ item, Heeds known rule (step item)) : Heeds known rule (items.mapM step) := by
  induction items with
  | nil => exact pure _
  | cons item rest ih =>
    rw [List.mapM_cons]
    exact (hstep item).bind fun _ => ih.bind fun _ => pure _

/-- What is true of a step whatever is known is true of it where it is done. -/
theorem writes [LawfulMachine σ] (h : ∀ known, Heeds known rule step) (s : σ) :
    Writes step s fun _ added => added.Obeys rule := by
  obtain ⟨result, after, added, hadded, hrun⟩ := h (HasMachine.machine s).installed s
  refine ⟨result, outfitted {} (HasMachine.machine s).installed after, added, hadded,
    fun journal => ?_⟩
  have hlast := hrun journal _ (.refl _)
  simp only [outfitted, journaled, Machine.withJournal, LawfulMachine.machine_set,
    LawfulMachine.set_set] at hlast ⊢
  exact hlast

end Heeds

/-- A step of the machine inside a larger state writes what it writes on the machine. -/
theorem Writes.onMachine [LawfulMachine σ] {step : Run Machine α} {s : σ}
    {said : Except Failure α → Journal → Prop} (h : Writes step (HasMachine.machine s) said) :
    Writes (step.onMachine (σ := σ)) s said := by
  obtain ⟨result, after, added, hadded, hrun⟩ := h
  refine ⟨result, HasMachine.setMachine after s, added, hadded, fun journal => ?_⟩
  have hstep : step.run (HasMachine.machine (journaled journal s)) =
      (result, after.withJournal (journal ++ added)) := by
    rw [journaled, LawfulMachine.machine_set]
    exact hrun journal
  rw [onMachine_run hstep]
  simp only [journaled, LawfulMachine.machine_set, LawfulMachine.set_set]

theorem Heeds.onMachine [LawfulMachine σ] {known : List String} {rule : LaunchRule}
    {step : Run Machine α} (h : Heeds known rule step) :
    Heeds known rule (step.onMachine (σ := σ)) := by
  intro s
  obtain ⟨result, after, added, hadded, hrun⟩ := h (HasMachine.machine s)
  refine ⟨result, HasMachine.setMachine after s, added, hadded, fun journal installed hsame => ?_⟩
  have hstep : step.run (HasMachine.machine (outfitted journal installed s)) =
      (result, outfitted (journal ++ added) installed after) := by
    rw [outfitted, LawfulMachine.machine_set]
    exact hrun journal installed hsame
  rw [onMachine_run hstep]
  simp only [outfitted, LawfulMachine.machine_set, LawfulMachine.set_set]
  rfl

end Run

open Run

namespace Machine

variable {known : List String} {rule : LaunchRule}

theorem writes_record {f : Journal → Journal} {k : Journal} (m : Machine)
    (hf : ∀ journal, f journal = journal ++ k) :
    Writes (record f) m fun result j => result = .ok () ∧ j = k :=
  ⟨.ok (), m, k, ⟨rfl, rfl⟩, fun journal => by
    rw [← hf]
    rfl⟩

theorem writes_log (level : Level) (text : String) (m : Machine) :
    Writes (log level text) m fun result j => result = .ok () ∧ j = { logs := [(level, text)] } :=
  writes_record m fun journal => by ext1 <;> simp

theorem heeds_record {f : Journal → Journal} {k : Journal}
    (hf : ∀ journal, f journal = journal ++ k) (hk : k.Obeys rule) :
    Heeds known rule (record f) :=
  fun m => ⟨.ok (), m, k, hk, fun journal installed _ => by
    rw [← hf]
    rfl⟩

theorem heeds_log (level : Level) (text : String) : Heeds known rule (log level text) :=
  heeds_record (k := { logs := [(level, text)] }) (fun journal => by ext1 <;> simp)
    (.of_quiet rfl nofun)

theorem heeds_note {event : Event}
    (hevent : ∀ pid command, event = .spawned pid command → rule.server command) :
    Heeds known rule (note event) :=
  heeds_record (k := { events := [event] }) (fun journal => by ext1 <;> simp)
    ⟨nofun, fun pid command hmem => hevent pid command (List.mem_singleton.1 hmem).symm⟩

theorem heeds_debug (texts : List String) : Heeds known rule (debug texts) :=
  Heeds.forM fun text => heeds_log .debug text

theorem heeds_due (turn : Turn) : Heeds known rule (due turn) := Heeds.modify fun _ _ _ => rfl

theorem heeds_updateConnection (pid : Nat) (change : Connection → Connection) :
    Heeds known rule (updateConnection pid change) :=
  Heeds.modify fun _ _ _ => rfl

theorem heeds_updateSession (pid : Nat) (change : Session → Session) :
    Heeds known rule (updateSession pid change) :=
  heeds_updateConnection pid _

/-! Connections. -/

theorem heeds_wakeReader (pid : Nat) (c : Connection) : Heeds known rule (wakeReader pid c) :=
  Heeds.when ((heeds_updateConnection pid _).bind fun _ => heeds_due _)

theorem heeds_wakeWatcher (pid : Nat) (c : Connection) : Heeds known rule (wakeWatcher pid c) :=
  Heeds.when ((heeds_updateConnection pid _).bind fun _ => heeds_due _)

theorem heeds_stir (pid : Nat) : Heeds known rule (stir pid) := by
  refine Heeds.get_bind (fun m => ?_) fun _ _ _ _ => rfl
  split
  · exact Heeds.pure _
  · exact (heeds_wakeReader pid _).bind fun _ => heeds_wakeWatcher pid _

/-- A server is started with a command line that the rule lets be started. -/
theorem heeds_spawn {command : List LooseText} (hcommand : rule.server command)
    (spec : ServerSpec) :
    Heeds known rule (spawn command spec) := by
  refine Heeds.get_bind (fun m => ?_) fun _ _ _ _ => rfl
  refine Heeds.ite (Heeds.fail _) ?_
  have hevent : ∀ pid line, Event.spawned m.connections.length command = .spawned pid line →
      rule.server line := by
    rintro pid line ⟨⟩
    exact hcommand
  exact (Heeds.modify fun _ _ _ => rfl).bind fun _ => (heeds_note hevent).bind fun _ =>
    Heeds.pure _

theorem heeds_startTasks (pid : Nat) : Heeds known rule (startTasks pid) :=
  (heeds_updateConnection pid _).bind fun _ => Heeds.forM heeds_due

theorem heeds_deliver (pid : Nat) (message : Json) (c : Connection) :
    Heeds known rule (deliver pid message c) :=
  (heeds_note (by nofun)).bind fun _ => (heeds_updateConnection pid _).bind fun _ =>
    (heeds_stir pid).bind fun _ => Heeds.when (Heeds.fail _)

theorem heeds_send (pid : Nat) (message : Json) : Heeds known rule (send pid message) := by
  refine Heeds.get_bind (fun m => ?_) fun _ _ _ _ => rfl
  split
  · exact Heeds.pure _
  · exact Heeds.ite (Heeds.pure _)
      (Heeds.ite (Heeds.fail _) (heeds_deliver pid message _))

theorem heeds_tellToEnd (pid : Nat) (c : Connection) : Heeds known rule (tellToEnd pid c) :=
  Heeds.when ((heeds_note (by nofun)).bind fun _ => heeds_updateConnection pid _)

theorem heeds_endServer (pid : Nat) (code : Int) : Heeds known rule (endServer pid code) :=
  (heeds_updateConnection pid _).bind fun _ => heeds_stir pid

theorem heeds_terminate (pid : Nat) : Heeds known rule (terminate pid) := by
  refine Heeds.get_bind (fun m => ?_) fun _ _ _ _ => rfl
  split
  · exact Heeds.pure _
  · exact (heeds_tellToEnd pid _).bind fun _ => heeds_updateConnection pid _

/-! Reading. -/

theorem heeds_handOnDecision : Heeds known rule handOnDecision := by
  refine Heeds.get_bind (fun m => ?_) fun _ _ _ _ => rfl
  split
  · exact Heeds.when ((Heeds.modify fun _ _ _ => rfl).bind fun _ => heeds_due _)
  · exact Heeds.pure _

theorem heeds_react (pid : Nat) (reception : Reception) : Heeds known rule (react pid reception) :=
  (heeds_updateSession pid _).bind fun _ => heeds_handOnDecision.bind fun _ =>
    (heeds_debug _).bind fun _ => (Heeds.optionForM (heeds_send pid)).bind fun _ =>
      Heeds.optionForM Heeds.fail

theorem heeds_receive (pid : Nat) (message : Json) : Heeds known rule (receive pid message) := by
  refine Heeds.get_bind (fun m => ?_) fun _ _ _ _ => rfl
  split
  · exact Heeds.pure _
  · exact heeds_react pid _

theorem heeds_noticeExit (pid : Nat) : Heeds known rule (noticeExit pid) := by
  refine Heeds.get_bind (fun m => ?_) fun _ _ _ _ => rfl
  split
  · exact (heeds_log _ _).bind fun _ => (heeds_updateSession pid _).bind fun _ =>
      heeds_handOnDecision
  · exact Heeds.pure _

theorem heeds_checkAlive (pid : Nat) : Heeds known rule (checkAlive pid) := by
  refine Heeds.get_bind (fun m => ?_) fun _ _ _ _ => rfl
  split
  · exact Heeds.pure _
  · refine Heeds.ite (Heeds.pure _) ?_
    split
    · exact (heeds_updateSession pid _).bind fun _ => (heeds_log _ _).bind fun _ =>
        Heeds.pure _
    · exact Heeds.pure _

theorem heeds_readContent (pid : Nat) (content : Bytes) :
    Heeds known rule (readContent pid content) := by
  refine Heeds.ite (Heeds.pure _) ?_
  split
  · exact heeds_receive pid _
  · exact heeds_log _ _
  · exact heeds_log _ _
  · exact Heeds.fail _

theorem heeds_readPiece (pid : Nat) (unframed piece : Bytes) :
    Heeds known rule (readPiece pid unframed piece) := by
  refine (Heeds.forM (heeds_readContent pid)).bind fun _ => ?_
  split
  · exact (Heeds.fail _).bind fun _ => Heeds.pure _
  · exact Heeds.pure _

theorem heeds_readPieces (pid : Nat) (unframed : Bytes) (pieces : List Bytes) :
    Heeds known rule (readPieces pid unframed pieces) := by
  induction pieces generalizing unframed with
  | nil => exact (heeds_checkAlive pid).bind_pure
  | cons piece rest ih =>
    exact (heeds_checkAlive pid).bind fun _ => Heeds.ite
      ((heeds_readPiece pid unframed piece).bind fun _ => ih _) (Heeds.pure _)

theorem heeds_logLines (lines : List Bytes) : Heeds known rule (logLines lines) :=
  (heeds_debug _).bind fun _ => Heeds.when (Heeds.fail _)

/-! Turns. -/

theorem heeds_watchTurn (pid : Nat) (c : Connection) : Heeds known rule (watchTurn pid c) :=
  Heeds.ite ((heeds_updateConnection pid _).bind fun _ => heeds_noticeExit pid)
    (heeds_updateConnection pid _)

theorem heeds_listenTurn (pid : Nat) (c : Connection) : Heeds known rule (listenTurn pid c) :=
  (heeds_updateConnection pid _).bind fun _ => (heeds_logLines _).attempt.bind fun _ =>
    Heeds.pure _

theorem heeds_readTurnPieces (pid : Nat) (c : Connection) :
    Heeds known rule (readTurnPieces pid c) := by
  unfold readTurnPieces
  split
  · exact (heeds_readPiece pid _ _).bind fun _ => heeds_readPieces pid _ _
  · exact heeds_readPieces pid _ _

theorem heeds_readTurn (pid : Nat) (c : Connection) : Heeds known rule (readTurn pid c) := by
  refine (heeds_updateConnection pid _).bind fun _ =>
    (heeds_readTurnPieces pid c).attempt.bind fun _ => ?_
  split <;> exact heeds_updateConnection pid _

theorem heeds_taskTurn (pid : Nat) (state : Connection → TaskState)
    {turn : Connection → Run Machine Unit} (hturn : ∀ c, Heeds known rule (turn c)) :
    Heeds known rule (taskTurn pid state turn) := by
  refine Heeds.get_bind (fun m => ?_) fun _ _ _ _ => rfl
  split
  · exact Heeds.when (hturn _)
  · exact Heeds.pure _

theorem heeds_takeTurn (turn : Turn) : Heeds known rule (takeTurn turn) := by
  cases turn with
  | watch pid => exact heeds_taskTurn pid _ (heeds_watchTurn pid)
  | listen pid => exact heeds_taskTurn pid _ (heeds_listenTurn pid)
  | read pid => exact heeds_taskTurn pid _ (heeds_readTurn pid)
  | say texts => exact heeds_debug texts
  | handOn => exact heeds_due .resume
  | resume => exact Heeds.pure _

theorem heeds_takeTurns (fuel : Nat) : Heeds known rule (takeTurns fuel) := by
  induction fuel with
  | zero => exact Heeds.pure _
  | succ fuel ih =>
    refine Heeds.get_bind (fun m => ?_) fun _ _ _ _ => rfl
    split
    · exact Heeds.pure _
    · exact (Heeds.modify fun _ _ _ => rfl).bind fun _ => (heeds_takeTurn _).bind fun _ =>
        Heeds.when ih

theorem heeds_giveWay : Heeds known rule giveWay :=
  Heeds.get_bind (fun _ => heeds_takeTurns _) fun _ _ _ _ => rfl

theorem heeds_sayFirst (texts : List String) : Heeds known rule (sayFirst texts) :=
  Heeds.modify fun _ _ _ => rfl

theorem heeds_takeBack : Heeds known rule takeBack := by
  refine Heeds.get_bind (fun m => ?_) fun _ _ _ _ => rfl
  split
  · exact (Heeds.modify fun _ _ _ => rfl).bind fun _ => Heeds.pure _
  · exact Heeds.pure _

theorem heeds_awaitDecision (pid id : Nat) : Heeds known rule (awaitDecision pid id) :=
  (Heeds.modify fun _ _ _ => rfl).bind fun _ => heeds_giveWay.bind fun _ =>
    Heeds.modify fun _ _ _ => rfl

theorem heeds_sleep (seconds : Decimal.Binary64) : Heeds known rule (sleep seconds) := by
  have hrecord : Heeds known rule (record fun j => { j with sleeps := j.sleeps ++ [seconds] }) :=
    heeds_record (k := { sleeps := [seconds] }) (fun journal => by ext1 <;> simp)
      (.of_quiet rfl nofun)
  refine hrecord.bind fun _ => (Heeds.modify fun _ _ _ => rfl).bind fun _ => ?_
  refine Heeds.get_bind (fun m => ?_) fun _ _ _ _ => rfl
  exact (Heeds.forM heeds_stir).bind fun _ => heeds_giveWay

/-! Clients. -/

theorem heeds_startRequest (pid : Nat) (method : String) (params : Option Json) :
    Heeds known rule (startRequest pid method params) := by
  refine (heeds_updateSession pid _).bind fun _ => ?_
  refine Heeds.get_bind (fun m => ?_) fun _ _ _ _ => rfl
  exact (heeds_log _ _).bind fun _ => (heeds_send pid _).bind fun _ => Heeds.pure _

theorem heeds_finishRequest (pid id : Nat) (method : String) :
    Heeds known rule (finishRequest pid id method) := by
  refine Heeds.get_bind (fun m => ?_) fun _ _ _ _ => rfl
  have hlog : ∀ decision, Heeds known rule (logTimeout method decision) := by
    intro decision
    cases decision with
    | none => exact heeds_log _ _
    | some _ => exact Heeds.pure _
  exact (hlog _).bind fun _ => (heeds_updateSession pid _).bind fun _ => Heeds.ofExcept _

theorem heeds_request (pid : Nat) (method : String) (params : Option Json) :
    Heeds known rule (request pid method params) :=
  (heeds_startRequest pid method params).bind fun id =>
    (heeds_awaitDecision pid id).bind fun _ => heeds_finishRequest pid id method

theorem heeds_notify (pid : Nat) (method : String) (params : Option Json) :
    Heeds known rule (notify pid method params) :=
  (heeds_log _ _).bind fun _ => heeds_send pid _

theorem heeds_sendDocument (pid : Nat) (session : Session) (uri text : String)
    (languageId : LooseText) :
    Heeds known rule (sendDocument pid session uri text languageId) :=
  Heeds.ite
    ((heeds_log _ _).bind fun _ => (heeds_updateSession pid _).bind fun _ =>
      heeds_notify pid _ _)
    ((heeds_updateSession pid _).bind fun _ => (heeds_log _ _).bind fun _ =>
      heeds_notify pid _ _)

theorem heeds_openDocument (pid : Nat) (path : Path) (language : Option LooseText) :
    Heeds known rule (openDocument pid path language) := by
  refine Heeds.get_bind (fun m => ?_) fun _ _ _ _ => rfl
  split
  · exact Heeds.pure _
  · exact (Heeds.ofExcept _).bind fun _ => (Heeds.ofExcept _).bind fun _ =>
      heeds_sendDocument pid _ _ _ _

theorem heeds_diagnosticsOf (pid : Nat) (path : Path) :
    Heeds known rule (diagnosticsOf pid path) := by
  refine Heeds.get_bind (fun m => (Heeds.ofExcept _).bind fun _ => ?_) fun _ _ _ _ => rfl
  split
  · exact Heeds.ofExcept _
  · exact Heeds.pure _

theorem heeds_hasPublished (pid : Nat) (path : Path) : Heeds known rule (hasPublished pid path) :=
  Heeds.get_bind (fun _ => (Heeds.ofExcept _).bind fun _ => Heeds.pure _) fun _ _ _ _ => rfl

end Machine

end ProjectCheck
