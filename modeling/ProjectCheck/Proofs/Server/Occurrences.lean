import ProjectCheck.Proofs.Machine.Sleep
import ProjectCheck.Proofs.Server.Messages

/-!
What happens at one client: requests are made, messages come in, the server ends, and those who wait
for an answer go on. In whatever order this happens, and whatever else it does to the machine, each
occurrence changes the client's session in its own way only.
-/
namespace ProjectCheck

open Run Machine

/-- What happens at a client. A request is made; a message comes in; the server ends; the client
sees that the server has ended, which it has at the latest then; or whoever waits for a request goes
on, with what was decided or because the time is over. -/
inductive Occurrence where
  | call (method : String) (params : Option Json)
  | message (message : Json)
  | ends (code : Int)
  | noticed (code : Int)
  | resume (number : Nat) (method : String)

namespace Occurrence

def step (pid : Nat) : Occurrence → Run Machine Unit
  | call method params => do let _ ← startRequest pid method params
  | message value => receive pid value
  | ends code => endServer pid code
  | noticed code => do
    endServer pid code
    noticeExit pid
  | resume number method => do let _ ← finishRequest pid number method

def effect : Occurrence → Session → Session
  | call _ _, s => s.begin
  | message value, s => (s.receive value).session
  | ends _, s => s
  | noticed _, s => s.noticeExit
  | resume number _, s => s.finish number

end Occurrence

def Session.after (s : Session) (history : List Occurrence) : Session :=
  history.foldl (fun s occurrence => occurrence.effect s) s

namespace Machine

/-- The machine after some occurrences at the client of a process; a failure of one does not stop
them. -/
def after (m : Machine) (pid : Nat) (history : List Occurrence) : Machine :=
  history.foldl (fun m occurrence => ((occurrence.step pid).run m).2) m

variable {pid : Nat} {m : Machine}

/-! What does not touch the session of a client. -/

def KeepsSession (pid : Nat) (m after : Machine) : Prop := after.session? pid = m.session? pid

theorem keepsSession_revise {change : Connection → Connection}
    (h : ∀ c, m.connection? pid = some c → (change c).session = c.session) :
    KeepsSession pid m (m.revise pid change) := by
  rw [KeepsSession, session?, connection?_revise_self, session?]
  cases hc : m.connection? pid with
  | none => rfl
  | some c => exact congrArg some (h c hc)

theorem lenient_keepsSession (pid : Nat) : Lenient (KeepsSession pid) where
  steady := ⟨fun _ => rfl, fun first second => second.trans first⟩
  quiet := fun hsame _ => by rw [KeepsSession, session?, connection?, hsame]; rfl
  tasks := fun m other _ _ _ => by
    by_cases hpid : other = pid
    · subst hpid
      exact keepsSession_revise fun _ _ => rfl
    · rw [KeepsSession, session?, connection?_revise_of_ne hpid]
      rfl

/-- Whatever a server does with what it is sent, the client's session stays as it is. -/
theorem keepsSession_send (pid : Nat) (message : Json) (m : Machine) :
    Moves (KeepsSession pid) (send pid message) m := by
  refine (lenient_keepsSession pid).moves_send fun c hc => ?_
  refine keepsSession_revise (m := m.noted _) fun c' hc' => ?_
  obtain rfl : c = c' := Option.some.inj (hc.symm.trans hc')
  exact (Connection.kin_take _ message).2

theorem keepsSession_endServer (pid : Nat) (code : Int) (m : Machine) :
    Moves (KeepsSession pid) (endServer pid code) m := by
  have hR := lenient_keepsSession pid
  exact Moves.bind hR.steady (keepsSession_revise fun _ _ => rfl) fun _ after =>
    hR.moves_stir pid after

variable {s : Session}

/-- The client's session is changed. -/
theorem session?_revise (hs : m.session? pid = some s) (change : Session → Session) :
    (m.revise pid fun c => { c with session := change c.session }).session? pid =
      some (change s) := by
  obtain ⟨c, hc, rfl⟩ := Option.map_eq_some_iff.1 hs
  rw [session?, connection?_revise_self, hc]
  rfl

/-- A part that changes the session, and parts after it that do not. -/
theorem ends_update {α : Type} {change : Session → Session} {rest : Unit → Run Machine α}
    (hs : m.session? pid = some s)
    (hrest : ∀ after, Moves (KeepsSession pid) (rest ()) after) :
    Ends (updateSession pid change >>= rest) m fun _ after =>
      after.session? pid = some (change s) :=
  Ends.bind_of_run (run_modify _ m) ((hrest _).trans (session?_revise hs change))

/-! What each occurrence does to it. -/

theorem ends_startRequest (hs : m.session? pid = some s) (method : String)
    (params : Option Json) :
    Ends (startRequest pid method params) m fun _ after =>
      after.session? pid = some s.begin := by
  have hR := lenient_keepsSession pid
  refine ends_update hs fun begun => ?_
  refine Moves.get_bind (Moves.bind hR.steady (hR.moves_log _ _ _) fun _ _ => ?_)
  exact Moves.bind hR.steady (keepsSession_send pid _ _) fun _ after => hR.steady.refl after

theorem ends_receive (hs : m.session? pid = some s) (message : Json) :
    Ends (receive pid message) m fun _ after =>
      after.session? pid = some (s.receive message).session := by
  have hR := lenient_keepsSession pid
  have hreact : Ends (react pid (s.receive message)) m fun _ after =>
      after.session? pid = some (s.receive message).session := by
    refine ends_update hs fun revised => ?_
    refine Moves.bind hR.steady (hR.moves_handOnDecision _) fun _ _ =>
      Moves.bind hR.steady (hR.moves_debug _ _) fun _ _ =>
      Moves.bind hR.steady ?_ fun _ after => ?_
    · cases (s.receive message).reply with
      | none => exact hR.steady.refl _
      | some reply => exact keepsSession_send pid reply _
    · cases (s.receive message).failure <;> exact hR.steady.refl after
  refine Ends.get_bind ?_
  rw [hs]
  exact hreact

def HasEnded (pid : Nat) (m : Machine) : Prop :=
  ∃ c code, m.connection? pid = some c ∧ c.exitCode = some code

theorem lenient_hasEnded (pid : Nat) :
    Lenient fun m after => HasEnded pid m → HasEnded pid after where
  steady := Steady.keeps _
  quiet := fun hsame _ ⟨c, code, hc, hcode⟩ =>
    ⟨c, code, by rw [connection?, hsame]; exact hc, hcode⟩
  tasks := fun m other reader listener watcher ⟨c, code, hc, hcode⟩ => by
    by_cases hpid : other = pid
    · subst hpid
      refine ⟨{ c with reader := reader c.reader, listener := listener c.listener,
                       watcher := watcher c.watcher }, code, ?_, hcode⟩
      rw [connection?_revise_self, hc]
      rfl
    · exact ⟨c, code, (connection?_revise_of_ne hpid _ m).trans hc, hcode⟩

/-- A server that was ended has ended. -/
theorem hasEnded_endServer (hs : m.session? pid = some s) (code : Int) :
    Moves (fun _ after => HasEnded pid after) (endServer pid code) m := by
  obtain ⟨c, hc, -⟩ := Option.map_eq_some_iff.1 hs
  have hended : HasEnded pid (m.revise pid (Connection.exit code)) := by
    refine ⟨c.exit code, c.exitCode.getD code, ?_, rfl⟩
    rw [connection?_revise_self, hc]
    rfl
  have hrun : (updateConnection pid (Connection.exit code)).run m =
      (.ok (), m.revise pid (Connection.exit code)) := rfl
  exact Ends.bind_of_run hrun ((lenient_hasEnded pid).moves_stir pid _ hended)

/-- The client sees the end of a server that has ended. -/
theorem ends_noticeExit (hs : m.session? pid = some s) (hended : HasEnded pid m) :
    Ends (noticeExit pid) m fun _ after => after.session? pid = some s.noticeExit := by
  have hR := lenient_keepsSession pid
  obtain ⟨c, code, hc, hcode⟩ := hended
  have hknown : (m.connection? pid).bind (·.exitCode) = some code := by
    rw [hc, Option.bind_some, hcode]
  refine Ends.get_bind ?_
  rw [hknown]
  refine Ends.bind_of_run (run_modify _ m) (ends_update hs fun after => ?_)
  exact hR.moves_handOnDecision after

theorem ends_noticed (hs : m.session? pid = some s) (code : Int) :
    Ends ((Occurrence.noticed code).step pid) m fun _ after =>
      after.session? pid = some s.noticeExit := by
  have hsame := keepsSession_endServer pid code m
  have hended := hasEnded_endServer hs code
  obtain ⟨after, woken, hstirred, -⟩ := stir_run pid (m.revise pid (Connection.exit code))
  have hrun : (endServer pid code).run m = (.ok (), after) := (run_bind_ok rfl _).trans hstirred
  rw [Moves, Ends, hrun] at hsame hended
  exact Ends.bind_of_run hrun (ends_noticeExit (hsame.trans hs) hended)

/-- Whoever goes on has what was decided until then. -/
theorem ends_resumed (hs : m.session? pid = some s) (number : Nat) (method : String) :
    Ends (finishRequest pid number method) m fun result after =>
      result = outcomeOf (s.decision? number) ∧ after.session? pid = some (s.finish number) := by
  have hR := lenient_keepsSession pid
  have hdecision : (m.session? pid).bind (·.decision? number) = s.decision? number := by
    rw [hs]
    rfl
  obtain ⟨between, hlog, hsame⟩ : ∃ between,
      (logTimeout method (s.decision? number)).run m = (.ok (), between) ∧
        KeepsSession pid m between := by
    cases s.decision? number with
    | some _ => exact ⟨m, rfl, hR.steady.refl m⟩
    | none => exact ⟨_, rfl, hR.moves_log .debug _ m⟩
  have hrun : (finishRequest pid number method).run m = (outcomeOf (s.decision? number),
      between.revise pid fun c => { c with session := c.session.finish number }) := by
    unfold finishRequest
    rw [run_bind_ok (run_get m), hdecision, run_bind_ok hlog]
    exact (run_bind_ok (run_modify _ between) _).trans (ofExcept_run ..)
  rw [Ends, hrun]
  exact ⟨rfl, session?_revise (hsame.trans hs) (·.finish number)⟩

/-- What happens at a client does to its session just that. -/
theorem ends_step (hs : m.session? pid = some s) (occurrence : Occurrence) :
    Ends (occurrence.step pid) m fun _ after =>
      after.session? pid = some (occurrence.effect s) := by
  cases occurrence with
  | call method params =>
    refine Ends.bind_of (ends_startRequest hs method params) (fun _ _ h => Ends.pure h)
      fun _ _ h => h
  | message value => exact ends_receive hs value
  | ends code => exact (keepsSession_endServer pid code m).trans hs
  | noticed code => exact ends_noticed hs code
  | resume number method =>
    refine Ends.bind_of (ends_resumed hs number method) (fun _ _ h => Ends.pure h.2)
      fun _ _ h => h.2

theorem session?_after (hs : m.session? pid = some s) (history : List Occurrence) :
    (m.after pid history).session? pid = some (s.after history) := by
  induction history generalizing m s with
  | nil => exact hs
  | cons occurrence rest ih => exact ih (ends_step hs occurrence)

end Machine

end ProjectCheck
