import ProjectCheck.Proofs.Server.Launch
import ProjectCheck.Proofs.Server.Registries

/-!
Fleets whose clients are idle or have ended. Asking for the server of a file keeps a fleet so and
gives an idle client, if it gives one: the one that is there, or a new one where there is none or
the one that is there has ended.
-/
namespace ProjectCheck

open Run Machine

def Persists (kept : ServerSpec → Connection → Prop) : Prop :=
  ∀ spec c after, kept spec c → c.Stays after → kept spec after

namespace Station

variable {kept : ServerSpec → Connection → Prop}

/-- The client of each key is one of the key's server. It is idle or has ended, and something more
may be known of it. -/
structure IsServing (kept : ServerSpec → Connection → Prop) (s : Station) : Prop where
  keyed : s.fleet.registry.IsKeyed
  rest : s.machine.IsAtRest fun _ => False
  clients : ∀ key pid, s.fleet.clients.get? key = some pid →
    ∃ spec c, s.fleet.registry.get? key = some spec ∧ s.machine.connection? pid = some c ∧
      kept spec c ∧ (c.IsIdle ∨ c.exitCode ≠ none)

variable {m after : Machine} {f : Fleet}

/-- What happens beside the clients keeps them. -/
theorem IsServing.of_continues (h : IsServing kept ⟨m, f⟩) (hpersists : Persists kept)
    (hcontinues : m.Continues after) (hrest : after.IsAtRest fun _ => False) :
    IsServing kept ⟨after, f⟩ where
  keyed := h.keyed
  rest := hrest
  clients key pid hkey := by
    obtain ⟨spec, c, hspec, hc, hkept, hstate⟩ := h.clients key pid hkey
    obtain ⟨c', hc', hstays⟩ := hcontinues.kept pid c hc
    refine ⟨spec, c', hspec, hc', hpersists spec c c' hkept hstays, ?_⟩
    exact hstate.imp (fun h => h.of_stays hstays) fun h => by rwa [hstays.exitCode]

theorem IsServing.without (h : IsServing kept ⟨m, f⟩) (key : LooseText) :
    IsServing kept ⟨m, f.without key⟩ where
  keyed := h.keyed
  rest := h.rest
  clients other pid hother := by
    have hne : other ≠ key := by
      rintro rfl
      cases (Members.get?_erase_self ..).symm.trans hother
    exact h.clients other pid ((Members.get?_erase_of_ne hne f.clients).symm.trans hother)

theorem IsServing.withStarted (h : IsServing kept ⟨m, f⟩) {spec : ServerSpec} {c : Connection}
    {started : Started} (hspec : f.registry.get? spec.key = some spec)
    (hc : m.connection? started.pid = some c) (hkept : kept spec c) (hidle : c.IsIdle) :
    IsServing kept ⟨m, f.withStarted spec.key started⟩ where
  keyed := h.keyed
  rest := h.rest
  clients other pid hother := by
    by_cases hkey : other = spec.key
    · subst hkey
      obtain rfl := Option.some.inj ((Members.get?_set_self ..).symm.trans hother)
      exact ⟨spec, c, hspec, hc, hkept, .inl hidle⟩
    · exact h.clients other pid ((Members.get?_set_of_ne hkey _ _).symm.trans hother)

end Station

def Station.Offers (s : Station) (path : Path) (spec : ServerSpec) (new : Connection) : Prop :=
  ∃ executable, s.prospect path = .installed spec executable ∧
    new = s.machine.newConnection (spec.launchCommand (some executable)) spec

def Station.Welcomes (s : Station) (path : Path) : Prop :=
  ∃ spec new root, s.Offers path spec new ∧ s.machine.refusesSpawn = false ∧
    new.behaviour.Welcomes ∧ findProjectRoot s.machine path rootMarkers = .ok root

theorem Station.Offers.unique {s : Station} {path : Path} {spec other : ServerSpec}
    {new found : Connection} (h : s.Offers path spec new) (hother : s.Offers path other found) :
    other = spec ∧ found = new := by
  obtain ⟨executable, hprospect, rfl⟩ := h
  obtain ⟨executable', hprospect', rfl⟩ := hother
  cases hprospect.symm.trans hprospect'
  exact ⟨rfl, rfl⟩

theorem Station.Welcomes.of_offers {s : Station} {path : Path} {spec : ServerSpec}
    {new : Connection} (h : s.Welcomes path) (hoffers : s.Offers path spec new) :
    new.behaviour.Welcomes := by
  obtain ⟨_, found, _, hfound, -, hwelcomes, -⟩ := h
  rwa [(hfound.unique hoffers).2]

theorem Station.forFile?_of_prospect {s : Station} {path : Path} {spec : ServerSpec}
    {executable : LooseText} (h : s.prospect path = .installed spec executable) :
    s.fleet.registry.forFile? path = some spec := by
  unfold prospect at h
  split at h
  · cases h
  · rename_i found hfound
    split at h <;> cases h
    exact hfound

namespace Fleet

variable {kept : ServerSpec → Connection → Prop} {m : Machine} {f : Fleet} {spec : ServerSpec}
  {executable : LooseText} {path : Path}

/-- That a server has ended is seen, and matters to nobody. -/
theorem checkAlive_exited {pid : Nat} {c : Connection} (hc : m.connection? pid = some c)
    (hexited : c.exitCode ≠ none) :
    ∃ after c', (checkAlive pid).run m = (.ok false, after) ∧ m.Stays after ∧
      after.turns = m.turns ∧ after.connection? pid = some c' ∧ c'.exitCode ≠ none := by
  have hover : c.exitCode.isNone = false := by
    rw [Option.isNone_eq_false_iff, Option.isSome_iff_ne_none]
    exact hexited
  obtain ⟨journal, hchecked⟩ := comes_checkAlive hc fun h => absurd h hexited
  rw [hover] at hchecked
  have hnoticed : c.Stays { c with session := { c.session with
      exitNoticed := c.session.exitNoticed || c.exitCode.isSome } } :=
    ⟨rfl, rfl, rfl, rfl, rfl, rfl, rfl, rfl, rfl, fun h => absurd h hexited, fun _ h => h,
      fun _ _ h => h, id⟩
  exact ⟨_, _, hchecked, (Stays.revise hc hnoticed).trans (.withJournal journal _), rfl,
    connection?_revise hc _, hexited⟩

/-- A server that has ended is forgotten. -/
theorem stop_exited {key : LooseText} {pid : Nat} {c : Connection}
    (hkey : f.clients.get? key = some pid) (hc : m.connection? pid = some c)
    (hexited : c.exitCode ≠ none) :
    ∃ after, (stop key).run ⟨m, f⟩ = (.ok (), ⟨after, f.without key⟩) ∧ m.Stays after ∧
      after.turns = m.turns := by
  have hclient : (client? key).run ⟨m, f⟩ = (.ok (some pid), ⟨m, f⟩) := by
    rw [← hkey]
    rfl
  have hforgotten : (forget key).run ⟨m, f⟩ = (.ok ⟨⟩, ⟨m, f.without key⟩) := rfl
  obtain ⟨logged, hlogged⟩ := log_run .info s!"Stopping LSP server: {key}" m (f.without key)
  obtain ⟨checked, c', hchecked, hnoticed, hsame, hc', hexited'⟩ :=
    checkAlive_exited (m := m.withJournal logged) hc hexited
  have hdismissed : (dismiss key pid).run ⟨m.withJournal logged, f.without key⟩ =
      (.ok (), ⟨checked, f.without key⟩) := by
    rw [dismiss, run_bind_ok (onMachine_run hchecked _)]
    rfl
  obtain ⟨ended, hended, hstays, hturns⟩ := terminate_exited hc' hexited'
  obtain ⟨last, hlast⟩ := log_run .info s!"LSP server '{key}' stopped" ended (f.without key)
  refine ⟨ended.withJournal last, ?_, ?_, hturns.trans hsame⟩
  · rw [stop, run_bind_ok hclient, run_bind_ok hforgotten]
    simp only
    rw [run_bind_ok hlogged, run_bind_ok hdismissed, run_bind_ok (onMachine_run hended _), hlast]
  · exact (((Stays.withJournal logged m).trans hnoticed).trans hstays).trans
      (.withJournal last ended)

theorem newConnection_congr {after : Machine} (h : after.untouched = m.untouched)
    (command : List LooseText) (spec : ServerSpec) :
    after.newConnection command spec = m.newConnection command spec := by
  change after.untouched.newConnection command spec = m.untouched.newConnection command spec
  rw [h]

theorem refusesSpawn_congr {after : Machine} (h : after.untouched = m.untouched) :
    after.refusesSpawn = m.refusesSpawn := by
  change after.untouched.refusesSpawn = m.untouched.refusesSpawn
  rw [h]

/-- What asking for a server comes to: the fleet is as before, and a server that is given is an idle
client. -/
structure Serves (kept : ServerSpec → Connection → Prop) (m : Machine) (registry : Registry)
    (spec : ServerSpec) (outcome : Except Failure Nat) (after : Station) : Prop where
  continues : m.Continues after.machine
  serving : after.IsServing kept
  registry : after.fleet.registry = registry
  client : ∀ pid, outcome = .ok pid → after.fleet.clients.get? spec.key = some pid ∧
    ∃ c, after.machine.connection? pid = some c ∧ c.IsIdle ∧ kept spec c

structure Suits (kept : ServerSpec → Connection → Prop) (m : Machine) (spec : ServerSpec)
    (new : Connection) : Prop where
  endures : new.behaviour.Endures
  starts : ∀ c, m.refusesSpawn = false → new.Starts c → kept spec c

theorem serves_launch (h : Station.IsServing kept ⟨m, f⟩) (hpersists : Persists kept)
    (hspec : f.registry.get? spec.key = some spec)
    (hsuits : Suits kept m spec (m.newConnection (spec.launchCommand (some executable)) spec))
    (path : Path) :
    ∃ outcome after, (launch spec executable path).run ⟨m, f⟩ = (outcome, after) ∧
      Serves kept m f.registry spec outcome after ∧
      (m.refusesSpawn = false →
        (m.newConnection (spec.launchCommand (some executable)) spec).behaviour.Welcomes →
        ∀ root, findProjectRoot m path rootMarkers = .ok root → ∃ pid, outcome = .ok pid) := by
  obtain ⟨outcome, after, hrun, hlaunches, hwelcome⟩ := launch_run h.rest hsuits.endures
  refine ⟨outcome, after, hrun, ?_, hwelcome⟩
  cases hlaunches with
  | failed hcontinues hrest =>
    exact ⟨hcontinues, h.of_continues hpersists hcontinues hrest, rfl, nofun⟩
  | @started after started c hspawns hcontinues hrest hc hstarts =>
    have hkept := hsuits.starts c hspawns hstarts
    refine ⟨hcontinues, ?_, rfl, ?_⟩
    · exact (h.of_continues hpersists hcontinues hrest).withStarted hspec hc hkept hstarts.idle
    · rintro pid ⟨⟩
      exact ⟨Members.get?_set_self .., c, hc, hstarts.idle, hkept⟩

/-- An idle client of a key's server is the one that is given. -/
theorem start_idle {pid : Nat} {c : Connection} (hkey : f.clients.get? spec.key = some pid)
    (hc : m.connection? pid = some c) (hidle : c.IsIdle) (executable : LooseText) (path : Path) :
    (start spec executable path).run ⟨m, f⟩ = (.ok pid, ⟨m, f⟩) := by
  have hclient : (client? spec.key).run ⟨m, f⟩ = (.ok (some pid), ⟨m, f⟩) := by
    rw [← hkey]
    rfl
  have halive : IsAlive pid m := ⟨c, hc, hidle.unnoticed, hidle.running⟩
  rw [start, run_bind_ok hclient]
  exact run_bind_ok (onMachine_run (checkAlive_of_isAlive halive) f) _

/-- The server for a key whose client is idle or has ended, or that has no client, is idle when
there is one. There is one when it answers. -/
theorem serves_start (h : Station.IsServing kept ⟨m, f⟩) (hpersists : Persists kept)
    (hspec : f.registry.get? spec.key = some spec)
    (hsuits : Suits kept m spec (m.newConnection (spec.launchCommand (some executable)) spec))
    (path : Path) :
    ∃ outcome after, (start spec executable path).run ⟨m, f⟩ = (outcome, after) ∧
      Serves kept m f.registry spec outcome after ∧
      (m.refusesSpawn = false →
        (m.newConnection (spec.launchCommand (some executable)) spec).behaviour.Welcomes →
        ∀ root, findProjectRoot m path rootMarkers = .ok root → ∃ pid, outcome = .ok pid) := by
  have hclient : (client? spec.key).run ⟨m, f⟩ = (.ok (f.clients.get? spec.key), ⟨m, f⟩) := rfl
  cases hkey : f.clients.get? spec.key with
  | none =>
    rw [hkey] at hclient
    rw [start, run_bind_ok hclient]
    exact serves_launch h hpersists hspec hsuits path
  | some pid =>
    rw [hkey] at hclient
    obtain ⟨found, c, hfound, hc, hkept, hstate⟩ := h.clients spec.key pid hkey
    obtain rfl := Option.some.inj (hspec.symm.trans hfound)
    rcases hstate with hidle | hexited
    · refine ⟨.ok pid, ⟨m, f⟩, start_idle hkey hc hidle executable path,
        ⟨(Stays.refl m).continues, h, rfl, ?_⟩, fun _ _ _ _ => ⟨pid, rfl⟩⟩
      rintro _ ⟨⟩
      exact ⟨hkey, c, hc, hidle, hkept⟩
    · obtain ⟨checked, c', hchecked, hnoticed, hsame, hc', hexited'⟩ := checkAlive_exited hc hexited
      obtain ⟨logged, hlogged⟩ := log_run .info
        s!"LSP server '{spec.key}' has exited, restarting..." checked f
      obtain ⟨stopped, hstop, hstopped, hturns⟩ :=
        stop_exited (m := checked.withJournal logged) hkey hc' hexited'
      have hstays : m.Stays stopped := (hnoticed.trans (.withJournal logged _)).trans hstopped
      have hcontinues := hstays.continues
      have hserving := (h.of_continues hpersists hcontinues
        (h.rest.of_stays hstays (by rw [hturns.trans hsame]; exact h.rest.tasks))).without spec.key
      have hnew : stopped.newConnection (spec.launchCommand (some executable)) spec =
          m.newConnection (spec.launchCommand (some executable)) spec :=
        newConnection_congr hstays.untouched _ spec
      have hspawns : stopped.refusesSpawn = m.refusesSpawn :=
        refusesSpawn_congr hstays.untouched
      obtain ⟨outcome, after, hrun, hserves, hwelcome⟩ := serves_launch hserving hpersists
        hspec (by rw [hnew]; exact ⟨hsuits.endures, by rw [hspawns]; exact hsuits.starts⟩) path
      refine ⟨outcome, after, ?_, ⟨hcontinues.trans hserves.continues,
        hserves.serving, hserves.registry, hserves.client⟩, ?_⟩
      · rw [start, run_bind_ok hclient]
        exact (run_bind_ok (onMachine_run hchecked f) _).trans ((run_bind_ok hlogged _).trans
          ((run_bind_ok hstop _).trans hrun))
      rw [← hspawns, ← hnew, ← findProjectRoot_congr hstays.untouched path rootMarkers]
      exact hwelcome

/-- The server for a file is an idle client, if there is one. There is one when it is welcome. -/
theorem serves_serverFor {s : Station} (h : s.IsServing kept) (hpersists : Persists kept)
    (hsuits : ∀ spec new, s.Offers path spec new → Suits kept s.machine spec new) :
    ∃ outcome after, (serverFor path).run s = (outcome, after) ∧
      s.machine.Continues after.machine ∧ after.IsServing kept ∧
      after.fleet.registry = s.fleet.registry ∧
      (∀ pid, outcome = .ok (some pid) → ∃ spec new c, s.Offers path spec new ∧
        after.fleet.clients.get? spec.key = some pid ∧
        after.machine.connection? pid = some c ∧ c.IsIdle ∧ kept spec c) ∧
      (s.Welcomes path → ∃ pid, outcome = .ok (some pid)) := by
  obtain ⟨m, f⟩ := s
  obtain ⟨journal, hlogged⟩ := comes_debug (Station.logTexts ⟨m, f⟩ [path]) m
  have hsame := Stays.withJournal journal m
  have hserving := h.of_continues hpersists hsame.continues (h.rest.of_stays hsame h.rest.tasks)
  rw [serverFor, run_bind_ok (run_get (⟨m, f⟩ : Station)),
    run_bind_ok (onMachine_run hlogged f)]
  cases hprospect : Station.prospect ⟨m, f⟩ path with
  | installed spec executable =>
    have hspec := h.keyed.get?_of_forFile? (Station.forFile?_of_prospect hprospect)
    have hsuited : Suits kept (m.withJournal journal) spec ((m.withJournal journal).newConnection
        (spec.launchCommand (some executable)) spec) := by
      obtain ⟨hendures, hstarts⟩ := hsuits spec _ ⟨executable, hprospect, rfl⟩
      exact ⟨hendures, hstarts⟩
    obtain ⟨outcome, after, hrun, hserves, hwelcome⟩ :=
      serves_start hserving hpersists hspec hsuited path
    refine ⟨outcome.map some, after, ?_, hsame.continues.trans hserves.continues, hserves.serving,
      hserves.registry, ?_, ?_⟩
    · change (some <$> start spec executable path).run _ = _
      rw [map_eq_pure_bind, run_bind, hrun]
      cases outcome <;> rfl
    · intro pid hpid
      cases outcome with
      | error failure => cases hpid
      | ok found =>
        obtain rfl : found = pid := Option.some.inj (Except.ok.inj hpid)
        obtain ⟨hkey, c, hc, hidle, hkept⟩ := hserves.client found rfl
        exact ⟨spec, _, c, ⟨executable, hprospect, rfl⟩, hkey, hc, hidle, hkept⟩
    · rintro ⟨_, _, root, ⟨_, hoffers, rfl⟩, hspawns, hanswers, hroot⟩
      cases hprospect.symm.trans hoffers
      obtain ⟨pid, rfl⟩ := hwelcome hspawns hanswers root hroot
      exact ⟨pid, rfl⟩
  | unknown | notInstalled spec =>
    refine ⟨.ok none, ⟨m.withJournal journal, f⟩, rfl, hsame.continues, hserving, rfl, nofun, ?_⟩
    rintro ⟨_, _, root, ⟨_, hoffers, rfl⟩, -⟩
    cases hprospect.symm.trans hoffers

/-- An idle client of the file's server is the one that is given. -/
theorem serverFor_idle {executable : LooseText} {pid : Nat} {c : Connection}
    (hprospect : Station.prospect ⟨m, f⟩ path = .installed spec executable)
    (hkey : f.clients.get? spec.key = some pid) (hc : m.connection? pid = some c)
    (hidle : c.IsIdle) :
    ∃ journal, (serverFor path).run ⟨m, f⟩ = (.ok (some pid), ⟨m.withJournal journal, f⟩) := by
  obtain ⟨journal, hlogged⟩ := comes_debug (Station.logTexts ⟨m, f⟩ [path]) m
  refine ⟨journal, ?_⟩
  rw [serverFor, run_bind_ok (run_get (⟨m, f⟩ : Station)),
    run_bind_ok (onMachine_run hlogged f), hprospect]
  change (some <$> start spec executable path).run ⟨m.withJournal journal, f⟩ = _
  rw [map_eq_pure_bind]
  exact run_bind_ok (start_idle (m := m.withJournal journal) hkey hc hidle executable path) _

end Fleet

end ProjectCheck
