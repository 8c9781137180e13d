import ProjectCheck.Proofs.Server.Account

/-!
What the operations of a fleet do to its account and its entries. Starting, stopping and looking for
a server keep every process accounted for, whether they fail or not, and only change the entries of
the keys that they are about.
-/
namespace ProjectCheck

open Run Machine

def Registry.IsFor (registry : Registry) (path : Path) (key : LooseText) : Prop :=
  ∃ spec, registry.forFile? path = some spec ∧ spec.key = key

namespace Fleet

structure SameBut (concerned : LooseText → Prop) (f after : Fleet) : Prop where
  registry : after.registry = f.registry
  clients : ∀ key, ¬ concerned key → after.clients.get? key = f.clients.get? key
  running : ∀ key, ¬ concerned key → after.running.get? key = f.running.get? key

variable {concerned : LooseText → Prop} {f between after : Fleet}

theorem SameBut.refl (concerned : LooseText → Prop) (f : Fleet) : SameBut concerned f f :=
  ⟨rfl, fun _ _ => rfl, fun _ _ => rfl⟩

theorem SameBut.of_eq (h : after = f) : SameBut concerned f after := h ▸ .refl concerned f

theorem SameBut.trans (h : SameBut concerned f between) (hnext : SameBut concerned between after) :
    SameBut concerned f after :=
  ⟨hnext.registry.trans h.registry,
    fun key hkey => (hnext.clients key hkey).trans (h.clients key hkey),
    fun key hkey => (hnext.running key hkey).trans (h.running key hkey)⟩

theorem SameBut.mono (h : SameBut concerned f after) {more : LooseText → Prop}
    (hmore : ∀ key, concerned key → more key) : SameBut more f after :=
  ⟨h.registry, fun key hkey => h.clients key fun hc => hkey (hmore key hc),
    fun key hkey => h.running key fun hc => hkey (hmore key hc)⟩

theorem ne_of_concerned {key other : LooseText} (hkey : concerned key)
    (hother : ¬ concerned other) :
    other ≠ key := by
  rintro rfl
  exact hother hkey

theorem sameBut_without {key : LooseText} (hkey : concerned key) (f : Fleet) :
    SameBut concerned f (f.without key) := by
  refine ⟨rfl, ?_, ?_⟩
  · intro other hother
    exact Members.get?_erase_of_ne (ne_of_concerned hkey hother) _
  · intro other hother
    exact Members.get?_erase_of_ne (ne_of_concerned hkey hother) _

theorem sameBut_withStarted {key : LooseText} (hkey : concerned key) (started : Started)
    (f : Fleet) :
    SameBut concerned f (f.withStarted key started) := by
  refine ⟨rfl, ?_, ?_⟩
  · intro other hother
    exact Members.get?_set_of_ne (ne_of_concerned hkey hother) _ _
  · intro other hother
    exact Members.get?_set_of_ne (ne_of_concerned hkey hother) _ _

end Fleet

namespace Station

variable {opening : Machine} {pid : Nat} {loose : Option Nat} {s : Station}
  {kind : Connection → Prop} {α : Type} {step : Run Machine α}

/-! Steps that are told by their results. -/

def logged (level : Level) (text : String) (s : Station) : Station :=
  { s with machine := { s.machine with
      journal := { s.machine.journal with logs := s.machine.journal.logs ++ [(level, text)] } } }

theorem run_log (level : Level) (text : String) (s : Station) :
    (Fleet.log level text).run s = (.ok ⟨⟩, s.logged level text) := rfl

theorem run_client? (key : LooseText) (s : Station) :
    (Fleet.client? key).run s = (.ok (s.fleet.clients.get? key), s) := rfl

theorem run_forget (key : LooseText) (s : Station) :
    (Fleet.forget key).run s = (.ok ⟨⟩, { s with fleet := s.fleet.without key }) := rfl

theorem run_keep (key : LooseText) (started : Started) (s : Station) :
    (Fleet.keep key started).run s =
      (.ok ⟨⟩, { s with fleet := s.fleet.withStarted key started }) := rfl

theorem Accounted.logged (h : s.Accounted opening loose) (level : Level) (text : String) :
    (s.logged level text).Accounted opening loose :=
  h.of_calmly (lenient_calmly.quiet rfl rfl)

theorem Loose.logged (h : s.Loose opening pid kind) (level : Level) (text : String)
    (hkind : ∀ c c', c.Calm c' → kind c → kind c') :
    (s.logged level text).Loose opening pid kind :=
  h.of_calmly (lenient_calmly.quiet rfl rfl) hkind

/-- Whether a process is alive is always found out, and only the machine may notice. -/
theorem ends_checkAlive (pid : Nat) (s : Station) :
    Ends (Fleet.onMachine (checkAlive pid)) s fun result after =>
      ∃ alive, result = .ok alive ∧ ∃ machine, after = { s with machine } ∧
        Calmly s.machine machine := by
  refine Ends.onMachine ((Machine.ends_checkAlive pid s.machine).mono ?_)
  intro result machine hchecked
  obtain ⟨alive, heq, hcalmly⟩ := hchecked
  exact ⟨alive, heq, machine, rfl, hcalmly⟩

/-! Stopping. -/

theorem Loose.ends_shutDown (h : s.Loose opening pid Connection.IsReady) :
    Ends (Fleet.onMachine (Fleet.shutDown pid)) s fun _ after =>
      after.fleet = s.fleet ∧ after.Loose opening pid fun _ => True := by
  refine Ends.onMachine ((Machine.talks_shutDown h.accounted.faithful h.has).mono ?_)
  rintro _ machine ⟨htalked, -⟩
  have hhas : machine.Has pid fun _ => True :=
    htalked.has (h.has.mono fun _ _ => trivial) fun _ _ _ h => h
  exact ⟨rfl, h.of_talked htalked hhas⟩

/-- A client that is loose is asked to shut down, and that never fails. -/
theorem Loose.ends_dismiss (h : s.Loose opening pid Connection.IsReady) (key : LooseText) :
    Ends (Fleet.dismiss key pid) s fun result after => ∃ done, result = .ok done ∧
      after.fleet = s.fleet ∧ after.Loose opening pid fun _ => True := by
  refine Ends.bind_ok (ends_checkAlive pid s) fun alive checked hchecked => ?_
  obtain ⟨machine, rfl, hcalmly⟩ := hchecked
  have hloose := h.of_calmly hcalmly stands_of_calm
  split
  · refine Ends.bind_ok hloose.ends_shutDown.attempt fun result asked hasked => ?_
    obtain ⟨hfleet, hasked⟩ := hasked
    split
    · exact ⟨_, rfl, hfleet, hasked⟩
    · exact ⟨_, rfl, hfleet, hasked.logged _ _ fun _ _ _ h => h⟩
  · exact ⟨_, rfl, rfl, hloose.mono fun _ _ => trivial⟩

theorem Loose.ends_terminate (h : s.Loose opening pid kind) :
    Ends (Fleet.onMachine (terminate pid)) s fun result after => ∃ done, result = .ok done ∧
      after.fleet = s.fleet ∧ after.Accounted opening none := by
  refine Ends.onMachine ((Machine.ends_terminate h.accounted.faithful h.has).mono ?_)
  intro result machine hterminated
  obtain ⟨done, heq, htalked, hdone⟩ := hterminated
  have hloose := h.of_talked htalked hdone
  exact ⟨done, heq, rfl, hloose.done⟩

/-- Stopping takes the entries of the key away, and the process that had them is done. -/
theorem Accounted.ends_stop (h : s.Accounted opening none) (key : LooseText) :
    Ends (Fleet.stop key) s fun result after => ∃ done, result = .ok done ∧
      after.fleet = s.fleet.without key ∧ after.Accounted opening none := by
  refine Ends.bind_of_run (run_client? key s) ?_
  refine Ends.bind_of_run (run_forget key s) ?_
  cases hkey : s.fleet.clients.get? key with
  | none => exact ⟨_, rfl, rfl, h.forget_none hkey⟩
  | some pid =>
    have hready := (h.forget hkey).mono fun _ h => h.ready
    refine Ends.bind_of_run (run_log _ _ _) ?_
    have hlogged := hready.logged .info s!"Stopping LSP server: {key}" stands_of_calm
    refine Ends.bind_ok (hlogged.ends_dismiss key) fun _ dismissed hdismissed => ?_
    obtain ⟨hfleet, hloose⟩ := hdismissed
    refine Ends.bind_ok hloose.ends_terminate fun _ ended hended => ?_
    obtain ⟨hsame, haccounted⟩ := hended
    exact ⟨_, rfl, hsame.trans hfleet, haccounted.logged _ _⟩

theorem Accounted.ends_stops (h : s.Accounted opening none) (keys : List LooseText) :
    Ends (keys.forM Fleet.stop) s fun result after => ∃ done, result = .ok done ∧
      after.Accounted opening none ∧ ∀ key, after.fleet.clients.get? key =
        if key ∈ keys then none else s.fleet.clients.get? key := by
  induction keys generalizing s with
  | nil => exact ⟨_, rfl, h, fun _ => rfl⟩
  | cons key rest ih =>
    refine Ends.bind_ok (h.ends_stop key) fun _ stopped hstopped => ?_
    refine (ih hstopped.2).mono fun result after hafter => ?_
    obtain ⟨done, hdone, haccounted, hkeys⟩ := hafter
    refine ⟨done, hdone, haccounted, ?_⟩
    intro other
    rw [hkeys, hstopped.1, Fleet.without]
    by_cases hother : other = key
    · rw [hother, Members.get?_erase_self, ite_self, if_pos (List.mem_cons_self ..)]
    · rw [Members.get?_erase_of_ne hother]
      simp only [List.mem_cons, hother, false_or]

/-- Stopping all leaves no client. -/
theorem Accounted.ends_stopAll (h : s.Accounted opening none) :
    Ends Fleet.stopAll s fun result after => ∃ done, result = .ok done ∧
      after.Accounted opening none ∧ ∀ key, after.fleet.clients.get? key = none := by
  refine Ends.get_bind ((h.ends_stops s.fleet.clients.names).mono fun result after hafter => ?_)
  obtain ⟨done, hdone, haccounted, hkeys⟩ := hafter
  refine ⟨done, hdone, haccounted, ?_⟩
  intro key
  rw [hkeys]
  split
  · rfl
  · rwa [Members.get?_eq_none_iff]

/-! Starting. -/

theorem Accounted.ends_spawn (h : s.Accounted opening none) (command : List LooseText)
    (spec : ServerSpec) :
    Ends (Fleet.onMachine (spawn command spec)) s fun result after => after.fleet = s.fleet ∧
      match result with
      | .ok pid => after.Loose opening pid fun c => c.Stands .fresh 0 ∧ c.session.spec = some spec
      | .error _ => after.Accounted opening none := by
  refine Ends.onMachine ((Machine.ends_spawn h.faithful command spec).mono ?_)
  intro result machine hspawned
  refine ⟨rfl, ?_⟩
  cases result with
  | error failure =>
    obtain rfl : machine = s.machine := hspawned
    exact h
  | ok pid =>
    obtain ⟨hfaithful, rfl, hconnections⟩ := hspawned
    exact h.spawned hfaithful hconnections

/-- A process that was just started is ready for documents or none of the clients' business. -/
theorem Loose.ends_greet {spec : ServerSpec}
    (h : s.Loose opening pid fun c => c.Stands .fresh 0 ∧ c.session.spec = some spec)
    (path : Path) :
    Ends (Fleet.onMachine (Fleet.greet pid path)) s fun result after => after.fleet = s.fleet ∧
      match result with
      | .ok _ => after.Loose opening pid (Connection.Serves spec.key)
      | .error _ => after.Loose opening pid fun _ => True := by
  have hfresh := h.has.mono fun _ h => h.1
  refine Ends.onMachine ((Machine.talks_greet h.accounted.faithful hfresh path).mono ?_)
  intro result machine hgreeted
  obtain ⟨htalked, hready⟩ := hgreeted
  have hspec : machine.Has pid fun c => c.session.spec = some spec :=
    htalked.has (h.has.mono fun _ h => h.2) fun _ _ hkin hspec => hkin.spec.trans hspec
  refine ⟨rfl, ?_⟩
  cases result with
  | error failure => exact h.of_talked htalked (hspec.mono fun _ _ => trivial)
  | ok said =>
    obtain ⟨c, hc, hready⟩ := hready said rfl
    obtain ⟨c', hc', hspec⟩ := hspec
    obtain rfl := Option.some.inj (hc.symm.trans hc')
    have hserves : c.Serves spec.key := ⟨hready, congrArg (Option.map (·.key)) hspec⟩
    exact h.of_talked htalked ⟨c, hc, hserves⟩

/-- A server of a key was looked for: all is accounted for, no entries of other keys have changed,
and the process that was found is the client of the key. -/
structure Served (opening : Machine) (key : LooseText) (s : Station) (result : Except Failure Nat)
    (after : Station) : Prop where
  accounted : after.Accounted opening none
  sameBut : s.fleet.SameBut (· = key) after.fleet
  client : ∀ pid, result = .ok pid → after.fleet.clients.get? key = some pid

/-- Where nobody was found the tables are as they were. -/
theorem Accounted.served_nobody {after : Station} (h : after.Accounted opening none)
    (hfleet : after.fleet = s.fleet) (key : LooseText) (failure : Failure) :
    Served opening key s (.error failure) after where
  accounted := h
  sameBut := .of_eq hfleet
  client := by
    intro pid heq
    cases heq

/-- A server that is launched becomes the client of its key, or it is ended. -/
theorem Accounted.ends_launch (h : s.Accounted opening none) {spec : ServerSpec}
    (hkey : s.fleet.clients.get? spec.key = none) (executable : LooseText) (path : Path) :
    Ends (Fleet.launch spec executable path) s (Served opening spec.key s) := by
  refine Ends.bind_of_run (run_log _ _ _) ?_
  have hlogged := h.logged .info s!"Starting LSP server: {spec.key}"
  refine Ends.bind_of (hlogged.ends_spawn _ spec) (fun pid spawned hspawned => ?_)
    fun failure after hspawned => Accounted.served_nobody (s := s) hspawned.2 hspawned.1 _ failure
  obtain ⟨hfleet, hloose⟩ := hspawned
  refine Ends.bind_ok (hloose.ends_greet path).attempt fun result greeted hgreeted => ?_
  obtain ⟨hsame, hresult⟩ := hgreeted
  cases result with
  | ok said =>
    have hnone : greeted.fleet.clients.get? spec.key = none := by rwa [hsame, hfleet]
    have hkept := hresult.keep hnone said.asObject?
    refine Ends.bind_of_run (run_keep _ _ _) (Ends.bind_of_run (run_log _ _ _) (Ends.pure ?_))
    refine ⟨hkept.logged _ _, ?_, ?_⟩
    · have hunchanged : s.fleet.SameBut (· = spec.key) greeted.fleet := .of_eq (hsame.trans hfleet)
      exact hunchanged.trans (Fleet.sameBut_withStarted (by rfl) _ _)
    · intro found heq
      obtain rfl := Except.ok.inj heq
      exact Members.get?_set_self _ _ _
  | error failure =>
    refine Ends.bind_of_run (run_log _ _ _) ?_
    have hlogged := hresult.logged .warning s!"LSP server '{spec.key}' failed to initialize"
      fun _ _ _ h => h
    refine Ends.bind_ok hlogged.ends_terminate fun _ ended hended => ?_
    obtain ⟨hkept, haccounted⟩ := hended
    have hunchanged : ended.fleet = s.fleet := hkept.trans (hsame.trans hfleet)
    exact Ends.fail (haccounted.served_nobody hunchanged _ failure)

/-- A server is looked for that is running, has ended or was never started. -/
theorem Accounted.ends_start (h : s.Accounted opening none) (spec : ServerSpec)
    (executable : LooseText) (path : Path) :
    Ends (Fleet.start spec executable path) s (Served opening spec.key s) := by
  refine Ends.bind_of_run (run_client? spec.key s) ?_
  cases hkey : s.fleet.clients.get? spec.key with
  | none => exact h.ends_launch hkey executable path
  | some pid =>
    refine Ends.bind_ok (ends_checkAlive pid s) fun alive checked hchecked => ?_
    obtain ⟨machine, rfl, hcalmly⟩ := hchecked
    have hchecked := h.of_calmly hcalmly
    split
    · refine Ends.pure ⟨hchecked, .refl _ s.fleet, ?_⟩
      intro found heq
      obtain rfl := Except.ok.inj heq
      exact hkey
    · refine Ends.bind_of_run (run_log _ _ _) ?_
      have hlogged := hchecked.logged .info s!"LSP server '{spec.key}' has exited, restarting..."
      refine Ends.bind_ok (hlogged.ends_stop spec.key) fun _ stopped hstopped => ?_
      obtain ⟨hwithout, haccounted⟩ := hstopped
      have hnone : stopped.fleet.clients.get? spec.key = none := by
        rw [hwithout]
        exact Members.get?_erase_self _ _
      have hsame : s.fleet.SameBut (· = spec.key) stopped.fleet := by
        rw [hwithout]
        exact Fleet.sameBut_without (by rfl) s.fleet
      refine (haccounted.ends_launch hnone executable path).mono fun result after hserved => ?_
      exact ⟨hserved.accounted, hsame.trans hserved.sameBut, hserved.client⟩

/-! Looking for the servers of files. -/

theorem isFor_of_prospect {path : Path} {spec : ServerSpec} {executable : LooseText}
    (h : s.prospect path = .installed spec executable) : s.fleet.registry.IsFor path spec.key := by
  unfold prospect at h
  split at h
  · cases h
  · rename_i found hfound
    split at h <;> cases h
    exact ⟨_, hfound, rfl⟩

def Keeps (opening : Machine) (registry : Registry) (concerned : LooseText → Prop)
    (s after : Station) : Prop :=
  s.fleet.registry = registry → s.Accounted opening none →
    after.Accounted opening none ∧ s.fleet.SameBut concerned after.fleet

variable {registry : Registry} {concerned : LooseText → Prop}

theorem steady_keeps (opening : Machine) (registry : Registry) (concerned : LooseText → Prop) :
    Steady (Keeps opening registry concerned) where
  refl := fun s _ h => ⟨h, .refl concerned s.fleet⟩
  trans := by
    intro s between after h hnext hregistry haccounted
    obtain ⟨hbetween, hsame⟩ := h hregistry haccounted
    obtain ⟨hafter, hsame'⟩ := hnext (hsame.registry.trans hregistry) hbetween
    exact ⟨hafter, hsame.trans hsame'⟩

theorem keeps_calm (hstep : Moves Calmly step s.machine) :
    Moves (Keeps opening registry concerned) (Fleet.onMachine step) s := by
  apply Moves.onMachine hstep
  intro machine hcalmly _ h
  exact ⟨h.of_calmly hcalmly, .refl concerned s.fleet⟩

theorem keeps_stop {key : LooseText} (hkey : concerned key) :
    Moves (Keeps opening registry concerned) (Fleet.stop key) s := by
  intro _ h
  obtain ⟨done, -, hfleet, haccounted⟩ := h.ends_stop key
  refine ⟨haccounted, ?_⟩
  rw [hfleet]
  exact Fleet.sameBut_without hkey _

theorem keeps_stopAll : Moves (Keeps opening registry fun _ => True) Fleet.stopAll s :=
  Moves.get_bind (Moves.forM (steady_keeps _ _ _) (fun _ _ _ => keeps_stop trivial) s)

/-- The process that is found for a file is a client. -/
theorem Accounted.ends_server (h : s.Accounted opening none) (path : Path) {prospect : Prospect}
    (hprospect : ∀ spec executable, prospect = .installed spec executable → concerned spec.key) :
    Ends (prospect.server path) s fun result after => after.Accounted opening none ∧
      s.fleet.SameBut concerned after.fleet ∧
      ∀ pid, result = .ok (some pid) → ∃ key, after.fleet.clients.get? key = some pid := by
  cases prospect with
  | unknown | notInstalled => exact ⟨h, .refl concerned s.fleet, nofun⟩
  | installed spec executable =>
    refine Ends.map ((h.ends_start spec executable path).mono fun result after hserved => ?_)
    refine ⟨hserved.accounted, hserved.sameBut.mono ?_, ?_⟩
    · rintro key rfl
      exact hprospect spec executable rfl
    · intro pid hpid
      cases result with
      | error failure => cases hpid
      | ok found =>
        obtain rfl : found = pid := Option.some.inj (Except.ok.inj hpid)
        exact ⟨spec.key, hserved.client found rfl⟩

/-- The process that is found for a file is a client, and all stays accounted for. -/
theorem Accounted.ends_serverFor (h : s.Accounted opening none) (path : Path) :
    Ends (Fleet.serverFor path) s fun result after => after.Accounted opening none ∧
      s.fleet.SameBut (s.fleet.registry.IsFor path) after.fleet ∧
      ∀ pid, result = .ok (some pid) → ∃ key, after.fleet.clients.get? key = some pid := by
  have hlogged : Ends (Fleet.onMachine (debug (s.logTexts [path]))) s fun _ after =>
      after.Accounted opening none ∧ after.fleet = s.fleet := by
    refine Ends.onMachine (Ends.mono (lenient_calmly.moves_debug _ s.machine) ?_)
    intro _ machine hcalmly
    exact ⟨h.of_calmly hcalmly, rfl⟩
  refine Ends.get_bind (Ends.bind_of hlogged (fun _ logged hafter => ?_)
    fun failure after hafter => ⟨hafter.1, .of_eq hafter.2, nofun⟩)
  obtain ⟨haccounted, hfleet⟩ := hafter
  have hprospect : ∀ spec executable, s.prospect path = .installed spec executable →
      s.fleet.registry.IsFor path spec.key := fun _ _ => isFor_of_prospect
  refine (haccounted.ends_server path hprospect).mono fun result after hserved => ?_
  obtain ⟨hafter, hsame, hclient⟩ := hserved
  exact ⟨hafter, (Fleet.SameBut.of_eq hfleet).trans hsame, hclient⟩

theorem keeps_serverFor {path : Path} (hpath : ∀ key, registry.IsFor path key → concerned key) :
    Moves (Keeps opening registry concerned) (Fleet.serverFor path) s := by
  intro hregistry h
  obtain ⟨hafter, hsame, -⟩ := h.ends_serverFor path
  exact ⟨hafter, hsame.mono (hregistry ▸ hpath)⟩

/-- The server for a file, when what is known of it stays true. -/
theorem keeps_server {path : Path} (hpath : ∀ key, registry.IsFor path key → concerned key)
    (known : Station) (hknown : known.fleet.registry = registry) :
    Moves (Keeps opening registry concerned) ((known.prospect path).server path) s := by
  intro _ h
  have hprospect : ∀ spec executable, known.prospect path = .installed spec executable →
      concerned spec.key := by
    intro spec executable hspec
    apply hpath
    rw [← hknown]
    exact isFor_of_prospect hspec
  obtain ⟨hafter, hsame, -⟩ := h.ends_server path hprospect
  exact ⟨hafter, hsame⟩

/-- What is kept is only asked of stations with the registry. -/
theorem keeps_of_registry {β : Type} {step : Run Station β}
    (h : s.fleet.registry = registry → Moves (Keeps opening registry concerned) step s) :
    Moves (Keeps opening registry concerned) step s := by
  intro hregistry
  exact h hregistry hregistry

theorem keeps_serverInTurn {path : Path} (hpath : ∀ key, registry.IsFor path key → concerned key) :
    Moves (Keeps opening registry concerned) (Fleet.serverInTurn path) s := by
  have hR := steady_keeps opening registry concerned
  refine keeps_of_registry fun hregistry => Moves.get_bind ?_
  refine Moves.bind hR ?_ fun _ after => Moves.attempt (keeps_server hpath s hregistry)
  unfold Fleet.awaitTurn
  split
  · exact Moves.bind hR (keeps_calm (lenient_calmly.moves_due _ _)) fun _ after =>
      keeps_calm (calmly_giveWay _)
  · exact hR.refl s

theorem keeps_serveAll {paths : List Path}
    (hpaths : ∀ path ∈ paths, ∀ key, registry.IsFor path key → concerned key) :
    Moves (Keeps opening registry concerned) (Fleet.serveAll paths) s := by
  have hR := steady_keeps opening registry concerned
  induction paths generalizing s with
  | nil => exact hR.refl s
  | cons path rest ih =>
    have hpath := hpaths path (List.mem_cons_self ..)
    have hrest : ∀ other ∈ rest, ∀ key, registry.IsFor other key → concerned key :=
      fun other hmem => hpaths other (List.mem_cons_of_mem path hmem)
    refine keeps_of_registry fun hregistry => Moves.get_bind ?_
    refine Moves.bind hR (keeps_calm (lenient_calmly.moves_debug _ _)) fun _ first => ?_
    refine Moves.bind hR (keeps_calm (calmly_sayFirst _ _)) fun _ second => ?_
    refine Moves.bind hR (Moves.attempt (keeps_server hpath s hregistry)) fun server third => ?_
    refine Moves.bind hR (keeps_calm (calmly_takeBack _)) fun back fourth => ?_
    split
    · exact Moves.bind_pure hR (ih hrest)
    · have hturns : Moves (Keeps opening registry concerned)
          (rest.mapM Fleet.serverInTurn) fourth :=
        Moves.mapM hR (fun other hmem _ => keeps_serverInTurn (hrest other hmem)) fourth
      exact Moves.bind_pure hR hturns

theorem keeps_serversFor {paths : List Path}
    (hpaths : ∀ path ∈ paths, ∀ key, registry.IsFor path key → concerned key) :
    Moves (Keeps opening registry concerned) (Fleet.serversFor paths) s := by
  have hR := steady_keeps opening registry concerned
  refine Moves.bind hR (keeps_serveAll hpaths) fun _ first => ?_
  refine Moves.bind hR (keeps_calm (lenient_calmly.moves_due _ _)) fun _ second => ?_
  exact Moves.bind_pure hR (keeps_calm (calmly_giveWay _))

end Station

end ProjectCheck
