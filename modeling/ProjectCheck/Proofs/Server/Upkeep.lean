import Mathlib.Logic.ExistsUnique
import ProjectCheck.Proofs.Server.Fleet

/-!
A fleet over any sequence of actions. Whatever is asked of a fleet, however its servers behave and
whenever they end, its two tables have the same keys and processes, its clients were made ready, no
process is left alive that is not the client of exactly one key, and what is done for one key leaves
the others alone.
-/
namespace ProjectCheck

open Run Machine Message

def Machine.movedTo (surroundings m : Machine) : Machine :=
  { surroundings with
    connections := m.connections
    turns := m.turns
    awaited := m.awaited
    journal := m.journal }

def Machine.untouched (surroundings : Machine) : Machine :=
  { surroundings with connections := [], turns := [], awaited := none, journal := {} }

theorem Machine.faithful_untouched (surroundings : Machine) :
    surroundings.untouched.Faithful := by
  have hnone : ∀ pid, surroundings.untouched.connection? pid = none := by
    intro pid
    exact List.getElem?_nil
  constructor
  · intro pid c hc
    cases (hnone pid).symm.trans hc
  · intro pid
    rw [Machine.dialogue, hnone]
    rfl

namespace Fleet

/-- What happens to a fleet. Servers are looked for and stopped; meanwhile servers end, the tasks
that are due have their turns, time goes by and the surroundings change. -/
inductive Action where
  | get (path : Path)
  | getAll (paths : List Path)
  | stop (key : LooseText)
  | stopAll
  | ends (pid : Nat) (code : Int)
  | settle
  | sleep (seconds : Decimal.Binary64)
  | move (surroundings : Machine)

namespace Action

def step : Action → Run Station Unit
  | get path => do let _ ← serverFor path
  | getAll paths => do let _ ← serversFor paths
  | stop key => Fleet.stop key
  | stopAll => Fleet.stopAll
  | ends pid code => onMachine (endServer pid code)
  | settle => onMachine Machine.settle
  | sleep seconds => onMachine (Machine.sleep seconds)
  | move surroundings => onMachine (modify (Machine.movedTo surroundings))

def IsFor (registry : Registry) : Action → LooseText → Prop
  | get path => registry.IsFor path
  | getAll paths => fun key => ∃ path ∈ paths, registry.IsFor path key
  | stop key => (· = key)
  | stopAll => fun _ => True
  | ends _ _ | settle | sleep _ | move _ => fun _ => False

end Action

end Fleet

namespace Station

open Fleet

def fresh (surroundings : Machine) (registry : Registry) : Station where
  machine := surroundings.untouched
  fleet := { registry }

def after (s : Station) (actions : List Action) : Station :=
  actions.foldl (fun s action => (action.step.run s).2) s

/-- The tables of a fleet are in order: both have the same keys and processes, each client has said
that it is initialized when it was answered, and each process that is not done is the client of
exactly one key, so that no key has two of them. -/
structure InOrder (s : Station) : Prop where
  keys : s.fleet.running.names = s.fleet.clients.names
  distinct : s.fleet.clients.names.Nodup
  handles : ∀ key, s.fleet.clients.get? key = (s.fleet.running.get? key).map (·.pid)
  greeted : ∀ key pid, s.fleet.clients.get? key = some pid →
    ∃ c before rest, s.machine.connection? pid = some c ∧
      c.dialogue = before ++ .toServer initialized :: rest ∧ Dialogue.Greeted before
  claimed : ∀ pid c, s.machine.connection? pid = some c → ¬ c.IsDone →
    ∃! key, s.fleet.clients.get? key = some pid
  unique : ∀ key pid other c c', s.machine.connection? pid = some c →
    s.machine.connection? other = some c' → ¬ c.IsDone → ¬ c'.IsDone →
    c.session.spec.map (·.key) = some key → c'.session.spec.map (·.key) = some key → pid = other

variable {opening : Machine} {registry : Registry} {s : Station}

/-- What was done for a fleet keeps all accounted for and changes the entries of its keys only. -/
theorem keeps_step (action : Action) :
    Moves (Keeps opening registry (action.IsFor registry)) action.step s := by
  have hR := steady_keeps opening registry (action.IsFor registry)
  cases action with
  | get path =>
    have hpath : ∀ key, registry.IsFor path key → Action.IsFor registry (.get path) key :=
      fun _ h => h
    exact Moves.bind_pure hR (keeps_serverFor hpath)
  | getAll paths =>
    have hpaths : ∀ path ∈ paths, ∀ key, registry.IsFor path key →
        Action.IsFor registry (.getAll paths) key := fun path hmem _ hkey => ⟨path, hmem, hkey⟩
    exact Moves.bind_pure hR (keeps_serversFor hpaths)
  | stop key => exact keeps_stop rfl
  | stopAll => exact keeps_stopAll
  | ends pid code => exact keeps_calm (calmly_endServer pid code _)
  | settle => exact keeps_calm (calmly_giveWay _)
  | sleep seconds => exact keeps_calm (calmly_sleep seconds _)
  | move surroundings => exact keeps_calm (lenient_calmly.quiet rfl rfl)

theorem accounted_after (h : s.Accounted opening none) (actions : List Action) :
    (s.after actions).Accounted opening none ∧
      (s.after actions).fleet.registry = s.fleet.registry := by
  induction actions generalizing s with
  | nil => exact ⟨h, rfl⟩
  | cons action rest ih =>
    obtain ⟨hafter, hsame⟩ := keeps_step action rfl h
    obtain ⟨hrest, hregistry⟩ := ih hafter
    exact ⟨hrest, hregistry.trans hsame.registry⟩

/-- A dialogue of a server that is ready has the notification that it is, after the answer. -/
theorem exists_initialized {said : List Utterance} (h : Dialogue said .ready) :
    ∃ before rest, said = before ++ .toServer initialized :: rest ∧ Dialogue.Greeted before := by
  obtain ⟨params, documents, -, hwritten⟩ := h.written_of
  have hmem : initialized ∈ written said := by
    rw [hwritten]
    exact List.mem_cons_of_mem _ (List.mem_cons_self ..)
  obtain ⟨before, rest, rfl⟩ := List.append_of_mem (mem_written_iff.1 hmem)
  exact ⟨before, rest, rfl, h.orderly.greeted before rest rfl⟩

/-- On a machine on which nothing was started before, every process that is not done is a client. -/
theorem Accounted.exists_key (h : s.Accounted opening none) (hopening : opening.connections = [])
    {pid : Nat} {c : Connection} (hc : s.machine.connection? pid = some c) (hdone : ¬ c.IsDone) :
    ∃ key, s.fleet.clients.get? key = some pid := by
  have hbase : opening.connections.length ≤ pid := by
    rw [hopening]
    exact Nat.zero_le pid
  rcases h.claimed pid c hbase hc with hdone' | hloose | hclient
  · exact absurd hdone' hdone
  · cases hloose
  · exact hclient

/-- It is the client of the key of its server. -/
theorem Accounted.client_of_spec (h : s.Accounted opening none)
    (hopening : opening.connections = []) {key : LooseText} {pid : Nat} {c : Connection}
    (hc : s.machine.connection? pid = some c) (hdone : ¬ c.IsDone)
    (hspec : c.session.spec.map (·.key) = some key) : s.fleet.clients.get? key = some pid := by
  obtain ⟨found, hfound⟩ := h.exists_key hopening hc hdone
  obtain ⟨c', hc', hserves⟩ := h.serves found pid hfound
  obtain rfl := Option.some.inj (hc.symm.trans hc')
  obtain rfl := Option.some.inj (hserves.key_eq.symm.trans hspec)
  exact hfound

/-- Where all is accounted for the tables are in order. -/
theorem Accounted.inOrder (h : s.Accounted opening none) (hopening : opening.connections = []) :
    s.InOrder where
  keys := by rw [← h.handles, Members.names_map]
  distinct := h.distinct
  handles := by
    intro key
    rw [← h.handles, Members.get?_map]
  greeted := by
    intro key pid hkey
    obtain ⟨c, hc, hserves⟩ := h.serves key pid hkey
    obtain ⟨before, rest, heq, hgreeted⟩ := exists_initialized hserves.ready.dialogue
    exact ⟨c, before, rest, hc, heq, hgreeted⟩
  claimed := by
    intro pid c hc hdone
    obtain ⟨key, hkey⟩ := h.exists_key hopening hc hdone
    refine ⟨key, hkey, ?_⟩
    intro other hother
    exact h.key_unique hother hkey
  unique := by
    intro key pid other c c' hc hc' hdone hdone' hspec hspec'
    have hclient := h.client_of_spec hopening hc hdone hspec
    have hclient' := h.client_of_spec hopening hc' hdone' hspec'
    exact Option.some.inj (hclient.symm.trans hclient')

/-- However a fleet is used and whatever its servers do, its tables are in order after every action,
and an action changes no entries but those of the keys that it is for. -/
theorem inOrder_after (surroundings : Machine) (registry : Registry) (actions : List Action) :
    ((fresh surroundings registry).after actions).InOrder ∧
      ∀ (action : Action) (key : LooseText), ¬ action.IsFor registry key →
        ((fresh surroundings registry).after (actions ++ [action])).fleet.clients.get? key =
          ((fresh surroundings registry).after actions).fleet.clients.get? key ∧
        ((fresh surroundings registry).after (actions ++ [action])).fleet.running.get? key =
          ((fresh surroundings registry).after actions).fleet.running.get? key := by
  obtain ⟨haccounted, hregistry⟩ :=
    accounted_after (accounted_opened surroundings.faithful_untouched registry) actions
  refine ⟨haccounted.inOrder rfl, fun action key hkey => ?_⟩
  obtain ⟨-, hsame⟩ := keeps_step action hregistry haccounted
  have happend : (fresh surroundings registry).after (actions ++ [action]) =
      (action.step.run ((fresh surroundings registry).after actions)).2 := List.foldl_append ..
  rw [happend]
  exact ⟨hsame.clients key hkey, hsame.running key hkey⟩

def rustMachine : Machine :=
  { files := .directory [("main.rs", .file [])], workingDirectory := [],
    installed := ["rust-analyzer"] }

/-- The server for Rust files is left alone when the one for Go files is stopped. -/
theorem inOrder_after_stop_go :
    ((fresh rustMachine .builtin).after [.get (Path.ofText "/main.rs")]).InOrder ∧
      ((fresh rustMachine .builtin).after
        ([.get (Path.ofText "/main.rs")] ++ [.stop "go"])).fleet.clients.get? ("rust" : LooseText) =
      ((fresh rustMachine .builtin).after
        [.get (Path.ofText "/main.rs")]).fleet.clients.get? ("rust" : LooseText) := by
  obtain ⟨hinOrder, hkept⟩ := inOrder_after rustMachine .builtin [.get (Path.ofText "/main.rs")]
  have hother : ¬ Action.IsFor .builtin (.stop "go") "rust" :=
    show ¬ ("rust" : LooseText) = "go" by decide
  exact ⟨hinOrder, (hkept (.stop "go") "rust" hother).1⟩

end Station

end ProjectCheck
