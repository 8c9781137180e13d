import ProjectCheck.Proofs.Json.Members
import ProjectCheck.Proofs.Machine.Service

/-!
The account of a fleet. Every process that was started since the fleet was opened is done, or it is
the client of a key, or it is the one that is loose while it is started or stopped. The clients are
ready for documents, and what was started has their processes under the same keys. Nothing was said
to the processes that were there before.
-/
namespace ProjectCheck

open Run Machine

structure Connection.Serves (key : LooseText) (c : Connection) : Prop where
  ready : c.IsReady
  key_eq : c.session.spec.map (·.key) = some key

theorem Connection.Serves.of_calm {key : LooseText} {c after : Connection} (h : c.Serves key)
    (hcalm : c.Calm after) : after.Serves key :=
  ⟨Stands.of_calm h.ready hcalm, hcalm.spec ▸ h.key_eq⟩

namespace Station

/-- All processes since an opening are accounted for, but for the one that is loose, and those
before it were left alone. -/
structure Accounted (opening : Machine) (loose : Option Nat) (s : Station) : Prop where
  faithful : s.machine.Faithful
  before : ∀ pid c, opening.connection? pid = some c →
    ∃ c', s.machine.connection? pid = some c' ∧ c.Calm c'
  distinct : s.fleet.clients.names.Nodup
  handles : List.map (Prod.map id Started.pid) s.fleet.running = s.fleet.clients
  own : ∀ key pid, s.fleet.clients.get? key = some pid → opening.connections.length ≤ pid
  serves : ∀ key pid, s.fleet.clients.get? key = some pid →
    s.machine.Has pid (Connection.Serves key)
  claimed : ∀ pid c, opening.connections.length ≤ pid → s.machine.connection? pid = some c →
    c.IsDone ∨ loose = some pid ∨ ∃ key, s.fleet.clients.get? key = some pid

structure Loose (opening : Machine) (pid : Nat) (kind : Connection → Prop) (s : Station) :
    Prop where
  accounted : s.Accounted opening (some pid)
  own : opening.connections.length ≤ pid
  unclaimed : ∀ key, s.fleet.clients.get? key ≠ some pid
  has : s.machine.Has pid kind

variable {opening : Machine} {pid : Nat} {loose : Option Nat} {s after : Station}
  {kind : Connection → Prop} {key : LooseText}

theorem lt_length_of_connection? {m : Machine} {c : Connection} (h : m.connection? pid = some c) :
    pid < m.connections.length :=
  (List.getElem?_eq_some_iff.1 h).1

/-- A fleet that is opened has nothing to account for. -/
theorem accounted_opened {m : Machine} (hfaithful : m.Faithful) (registry : Registry) :
    Accounted m none ⟨m, { registry }⟩ where
  faithful := hfaithful
  before := fun _ c hc => ⟨c, hc, .refl c⟩
  distinct := List.nodup_nil
  handles := rfl
  own := nofun
  serves := nofun
  claimed := by
    intro other c hbase hc
    have hlt : other < m.connections.length := lt_length_of_connection? hc
    omega

/-! The machine goes on while the tables stay as they are. -/

/-- An account is kept when the processes from before the opening are left alone, the clients stay
ready, and a process without a claim had none before unless it is done. -/
theorem Accounted.withMachine (h : s.Accounted opening loose) {machine : Machine}
    {stillLoose : Option Nat} (hfaithful : machine.Faithful)
    (hbefore : ∀ other c, other < opening.connections.length →
      s.machine.connection? other = some c →
      ∃ c', machine.connection? other = some c' ∧ c.Calm c')
    (hserves : ∀ key pid, s.fleet.clients.get? key = some pid →
      s.machine.Has pid (Connection.Serves key) → machine.Has pid (Connection.Serves key))
    (hclaimed : ∀ other c', opening.connections.length ≤ other →
      machine.connection? other = some c' → c'.IsDone ∨ stillLoose = some other ∨
        (∃ key, s.fleet.clients.get? key = some other) ∨
        loose = stillLoose ∧
          ∃ c, s.machine.connection? other = some c ∧ (c.IsDone → c'.IsDone)) :
    Accounted opening stillLoose { s with machine } where
  faithful := hfaithful
  before := by
    intro other c hc
    obtain ⟨c₁, hc₁, hcalm₁⟩ := h.before other c hc
    obtain ⟨c₂, hc₂, hcalm₂⟩ := hbefore other c₁ (lt_length_of_connection? hc) hc₁
    exact ⟨c₂, hc₂, hcalm₁.trans hcalm₂⟩
  distinct := h.distinct
  handles := h.handles
  own := h.own
  serves := by
    intro key pid hkey
    exact hserves key pid hkey (h.serves key pid hkey)
  claimed := by
    intro other c' hbase hc'
    rcases hclaimed other c' hbase hc' with hdone | hloose | hclient | ⟨rfl, c, hc, hdone⟩
    · exact .inl hdone
    · exact .inr (.inl hloose)
    · exact .inr (.inr hclient)
    · exact (h.claimed other c hbase hc).imp_left hdone

/-- What is calm keeps the account. -/
theorem Accounted.of_calmly (h : s.Accounted opening loose) {machine : Machine}
    (hcalmly : Calmly s.machine machine) : Accounted opening loose { s with machine } := by
  obtain ⟨hfaithful, hcalm⟩ := hcalmly h.faithful
  apply h.withMachine hfaithful
  · intro other c _ hc
    exact hcalm.each other c hc
  · intro key pid _ hserves
    exact hcalm.has hserves fun _ _ hcalm h => h.of_calm hcalm
  · intro other c' _ hc'
    obtain ⟨c, hc, hcalm⟩ := hcalm.exists_before hc'
    have hdone : c.IsDone → c'.IsDone := fun h => h.of_calm hcalm
    exact .inr (.inr (.inr ⟨rfl, c, hc, hdone⟩))

/-- Talking with the process that is loose, or with a client that stays ready, keeps the account. -/
theorem Accounted.of_talked (h : s.Accounted opening loose) {machine : Machine}
    (htalked : Talked pid s.machine machine)
    (hready : ∀ key, s.fleet.clients.get? key = some pid → machine.Has pid Connection.IsReady)
    (hown : opening.connections.length ≤ pid)
    (hclaim : loose = some pid ∨ ∃ key, s.fleet.clients.get? key = some pid) :
    Accounted opening loose { s with machine } := by
  apply h.withMachine htalked.faithful
  · intro other c hlt hc
    obtain ⟨c', hc', -, hcalm⟩ := htalked.each other c hc
    have hother : other ≠ pid := by omega
    exact ⟨c', hc', hcalm hother⟩
  · intro key other hother hserves
    by_cases hpid : other = pid
    · subst hpid
      obtain ⟨c, hc, hserves⟩ := hserves
      obtain ⟨c', hc', hkin, -⟩ := htalked.each other c hc
      obtain ⟨c'', hc'', hready⟩ := hready key hother
      obtain rfl := Option.some.inj (hc'.symm.trans hc'')
      exact ⟨c', hc', hready, hkin.spec ▸ hserves.key_eq⟩
    · exact htalked.has_other hpid hserves fun _ _ hcalm h => h.of_calm hcalm
  · intro other c' _ hc'
    by_cases hpid : other = pid
    · subst hpid
      rcases hclaim with hloose | hclient
      · exact .inr (.inl hloose)
      · exact .inr (.inr (.inl hclient))
    · obtain ⟨c, hc, -, hcalm⟩ := htalked.exists_before hc'
      have hdone : c.IsDone → c'.IsDone := fun h => h.of_calm (hcalm hpid)
      exact .inr (.inr (.inr ⟨rfl, c, hc, hdone⟩))

/-- Talking with the process that is loose keeps it loose. -/
theorem Loose.of_talked (h : s.Loose opening pid kind) {machine : Machine}
    (htalked : Talked pid s.machine machine) {next : Connection → Prop}
    (hnext : machine.Has pid next) : Loose opening pid next { s with machine } where
  accounted := by
    apply h.accounted.of_talked htalked _ h.own (.inl rfl)
    intro key hkey
    exact absurd hkey (h.unclaimed key)
  own := h.own
  unclaimed := h.unclaimed
  has := hnext

theorem Loose.of_calmly (h : s.Loose opening pid kind) {machine : Machine}
    (hcalmly : Calmly s.machine machine) (hkind : ∀ c c', c.Calm c' → kind c → kind c') :
    Loose opening pid kind { s with machine } := by
  obtain ⟨hfaithful, hcalm⟩ := hcalmly h.accounted.faithful
  exact h.of_talked (hcalm.talked hfaithful) (hcalm.has h.has hkind)

theorem Loose.mono (h : s.Loose opening pid kind) {weaker : Connection → Prop}
    (hkind : ∀ c, kind c → weaker c) : s.Loose opening pid weaker :=
  ⟨h.accounted, h.own, h.unclaimed, h.has.mono hkind⟩

/-- A process that is done needs not be loose any more. -/
theorem Loose.done (h : s.Loose opening pid Connection.IsDone) : s.Accounted opening none := by
  obtain ⟨c, hc, hdone⟩ := h.has
  apply h.accounted.withMachine h.accounted.faithful
  · intro other c' _ hc'
    exact ⟨c', hc', .refl c'⟩
  · intro _ _ _ hserves
    exact hserves
  · intro other c' hbase hc'
    rcases h.accounted.claimed other c' hbase hc' with hdone' | hloose | hclient
    · exact .inl hdone'
    · obtain rfl := Option.some.inj hloose
      obtain rfl := Option.some.inj (hc.symm.trans hc')
      exact .inl hdone
    · exact .inr (.inr (.inl hclient))

/-! Entries that are forgotten and kept. -/

/-- No other key has the client of a key. -/
theorem Accounted.key_unique (h : s.Accounted opening loose) {other : LooseText}
    (hkey : s.fleet.clients.get? key = some pid) (hother : s.fleet.clients.get? other = some pid) :
    key = other := by
  obtain ⟨c, hc, hserves⟩ := h.serves key pid hkey
  obtain ⟨c', hc', hserves'⟩ := h.serves other pid hother
  obtain rfl := Option.some.inj (hc.symm.trans hc')
  exact Option.some.inj (hserves.key_eq.symm.trans hserves'.key_eq)

/-- An account is kept with other tables whose entries are clients that are ready and which leave
nobody out. -/
theorem Accounted.withTables (h : s.Accounted opening loose) {fleet : Fleet}
    {stillLoose : Option Nat} (hdistinct : fleet.clients.names.Nodup)
    (hhandles : List.map (Prod.map id Started.pid) fleet.running = fleet.clients)
    (hentries : ∀ key pid, fleet.clients.get? key = some pid →
      opening.connections.length ≤ pid ∧ s.machine.Has pid (Connection.Serves key))
    (hclaimed : ∀ pid, loose = some pid ∨ (∃ key, s.fleet.clients.get? key = some pid) →
      stillLoose = some pid ∨ ∃ key, fleet.clients.get? key = some pid) :
    Accounted opening stillLoose { s with fleet } where
  faithful := h.faithful
  before := h.before
  distinct := hdistinct
  handles := hhandles
  own := fun key pid hkey => (hentries key pid hkey).1
  serves := fun key pid hkey => (hentries key pid hkey).2
  claimed := by
    intro other c hbase hc
    exact (h.claimed other c hbase hc).imp_right (hclaimed other)

theorem Accounted.entry (h : s.Accounted opening loose)
    (hkey : s.fleet.clients.get? key = some pid) :
    opening.connections.length ≤ pid ∧ s.machine.Has pid (Connection.Serves key) :=
  ⟨h.own key pid hkey, h.serves key pid hkey⟩

/-- The tables without a key are those of an account when nobody is left out. -/
theorem Accounted.without (h : s.Accounted opening loose) (key : LooseText)
    {stillLoose : Option Nat}
    (hclaimed : ∀ pid, loose = some pid ∨ s.fleet.clients.get? key = some pid →
      stillLoose = some pid) :
    Accounted opening stillLoose { s with fleet := s.fleet.without key } := by
  apply h.withTables
  · exact Members.nodup_erase h.distinct key
  · rw [Fleet.without, Members.map_erase, h.handles]
  · intro other found hfound
    by_cases hother : other = key
    · subst hother
      cases (Members.get?_erase_self other _).symm.trans hfound
    · exact h.entry ((Members.get?_erase_of_ne hother _).symm.trans hfound)
  · rintro pid (hloose | ⟨other, hfound⟩)
    · exact .inl (hclaimed pid (.inl hloose))
    · by_cases hother : other = key
      · subst hother
        exact .inl (hclaimed pid (.inr hfound))
      · exact .inr ⟨other, (Members.get?_erase_of_ne hother _).trans hfound⟩

/-- A client that is forgotten is a loose process. -/
theorem Accounted.forget (h : s.Accounted opening none)
    (hkey : s.fleet.clients.get? key = some pid) :
    Loose opening pid (Connection.Serves key) { s with fleet := s.fleet.without key } where
  accounted := by
    apply h.without
    intro other hclaim
    exact hkey.symm.trans (hclaim.resolve_left (Option.some_ne_none other).symm)
  own := h.own key pid hkey
  unclaimed := by
    intro other hother
    by_cases heq : other = key
    · subst heq
      cases (Members.get?_erase_self other _).symm.trans hother
    · have hfound := (Members.get?_erase_of_ne heq _).symm.trans hother
      exact heq (h.key_unique hfound hkey)
  has := h.serves key pid hkey

/-- Forgetting a key without a client forgets nothing. -/
theorem Accounted.forget_none (h : s.Accounted opening none)
    (hkey : s.fleet.clients.get? key = none) :
    Accounted opening none { s with fleet := s.fleet.without key } := by
  apply h.without
  intro pid hclaim
  rwa [hkey, or_self] at hclaim

/-- A loose process that is ready is kept as the client of its key. -/
theorem Loose.keep (h : s.Loose opening pid (Connection.Serves key))
    (hkey : s.fleet.clients.get? key = none) (said : Option (Members Json)) :
    Accounted opening none { s with fleet := s.fleet.withStarted key ⟨pid, said⟩ } := by
  apply h.accounted.withTables
  · exact Members.nodup_set h.accounted.distinct key pid
  · rw [Fleet.withStarted, Members.map_set, h.accounted.handles]
  · intro other found hfound
    by_cases hother : other = key
    · subst hother
      obtain rfl := Option.some.inj ((Members.get?_set_self _ _ _).symm.trans hfound)
      exact ⟨h.own, h.has⟩
    · exact h.accounted.entry ((Members.get?_set_of_ne hother _ _).symm.trans hfound)
  · rintro found (hloose | ⟨other, hfound⟩)
    · obtain rfl := Option.some.inj hloose
      exact .inr ⟨key, Members.get?_set_self _ _ _⟩
    · have hother : other ≠ key := by
        rintro rfl
        cases hkey.symm.trans hfound
      exact .inr ⟨other, (Members.get?_set_of_ne hother _ _).trans hfound⟩

/-! A process that is started. -/

/-- No process goes away. -/
theorem Accounted.length_le (h : s.Accounted opening loose) :
    opening.connections.length ≤ s.machine.connections.length := by
  apply Nat.le_of_not_lt
  intro hlt
  obtain ⟨c', hc', -⟩ := h.before s.machine.connections.length _ (List.getElem?_eq_getElem hlt)
  exact Nat.lt_irrefl _ (lt_length_of_connection? hc')

/-- A process that was just started is loose. -/
theorem Accounted.spawned (h : s.Accounted opening none) {machine : Machine}
    {command : List LooseText}
    {spec : ServerSpec} (hfaithful : machine.Faithful)
    (hconnections : machine.connections =
      s.machine.connections ++ [s.machine.newConnection command spec]) :
    Loose opening s.machine.connections.length
      (fun c => c.Stands .fresh 0 ∧ c.session.spec = some spec) { s with machine } where
  accounted := by
    apply h.withMachine hfaithful
    · intro other c _ hc
      exact ⟨c, (connection?_of_append hconnections).2 (.inl hc), .refl c⟩
    · rintro key pid _ ⟨c, hc, hserves⟩
      exact ⟨c, (connection?_of_append hconnections).2 (.inl hc), hserves⟩
    · intro other c hbase hc
      rcases (connection?_of_append hconnections).1 hc with hc | ⟨rfl, -⟩
      · rcases h.claimed other c hbase hc with hdone | hloose | hclient
        · exact .inl hdone
        · cases hloose
        · exact .inr (.inr (.inl hclient))
      · exact .inr (.inl rfl)
  own := h.length_le
  unclaimed := by
    intro key hkey
    obtain ⟨c, hc, -⟩ := h.serves key _ hkey
    exact Nat.lt_irrefl _ (lt_length_of_connection? hc)
  has := by
    refine ⟨_, (connection?_of_append hconnections).2 (.inr ⟨rfl, rfl⟩), ?_, rfl⟩
    exact ⟨.nil, rfl, rfl⟩

end Station

end ProjectCheck
