import ProjectCheck.Proofs.Machine.Checkers
import ProjectCheck.Proofs.Reporting
import ProjectCheck.Proofs.Server.Journal
import ProjectCheck.Proofs.Server.Serving
import ProjectCheck.Proofs.Server.Visit

/-!
Desks between two visits. All that is due is done, every client is idle or has ended, and what can
be remembered of the extensions is what the servers have. The visit of a file begins with the search
for its server; when that gives an idle client, what comes of the file is what comes of it there.
-/
namespace ProjectCheck

open Run Machine

/-- What stands around the clients of a fleet: the machine without servers, and the servers that are
known. -/
def Station.surroundings (s : Station) : Station :=
  ⟨s.machine.untouched, { registry := s.fleet.registry }⟩

def Station.withFiles (files : Node) (s : Station) : Station :=
  { s with machine := { s.machine with files } }

/-- What is met has nothing to do with servers. -/
theorem Machine.sightings_untouched (m : Machine) (search : Search) (directory : Path) :
    m.untouched.sightings search directory = m.sightings search directory := by
  have hfind : m.untouched.find = m.find := rfl
  have hunlistable : m.untouched.unlistable = m.unlistable := rfl
  have hroom : m.untouched.walkRoom = m.walkRoom := rfl
  exact sightings_congr hfind hunlistable hroom search directory

namespace Station

variable {s : Station} {path : Path}

theorem prospect_surroundings : s.surroundings.prospect path = s.prospect path := by
  have hresolve : s.surroundings.machine.resolveCommand = s.machine.resolveCommand := by
    funext command
    unfold Machine.resolveCommand Machine.searchPath
    rfl
  have hregistry : s.surroundings.fleet.registry = s.fleet.registry := rfl
  unfold prospect
  rw [hregistry, hresolve]

theorem offers_surroundings {spec : ServerSpec} {new : Connection} :
    s.surroundings.Offers path spec new ↔ s.Offers path spec new := by
  unfold Offers
  rw [prospect_surroundings]
  rfl

theorem welcomes_surroundings : s.surroundings.Welcomes path ↔ s.Welcomes path := by
  have huntouched : s.surroundings.machine.untouched = s.machine.untouched := rfl
  have hspawns : s.surroundings.machine.refusesSpawn = s.machine.refusesSpawn := rfl
  unfold Welcomes
  simp only [offers_surroundings, findProjectRoot_congr huntouched, hspawns]

end Station

namespace Station

variable {kept : ServerSpec → Connection → Prop} {m after : Machine} {f : Fleet}

theorem IsServing.withJournal (h : IsServing kept ⟨m, f⟩) (journal : Journal) :
    IsServing kept ⟨m.withJournal journal, f⟩ where
  keyed := h.keyed
  rest := ⟨h.rest.awaited, h.rest.tasks, h.rest.connections⟩
  clients := h.clients

theorem IsServing.mono {weaker : ServerSpec → Connection → Prop} (h : IsServing kept ⟨m, f⟩)
    (hkept : ∀ spec c, kept spec c → weaker spec c) : IsServing weaker ⟨m, f⟩ where
  keyed := h.keyed
  rest := h.rest
  clients key pid hkey := by
    obtain ⟨spec, c, hspec, hc, hknown, hstate⟩ := h.clients key pid hkey
    exact ⟨spec, c, hspec, hc, hkept spec c hknown, hstate⟩

/-- What happens to one client only keeps a fleet. -/
theorem IsServing.of_spares (h : IsServing kept ⟨m, f⟩) (hpersists : Persists kept) {pid : Nat}
    {c c' : Connection} (hspares : m.Spares pid after) (hrest : after.IsAtRest fun _ => False)
    (hc : m.connection? pid = some c) (hc' : after.connection? pid = some c')
    (hkept : ∀ spec, kept spec c → kept spec c') (hstate : c'.IsIdle ∨ c'.exitCode ≠ none) :
    IsServing kept ⟨after, f⟩ where
  keyed := h.keyed
  rest := hrest
  clients key other hkey := by
    obtain ⟨spec, before, hspec, hbefore, hknown, hother⟩ := h.clients key other hkey
    by_cases hpid : other = pid
    · subst hpid
      obtain rfl := Option.some.inj (hc.symm.trans hbefore)
      exact ⟨spec, c', hspec, hc', hkept spec hknown, hstate⟩
    · obtain ⟨found, hfound, hstays⟩ := hspares.others other before hpid hbefore
      refine ⟨spec, found, hspec, hfound, hpersists spec before found hknown hstays, ?_⟩
      exact hother.imp (fun h => h.of_stays hstays) fun h => by rwa [hstays.exitCode]

end Station

/-! What clients know. -/

namespace Machine

variable {m : Machine} {spec : ServerSpec} {c c' : Connection}

structure Behaves (m : Machine) (spec : ServerSpec) (c : Connection) : Prop where
  behaviour : ∀ found : String, spec.command.string?.bind m.resolveCommand = some found →
    c.behaviour =
      (m.newConnection (spec.launchCommand (some (LooseText.ofString found))) spec).behaviour
  spec : c.session.spec = some spec

theorem Behaves.of_eq (h : m.Behaves spec c) (hbehaviour : c'.behaviour = c.behaviour)
    (hspec : c'.session.spec = c.session.spec) : m.Behaves spec c' :=
  ⟨fun found hfound => hbehaviour.trans (h.behaviour found hfound), hspec.trans h.spec⟩

theorem Behaves.of_starts {around : Station} {path : Path} {executable : LooseText}
    (hprospect : around.prospect path = .installed spec executable)
    (hstarts :
      (around.machine.newConnection (spec.launchCommand (some executable)) spec).Starts c) :
    around.machine.Behaves spec c := by
  obtain ⟨found, rfl, hfound⟩ := Station.resolve_of_prospect hprospect
  refine ⟨fun other hother => ?_, hstarts.spec⟩
  obtain rfl := Option.some.inj (hfound.symm.trans hother)
  exact hstarts.behaviour

theorem Behaves.of_offers {around : Station} {path : Path} {new : Connection}
    (h : around.machine.Behaves spec c) (hoffers : around.Offers path spec new) :
    c.behaviour = new.behaviour := by
  obtain ⟨executable, hprospect, rfl⟩ := hoffers
  obtain ⟨found, rfl, hfound⟩ := Station.resolve_of_prospect hprospect
  exact h.behaviour found hfound

theorem Behaves.languageOf (h : m.Behaves spec c) (path : Path) :
    c.session.languageOf path none = spec.languageId path := by
  rw [Session.languageOf, h.spec]
  rfl

structure Acquainted (m : Machine) (seen : String → Prop) (spec : ServerSpec) (c : Connection) :
    Prop where
  behaves : m.Behaves spec c
  unseen : ∀ key, ¬ seen key →
    c.session.published.get? key = none ∧ c.session.versions.get? key = none

theorem persists_acquainted (m : Machine) (seen : String → Prop) :
    Persists (m.Acquainted seen) := by
  intro spec c after h hstays
  refine ⟨h.behaves.of_eq hstays.behaviour hstays.spec, ?_⟩
  rw [hstays.published, hstays.versions]
  exact h.unseen

theorem Acquainted.of_starts {around : Station} {path : Path} {executable : LooseText}
    (seen : String → Prop) (hprospect : around.prospect path = .installed spec executable)
    (hstarts :
      (around.machine.newConnection (spec.launchCommand (some executable)) spec).Starts c) :
    around.machine.Acquainted seen spec c := by
  refine ⟨.of_starts hprospect hstarts, fun key _ => ?_⟩
  rw [hstarts.published, hstarts.versions]
  exact ⟨rfl, rfl⟩

theorem Acquainted.mono {seen more : String → Prop} (h : m.Acquainted seen spec c)
    (hseen : ∀ key, seen key → more key) : m.Acquainted more spec c :=
  ⟨h.behaves, fun key hkey => h.unseen key fun hseenKey => hkey (hseen key hseenKey)⟩

/-- A client for which all is as it was, but for one document, knows at most of one more. -/
theorem Acquainted.of_others {seen : String → Prop} (h : m.Acquainted seen spec c) {uri : String}
    (hbehaviour : c'.behaviour = c.behaviour) (hspec : c'.session.spec = c.session.spec)
    (hpublished : ∀ key, key ≠ Uri.key uri →
      c'.session.published.get? key = c.session.published.get? key)
    (hversions : ∀ key, key ≠ Uri.key uri →
      c'.session.versions.get? key = c.session.versions.get? key) :
    m.Acquainted (fun key => seen key ∨ key = Uri.key uri) spec c' where
  behaves := h.behaves.of_eq hbehaviour hspec
  unseen key hkey := by
    have hother : key ≠ Uri.key uri := fun heq => hkey (.inr heq)
    rw [hpublished key hother, hversions key hother]
    exact h.unseen key fun hseen => hkey (.inl hseen)

/-- After an exchange a client knows of one document more. -/
theorem Acquainted.of_exchange {seen : String → Prop} (h : m.Acquainted seen spec c)
    {uri : String} {version : Nat} {items : List Json} (hbehaviour : c'.behaviour = c.behaviour)
    (hsession : c'.session = (c.session.setVersion uri version).withPublished uri items) :
    m.Acquainted (fun key => seen key ∨ key = Uri.key uri) spec c' := by
  refine h.of_others hbehaviour (by rw [hsession]; rfl) (fun key hother => ?_)
    fun key hother => ?_ <;> rw [hsession]
  · exact Members.get?_set_of_ne hother _ _
  · exact Members.get?_set_of_ne hother _ _

/-- A document that a client does not know of is sent under the first version. -/
theorem Acquainted.isNew {seen : String → Prop} (h : m.Acquainted seen spec c) {uri : String}
    (hunseen : ¬ seen (Uri.key uri)) :
    c.session.hasPublished uri = false ∧ c.session.nextVersion uri = 1 := by
  obtain ⟨hpublished, hversion⟩ := h.unseen _ hunseen
  rw [Session.hasPublished, Session.nextVersion, Members.has, hpublished, hversion]
  exact ⟨rfl, rfl⟩

theorem Acquainted.nextDocument {seen : String → Prop} (h : m.Acquainted seen spec c)
    {uri : String} (hunseen : ¬ seen (Uri.key uri)) : c.session.nextDocument uri = ⟨uri, 1⟩ := by
  rw [Session.nextDocument, (h.isNew hunseen).2]
  rfl

theorem Spares.dialogue_of_ne {after : Machine} {pid other : Nat} (h : m.Spares pid after)
    (hother : other ≠ pid) : after.dialogue other = m.dialogue other := by
  rw [dialogue, dialogue]
  cases hc : m.connection? other with
  | some c =>
    obtain ⟨c', hc', hstays⟩ := h.others other c hother hc
    rw [hc', Option.map_some, Option.map_some, hstays.dialogue]
  | none =>
    rw [connection?_eq_none_iff, ← h.length, ← connection?_eq_none_iff] at hc
    rw [hc]

theorem dialogue_eq {pid : Nat} (hc : m.connection? pid = some c) :
    m.dialogue pid = c.dialogue := by
  rw [dialogue, hc, Option.map_some, Option.getD_some]

end Machine

namespace Desk

variable {kept : ServerSpec → Connection → Prop} {around : Station} {d : Desk}
  {patience : Patience} {path : Path}

def withFiles (files : Node) (d : Desk) : Desk := d.withMachine { d.station.machine with files }

structure Stands (kept : ServerSpec → Connection → Prop) (around : Station) (d : Desk) : Prop where
  serving : d.station.IsServing kept
  surroundings : d.station.surroundings = around
  cache : ∀ found, d.cache.kept = some found →
    found = around.fleet.registry.extensions.eraseDups

theorem stands_fresh (kept : ServerSpec → Connection → Prop) (opening : Machine)
    (settings : Settings) : (Desk.fresh opening.untouched settings).Stands kept
      (Desk.fresh opening.untouched settings).station := by
  have hkeyed := Registry.isKeyed_ofOverrides settings.serverOverrides
  unfold Desk.fresh
  generalize Registry.ofOverrides settings.serverOverrides = registry at hkeyed
  have hnone : ∀ pid, opening.untouched.connection? pid = none := fun pid => List.getElem?_nil
  refine ⟨⟨hkeyed, ⟨rfl, nofun, fun pid c _ hc => ?_⟩, nofun⟩, rfl, nofun⟩
  cases (hnone pid).symm.trans hc

namespace Stands

theorem registry (h : d.Stands kept around) :
    d.station.fleet.registry = around.fleet.registry :=
  congrArg (fun s => s.fleet.registry) h.surroundings

theorem untouched (h : d.Stands kept around) :
    d.station.machine.untouched = around.machine :=
  congrArg Station.machine h.surroundings

theorem prospect (h : d.Stands kept around) (path : Path) :
    d.station.prospect path = around.prospect path := by
  rw [← h.surroundings, Station.prospect_surroundings]

theorem offers_iff (h : d.Stands kept around) {spec : ServerSpec} {new : Connection} :
    d.station.Offers path spec new ↔ around.Offers path spec new := by
  rw [← h.surroundings, Station.offers_surroundings]

theorem welcomes_iff (h : d.Stands kept around) :
    d.station.Welcomes path ↔ around.Welcomes path := by
  rw [← h.surroundings, Station.welcomes_surroundings]

theorem uriOf (h : d.Stands kept around) (path : Path) :
    d.station.machine.uriOf path = around.machine.uriOf path := by
  rw [← h.untouched]
  rfl

theorem readText (h : d.Stands kept around) (path : Path) :
    d.station.machine.readText path = around.machine.readText path := by
  rw [← h.untouched]
  rfl

theorem sightings (h : d.Stands kept around) (search : Search) (directory : Path) :
    d.station.machine.sightings search directory = around.machine.sightings search directory := by
  rw [← h.untouched]
  exact (Machine.sightings_untouched d.station.machine search directory).symm

theorem mono {weaker : ServerSpec → Connection → Prop} (h : d.Stands kept around)
    (hkept : ∀ spec c, kept spec c → weaker spec c) : d.Stands weaker around :=
  ⟨h.serving.mono hkept, h.surroundings, h.cache⟩

theorem withJournal (h : d.Stands kept around) (journal : Journal) :
    (d.withMachine (d.station.machine.withJournal journal)).Stands kept around :=
  ⟨h.serving.withJournal journal, h.surroundings, h.cache⟩

/-- Files may change between two visits. -/
theorem withFiles (h : d.Stands kept around) (files : Node) :
    (d.withFiles files).Stands kept (around.withFiles files) where
  serving := ⟨h.serving.keyed, ⟨h.serving.rest.awaited, h.serving.rest.tasks,
    h.serving.rest.connections⟩, h.serving.clients⟩
  surroundings := by
    rw [← h.surroundings]
    rfl
  cache := h.cache

/-- What happens to one client only keeps a desk. -/
theorem of_spares (h : d.Stands kept around) (hpersists : Persists kept) {pid : Nat}
    {c c' : Connection} {after : Machine} (hspares : d.station.machine.Spares pid after)
    (hrest : after.IsAtRest fun _ => False) (hc : d.station.machine.connection? pid = some c)
    (hc' : after.connection? pid = some c') (hkept : ∀ spec, kept spec c → kept spec c')
    (hstate : c'.IsIdle ∨ c'.exitCode ≠ none) : (d.withMachine after).Stands kept around where
  serving := h.serving.of_spares hpersists hspares hrest hc hc' hkept hstate
  surroundings := by
    rw [← h.surroundings]
    change Station.mk after.untouched _ = _
    rw [hspares.untouched]
    rfl
  cache := h.cache

end Stands

/-! One visit. -/

def patienceOf (settings : Settings) : Patience :=
  ⟨settings.publicationWait, .ok settings.publicationRetries⟩

theorem onStation_run {α : Type} {step : Run Station α} {outcome : Except Failure α}
    {served : Station} (h : step.run d.station = (outcome, served)) :
    (onStation step).run d = (outcome, ⟨served, d.cache⟩) := by
  change ((step.run d.station).1, (⟨(step.run d.station).2, d.cache⟩ : Desk)) = _
  rw [h]

theorem session?_means (path : Path) :
    means.session? path = onStation (Fleet.serverFor path) := rfl

/-- A visit that fails is logged and comes to nothing. -/
theorem exists_visited_of_collect {outcome : Except Failure (Option (List Json))} {after : Desk}
    (h : (means.collect patience path).run d = (outcome, after)) :
    ∃ journal, means.Visited patience path d outcome.toOption.join
      (after.withMachine (after.station.machine.withJournal journal)) := by
  match outcome with
  | .ok (some found) =>
    exact ⟨after.station.machine.journal, .completed (SurveyMeans.collect_run_iff.1 h)⟩
  | .ok none =>
    exact ⟨after.station.machine.journal, .withoutSession (SurveyMeans.session?_run_of_collect h)⟩
  | .error failure => exact ⟨_, .failed h rfl⟩

/-- A client was found for a file, and it is idle. What comes of the visit of the file is what comes
of it in this client. -/
structure Attends (kept : ServerSpec → Connection → Prop) (around : Station) (patience : Patience)
    (path : Path) (d served : Desk) (pid : Nat) (spec : ServerSpec) (new c : Connection) :
    Prop where
  stands : served.Stands kept around
  continues : d.station.machine.Continues served.station.machine
  offers : around.Offers path spec new
  client : served.station.fleet.clients.get? spec.key = some pid
  connection : served.station.machine.connection? pid = some c
  idle : c.IsIdle
  kept : kept spec c
  visited : ∀ outcome after,
    (means.attend patience pid path).run served = (outcome, served.withMachine after) →
      ∃ journal, means.Visited patience path d outcome.toOption
        (served.withMachine (after.withJournal journal))

/-- The visit of a file finds an idle client, or it is over and no document was sent. It finds one
when the file's server can be started and answers. -/
theorem Stands.begins (h : d.Stands kept around) (hpersists : Persists kept)
    (hsuits : ∀ spec new, around.Offers path spec new → Fleet.Suits kept around.machine spec new)
    (patience : Patience) :
    (∃ served pid spec new c, Attends kept around patience path d served pid spec new c) ∨
      ∃ after, means.Visited patience path d none after ∧ after.Stands kept around ∧
        d.station.machine.Continues after.station.machine ∧ ¬ around.Welcomes path := by
  have hsuited : ∀ spec new, d.station.Offers path spec new →
      Fleet.Suits kept d.station.machine spec new := by
    intro spec new hoffers
    obtain ⟨hendures, hstarts⟩ := hsuits spec new (h.offers_iff.1 hoffers)
    refine ⟨hendures, fun c hspawns => hstarts c ?_⟩
    rw [← h.untouched]
    exact hspawns
  obtain ⟨outcome, served, hrun, hcontinues, hserving, hregistry, hclient, hwelcome⟩ :=
    Fleet.serves_serverFor h.serving hpersists hsuited
  let after : Desk := ⟨served, d.cache⟩
  have hsession : (means.session? path).run d = (outcome, after) := by
    rw [session?_means]
    exact onStation_run hrun
  have hstands : after.Stands kept around := by
    refine ⟨hserving, ?_, h.cache⟩
    rw [← h.surroundings]
    change Station.mk served.machine.untouched { registry := served.fleet.registry } = _
    rw [hcontinues.untouched, hregistry]
    rfl
  have hover : (∃ journal, means.Visited patience path d none
        (after.withMachine (served.machine.withJournal journal))) → outcome.toOption.join = none →
      ∃ last, means.Visited patience path d none last ∧ last.Stands kept around ∧
        d.station.machine.Continues last.station.machine ∧ ¬ around.Welcomes path := by
    rintro ⟨journal, hvisited⟩ hnone
    have hlast : d.station.machine.Continues (served.machine.withJournal journal) :=
      hcontinues.trans (Stays.withJournal journal served.machine).continues
    refine ⟨_, hvisited, hstands.withJournal journal, hlast, fun hwelcomes => ?_⟩
    obtain ⟨pid, rfl⟩ := hwelcome (h.welcomes_iff.2 hwelcomes)
    cases hnone
  match outcome with
  | .ok (some pid) =>
    obtain ⟨spec, new, c, hoffers, hkey, hc, hidle, hkept⟩ := hclient pid rfl
    have hvisited : ∀ outcome last,
        (means.attend patience pid path).run after = (outcome, after.withMachine last) →
          ∃ journal, means.Visited patience path d outcome.toOption
            (after.withMachine (last.withJournal journal)) := by
      intro outcome last hattended
      have hvisited := exists_visited_of_collect
        (SurveyMeans.collect_run_attended hsession hattended)
      cases outcome <;> exact hvisited
    have hoffered := h.offers_iff.1 hoffers
    exact .inl ⟨after, pid, spec, new, c, hstands, hcontinues, hoffered, hkey, hc, hidle, hkept,
      hvisited⟩
  | .ok none =>
    exact .inr (hover (exists_visited_of_collect (SurveyMeans.collect_run_none hsession)) rfl)
  | .error failure =>
    exact .inr (hover (exists_visited_of_collect (SurveyMeans.collect_run_failed hsession)) rfl)

/-- The visit of a file that cannot be sent comes to nothing, and no server is told of it. -/
theorem Attends.unfit {served : Desk} {pid : Nat} {spec : ServerSpec} {new c : Connection}
    (h : Attends kept around patience path d served pid spec new c)
    (hunfit : ¬ ∃ uri text, around.machine.uriOf path = .ok uri ∧
      around.machine.readText path = .ok text) :
    ∃ after, means.Visited patience path d none after ∧ after.Stands kept around ∧
      d.station.machine.Continues after.station.machine := by
  have hunfit' : ¬ ∃ uri text, served.station.machine.uriOf path = .ok uri ∧
      served.station.machine.readText path = .ok text := by
    rwa [h.stands.uriOf, h.stands.readText]
  obtain ⟨failure, hattended⟩ : ∃ failure, (means.attend patience pid path).run served =
      (.error failure, served) := attend_unfit (d := served) h.connection hunfit'
  obtain ⟨journal, hvisited⟩ := h.visited _ _ hattended
  exact ⟨_, hvisited, h.stands.withJournal journal,
    h.continues.trans (Stays.withJournal journal served.station.machine).continues⟩

/-- The visit of a file that would be opened under a language whose name cannot be written comes to
nothing. The client keeps the version, and no server is told of the file. -/
theorem Attends.unwritten {served : Desk} {pid : Nat} {spec : ServerSpec} {new c : Connection}
    {uri text : String} (h : Attends kept around patience path d served pid spec new c)
    (hbehaves : around.machine.Behaves spec c) (huri : around.machine.uriOf path = .ok uri)
    (htext : around.machine.readText path = .ok text)
    (hunwritten : ¬ (c.session.nextVersion uri = 1 → (spec.languageId path).IsPlain)) :
    ∃ (machine : Machine) (journal : Journal),
      means.Visited patience path d none (served.withMachine (machine.withJournal journal)) ∧
      Silent pid c uri served.station.machine machine ∧
      ∀ other, LeavesDocuments (d.station.machine.dialogue other) (machine.dialogue other) := by
  rw [← hbehaves.languageOf] at hunwritten
  obtain ⟨machine, hattended, hsilence, hsame⟩ := attend_unwritten (d := served)
    h.stands.serving.rest h.connection h.idle ((h.stands.uriOf path).trans huri)
    ((h.stands.readText path).trans htext) hunwritten
  obtain ⟨journal, hvisited⟩ := h.visited _ machine hattended
  refine ⟨machine, journal, hvisited, hsilence, fun other => ?_⟩
  have hdialogue : machine.dialogue other = served.station.machine.dialogue other := by
    by_cases hother : other = pid
    · rw [hother, hsame]
    · exact hsilence.spares.dialogue_of_ne hother
  rw [hdialogue]
  exact h.continues.leavesDocuments other

theorem suits_acquainted {seen : String → Prop}
    (hendures : ∀ spec new, around.Offers path spec new → new.behaviour.Endures) :
    ∀ spec new, around.Offers path spec new →
      Fleet.Suits (around.machine.Acquainted seen) around.machine spec new := by
  intro spec new hoffers
  refine ⟨hendures spec new hoffers, fun c _ hstarts => ?_⟩
  obtain ⟨executable, hprospect, rfl⟩ := hoffers
  exact .of_starts seen hprospect hstarts

/-- What is published in time for a document that the client does not know of is found. -/
theorem Attends.published {settings : Settings} {seen : String → Prop} {served : Desk} {pid : Nat}
    {spec : ServerSpec} {new c : Connection} {uri text : String} {publication : Publication}
    {items : List Json}
    (h : Attends (around.machine.Acquainted seen) around (patienceOf settings) path d served
      pid spec new c)
    (huri : around.machine.uriOf path = .ok uri) (htext : around.machine.readText path = .ok text)
    (hplain : (spec.languageId path).IsPlain) (hunseen : ¬ seen (Uri.key uri))
    (hpublishes : new.behaviour.publication? ⟨uri, 1⟩ = some publication)
    (hends : ¬ new.behaviour.EndsAt ⟨uri, 1⟩)
    (hread : IsReadAs (ServerBehaviour.publish uri (ServerBehaviour.Publication.at publication 1))
      (ServerBehaviour.publish uri (.array items)))
    (htime : publication.delay ≤ 1 + settings.publicationRetries) :
    ∃ machine c', means.Visited (patienceOf settings) path d (some items)
        (served.withMachine machine) ∧
      (served.withMachine machine).Stands
        (around.machine.Acquainted fun key => seen key ∨ key = Uri.key uri) around ∧
      machine.connection? pid = some c' ∧ c'.IsIdle ∧ c'.behaviour = new.behaviour ∧
      c'.session = (c.session.setVersion uri 1).withPublished uri items := by
  obtain ⟨hnew, hversion⟩ := h.kept.isNew hunseen
  have hbehaviour := h.kept.behaves.of_offers h.offers
  have hdocument := h.kept.nextDocument hunseen
  rw [← hbehaviour, ← hdocument] at hpublishes hends
  have htimely : publication.delay ≤
      if c.session.hasPublished uri then 1 else 1 + settings.publicationRetries := by
    rw [hnew]
    exact htime
  have hmessage : IsReadAs (ServerBehaviour.publish uri
      (ServerBehaviour.Publication.at publication (c.session.nextVersion uri)))
      (ServerBehaviour.publish uri (.array items)) := by
    rw [hversion]
    exact hread
  obtain ⟨machine, hattended, hexchanges⟩ := attend_published (d := served)
    h.stands.serving.rest h.connection h.idle ((h.stands.uriOf path).trans huri)
    ((h.stands.readText path).trans htext) (fun _ => h.kept.behaves.languageOf path ▸ hplain)
    hpublishes hends hmessage htimely
  obtain ⟨c', -, -, hc', hidle, hsame, hsession, -, -⟩ := hexchanges.connection
  rw [hversion] at hsession
  obtain ⟨journal, hvisited⟩ := h.visited _ machine hattended
  have hstands : (served.withMachine machine).Stands
      (around.machine.Acquainted fun key => seen key ∨ key = Uri.key uri) around := by
    have hmore : served.Stands
        (around.machine.Acquainted fun key => seen key ∨ key = Uri.key uri) around :=
      h.stands.mono fun _ _ hkept => hkept.mono fun _ => Or.inl
    refine hmore.of_spares (persists_acquainted _ _) hexchanges.spares hexchanges.rest h.connection
      hc' (fun spec hkept => ?_) (.inl hidle)
    exact (hkept.of_exchange hsame hsession).mono fun key hkey => hkey.elim id .inr
  exact ⟨machine.withJournal journal, c', hvisited, hstands.withJournal journal, hc', hidle,
    hsame.trans hbehaviour, hsession⟩

/-! Surveys. -/

/-- A desk between two visits is so again, and at most something was written down and extensions are
remembered. -/
def Quietly (kept : ServerSpec → Connection → Prop) (around : Station) (d after : Desk) : Prop :=
  d.Stands kept around → after.Stands kept around ∧
    ∃ journal, after.station = ⟨d.station.machine.withJournal journal, d.station.fleet⟩

theorem steady_quietly (kept : ServerSpec → Connection → Prop) (around : Station) :
    Steady (Quietly kept around) where
  refl d h := ⟨h, d.station.machine.journal, rfl⟩
  trans hfirst hsecond h := by
    obtain ⟨hbetween, first, heq⟩ := hfirst h
    obtain ⟨hafter, second, hlast⟩ := hsecond hbetween
    refine ⟨hafter, second, hlast.trans ?_⟩
    rw [heq]
    rfl

theorem quietly_onMachine {α : Type} {step : Run Machine α}
    (hstep : Moves OnlyWrites step d.station.machine) :
    Moves (Quietly kept around) (Desk.onMachine step) d := by
  refine Moves.onMachine hstep ?_
  rintro _ ⟨journal, rfl⟩ h
  exact ⟨h.withJournal journal, journal, rfl⟩

theorem exists_logged (kept : ServerSpec → Connection → Prop) (around : Station) (level : Level)
    (text : String) (d : Desk) :
    ∃ after, (Desk.onMachine (Machine.log level text)).run d = (.ok (), after) ∧
      Quietly kept around d after :=
  ⟨_, rfl, quietly_onMachine (discreet_onlyWrites.moves_log level text _)⟩

/-- The extensions are those that the servers have, remembered or not. -/
theorem Stands.extensions_run (h : d.Stands kept around) :
    ∃ asked, extensions.run d = (.ok around.fleet.registry.extensions.eraseDups, asked) ∧
      Quietly kept around d asked := by
  have hread : (d.cache.read (.ok d.station.fleet.registry.extensions)).result =
      .ok around.fleet.registry.extensions.eraseDups ∧
      ∀ found, (d.cache.read (.ok d.station.fleet.registry.extensions)).cache.kept = some found →
        found = around.fleet.registry.extensions.eraseDups := by
    rw [ExtensionCache.read, h.registry]
    cases hkept : d.cache.kept with
    | none => exact ⟨rfl, fun found hfound => (Option.some.inj hfound).symm⟩
    | some found =>
      obtain rfl := h.cache found hkept
      exact ⟨rfl, h.cache⟩
  obtain ⟨hresult, hcache⟩ := hread
  rw [extensions, run_bind_ok (run_get d)]
  generalize d.cache.read (.ok d.station.fleet.registry.extensions) = reading at hresult hcache
  let remembering : Desk := { d with cache := reading.cache }
  have hremembering : Quietly kept around d remembering := fun _ =>
    ⟨⟨h.serving, h.surroundings, hcache⟩, d.station.machine.journal, rfl⟩
  have hsaid : ∃ asked, (reading.logText?.forM fun text =>
      onMachine (Machine.log .debug text)).run remembering = (.ok (), asked) ∧
        Quietly kept around remembering asked := by
    cases reading.logText? with
    | none => exact ⟨remembering, rfl, (steady_quietly kept around).refl remembering⟩
    | some text => exact exists_logged kept around .debug text remembering
  obtain ⟨asked, hasked, hquiet⟩ := hsaid
  refine ⟨asked, ?_, (steady_quietly kept around).trans hremembering hquiet⟩
  refine (run_bind_ok (run_modify _ d) _).trans ((run_bind_ok hasked _).trans ?_)
  rw [hresult]
  rfl

def search (around : Station) (settings : Settings) (wanted : Option (List LooseText)) : Search :=
  .of (wanted.getD around.fleet.registry.extensions.eraseDups) settings.ignoredDirectories

variable {settings : Settings} {directory : Path} {wanted : Option (List LooseText)}

/-- A survey begins with the extensions that it looks for. -/
theorem Stands.asked_run (h : d.Stands kept around) (settings : Settings) (directory : Path)
    (wanted : Option (List LooseText)) :
    ∃ asked, (Desk.survey settings directory wanted).run d =
      (means.survey (patienceOf settings) settings.ignoredDirectories directory
        (wanted.getD around.fleet.registry.extensions.eraseDups)).run asked ∧
      Quietly kept around d asked := by
  cases wanted with
  | some found => exact ⟨d, rfl, (steady_quietly kept around).refl d⟩
  | none =>
    obtain ⟨asked, hrun, hquiet⟩ := h.extensions_run
    exact ⟨asked, run_bind_ok hrun _, hquiet⟩

/-- Where files can be looked for, a survey sums up the visits of those that are found. -/
theorem Stands.survey_run {met : List Sighting} (h : d.Stands kept around)
    (hmet : around.machine.sightings (search around settings wanted) directory = .ok met) :
    ∃ started, Quietly kept around d started ∧ ∀ visits after,
      means.Visits (patienceOf settings) (met.filterMap Sighting.file?) started visits after →
        (Desk.survey settings directory wanted).run d =
          (Survey.ofFindings (visits.flatMap (·.findings)) (visits.countP (·.found.isSome)),
            after) := by
  obtain ⟨asked, hasked, hquiet⟩ := h.asked_run settings directory wanted
  obtain ⟨journal, hfound⟩ :=
    Machine.comes_findFiles (((hquiet h).1.sightings _ directory).trans hmet)
  have hsearched := Run.onMachine_run (s := asked) hfound
  let searched := asked.withMachine (asked.station.machine.withJournal journal)
  have hwrote : Quietly kept around asked searched :=
    fun h => ⟨h.withJournal journal, journal, rfl⟩
  let text := s!"LSP fallback: {(met.filterMap Sighting.file?).length} candidate files under " ++
    toString directory.text
  obtain ⟨started, hstarted, hlogged⟩ := exists_logged kept around .info text searched
  have hR := steady_quietly kept around
  refine ⟨started, hR.trans hquiet (hR.trans hwrote hlogged), fun visits after hvisits => ?_⟩
  obtain ⟨hfindings, hlength⟩ := SurveyMeans.flatten_tagged visits
  rw [hasked]
  refine (run_bind_ok hsearched _).trans ((run_bind_ok hstarted _).trans ?_)
  rw [SurveyMeans.surveyFiles, run_bind_ok hvisits.run]
  simp only [hfindings, hlength, ofExcept_run]

def Keeps (kept : ServerSpec → Connection → Prop) (around : Station) (d after : Desk) : Prop :=
  d.Stands kept around → after.Stands kept around

theorem steady_keeps (kept : ServerSpec → Connection → Prop) (around : Station) :
    Steady (Keeps kept around) := Steady.keeps fun d : Desk => d.Stands kept around

theorem keeps_onMachine {α : Type} {step : Run Machine α}
    (hstep : Moves OnlyWrites step d.station.machine) :
    Moves (Keeps kept around) (Desk.onMachine step) d :=
  fun h => (quietly_onMachine hstep h).1

/-- A survey keeps a desk when the visits of its files do. -/
theorem keeps_survey (hvisits : ∀ met,
      around.machine.sightings (search around settings wanted) directory = .ok met →
        ∀ path, .file path ∈ met → ∀ d : Desk, d.Stands kept around → ∃ found after,
          means.Visited (patienceOf settings) path d found after ∧ after.Stands kept around) :
    Moves (Keeps kept around) (Desk.survey settings directory wanted) d := by
  intro h
  cases hmet : around.machine.sightings (search around settings wanted) directory with
  | ok met =>
    obtain ⟨started, hquiet, hrun⟩ := h.survey_run hmet
    have hall : ∀ (files : List Path), (∀ path ∈ files, .file path ∈ met) → ∀ d : Desk,
        d.Stands kept around → ∃ visits after,
          means.Visits (patienceOf settings) files d visits after ∧ after.Stands kept around := by
      intro files
      induction files with
      | nil => exact fun _ d h => ⟨[], d, .nil d, h⟩
      | cons path rest ih =>
        intro hfiles d h
        obtain ⟨found, between, hvisited, hbetween⟩ :=
          hvisits met hmet path (hfiles path (List.mem_cons_self ..)) d h
        obtain ⟨visits, after, hrest, hafter⟩ :=
          ih (fun other hmem => hfiles other (List.mem_cons_of_mem path hmem)) between hbetween
        exact ⟨_, after, .cons hvisited hrest, hafter⟩
    obtain ⟨visits, after, hvisited, hafter⟩ :=
      hall _ (fun path => Sighting.mem_filterMap_file?.1) started (hquiet h).1
    rw [hrun visits after hvisited]
    exact hafter
  | error failure =>
    obtain ⟨asked, hasked, hquiet⟩ := h.asked_run settings directory wanted
    have hasked' := (hquiet h).1
    obtain ⟨journal, hfailed⟩ :=
      Machine.comes_findFiles_error ((hasked'.sightings _ directory).trans hmet)
    have hsearched := Run.onMachine_run (s := asked) hfailed
    have hkept : Moves (Keeps kept around)
        (Desk.onMachine (Machine.findFiles directory (search around settings wanted))) asked :=
      keeps_onMachine (discreet_onlyWrites.moves_findFiles _ _ _)
    rw [Moves, Ends, Desk.onMachine, hsearched] at hkept
    rw [hasked.trans (run_bind_error hsearched _)]
    exact hkept hasked'

/-! Checks. -/

theorem Stands.target (h : d.Stands kept around) (directory : LooseText) :
    d.station.machine.target directory = around.machine.target directory := by
  rw [← h.untouched]
  rfl

/-- A check keeps a desk when the survey of its directory does. -/
theorem keeps_check {directory : LooseText} (value : Json)
    (hsurvey : ∀ path, around.machine.target directory = .directory path → ∀ ready : Desk,
      Moves (Keeps kept around) (Desk.survey settings path none) ready) :
    Moves (Keeps kept around) (checkNamed settings directory value) d := by
  have hR := steady_keeps kept around
  refine Moves.bind hR (Moves.ofExcept hR _ d) fun strategy between => ?_
  intro h
  have htarget := h.target directory
  refine (show Moves (Keeps kept around) (checkDirectory settings directory strategy) between from
    Moves.get_bind ?_) h
  cases hfound : between.station.machine.target directory with
  | missing => exact hR.refl between
  | notDirectory => exact hR.refl between
  | unresolvable =>
    exact Moves.bind_pure hR (keeps_onMachine (discreet_onlyWrites.moves_log _ _ _))
  | directory path =>
    refine Moves.bind hR (keeps_onMachine (discreet_onlyWrites.moves_resolve strategy _ _))
      fun chosen resolved => ?_
    refine Moves.bind hR (keeps_onMachine (discreet_onlyWrites.moves_log _ _ _)) fun _ ready => ?_
    split
    · exact Moves.bind_pure hR (keeps_onMachine (discreet_onlyWrites.moves_check _ path _ _))
    · exact Moves.bind hR (hsurvey path (htarget.symm.trans hfound) ready) fun _ after =>
        Moves.ofExcept hR _ after

theorem Prepares.quietly {strategy chosen : Strategy} {directory : Path} {ready : Desk}
    (h : d.Prepares strategy directory chosen ready) : Quietly kept around d ready := by
  obtain ⟨resolved, hresolved, hready⟩ := h
  have hfirst : Quietly kept around d resolved := by
    have hmoved : Moves (Quietly kept around) (Desk.onMachine (strategy.resolve directory)) d :=
      quietly_onMachine (discreet_onlyWrites.moves_resolve strategy directory _)
    rwa [Moves, Ends, hresolved] at hmoved
  have hlast : Quietly kept around resolved ready := by
    have hmoved : Moves (Quietly kept around) (Desk.onMachine (Machine.log .info
        s!"Running {chosen.name} diagnostics on {directory.text}")) resolved :=
      quietly_onMachine (discreet_onlyWrites.moves_log .info _ _)
    rwa [Moves, Ends, hready] at hmoved
  exact (steady_quietly kept around).trans hfirst hlast

/-- A check that no checker is chosen for reports a survey. -/
theorem Prepares.check_run {strategy chosen : Strategy} {directory : LooseText} {path : Path}
    {ready after : Desk} {value : Json} {survey : Survey}
    (h : d.Prepares strategy path chosen ready) (hvalue : Strategy.ofValue value = .ok strategy)
    (htarget : d.station.machine.target directory = .directory path)
    (hchosen : ∀ language, chosen ≠ .checker language)
    (hsurvey : (Desk.survey settings path none).run ready = (.ok survey, after)) :
    (checkNamed settings directory value).run d = (DirectoryReport.ofSurvey survey, after) := by
  obtain ⟨resolved, hresolved, hready⟩ := h
  have hreported : (Desk.survey settings path none >>= fun survey =>
      Run.ofExcept (DirectoryReport.ofSurvey survey)).run ready =
        (DirectoryReport.ofSurvey survey, after) :=
    (run_bind_ok hsurvey _).trans (ofExcept_run _ after)
  rw [checkNamed, hvalue]
  change (checkDirectory settings directory strategy).run d = _
  rw [checkDirectory, run_bind_ok (run_get d), htarget]
  refine (run_bind_ok hresolved _).trans ((run_bind_ok hready _).trans ?_)
  cases chosen with
  | checker language => exact absurd rfl (hchosen language)
  | lsp => exact hreported
  | auto => exact hreported

end Desk

end ProjectCheck
