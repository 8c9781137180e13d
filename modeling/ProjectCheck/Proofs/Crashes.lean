import ProjectCheck.Proofs.Files.Linkless
import ProjectCheck.Proofs.Rounds

/-!
Crashes cost nothing. A server that ends when it is told of some files is started again for the next
one, and what is found for the other files is what is found when the server stays up and only keeps
silent on those. The client of a crashed server is not used again, so nothing of it is left in what
is found later; a client that is told of each document once hears of each document once.
-/
namespace ProjectCheck

open Run Machine

/-- What comes of a file: what is reported for it if it can be sent and the servers are not silent
on it, else nothing. -/
inductive Station.Yields (around : Station) (silent : Path → Prop) (report : Path → List Json)
    (path : Path) : List Json → Prop
  | reported (hsend : around.CanSend path) (hspoken : ¬ silent path) :
      Yields around silent report path (report path)
  | nothing (h : ¬ (around.CanSend path ∧ ¬ silent path)) : Yields around silent report path []

theorem Station.Yields.congr {around other : Station} {silent : Path → Prop}
    {report : Path → List Json} {path : Path} {items : List Json}
    (hsend : around.CanSend path ↔ other.CanSend path)
    (h : around.Yields silent report path items) :
    other.Yields silent report path items := by
  cases h with
  | reported hcan hspoken => exact .reported (hsend.1 hcan) hspoken
  | nothing hnot => exact .nothing fun h => hnot ⟨hsend.2 h.1, h.2⟩

theorem Station.Yields.subset {around : Station} {silent : Path → Prop}
    {report : Path → List Json} {path : Path} {items : List Json}
    (h : around.Yields silent report path items) : ∀ item ∈ items, item ∈ report path := by
  cases h with
  | reported => exact fun _ => id
  | nothing => nofun

theorem Station.Yields.unique {around : Station} {silent : Path → Prop}
    {report : Path → List Json} {path : Path} {items other : List Json}
    (h : around.Yields silent report path items) (hother : around.Yields silent report path other) :
    items = other := by
  cases h with
  | reported hsend hspoken =>
    cases hother with
    | reported => rfl
    | nothing hnot => exact absurd ⟨hsend, hspoken⟩ hnot
  | nothing hnot =>
    cases hother with
    | reported hsend hspoken => exact absurd ⟨hsend, hspoken⟩ hnot
    | nothing => rfl

/-- A server for a file answers when it is greeted. It publishes nothing for a file that the servers
are silent on, and stays up and publishes a report in time for each other one. -/
structure Station.Reports (around : Station) (limit : Nat) (silent : Path → Prop)
    (report : Path → List Json) (path : Path) : Prop where
  answers : ∀ spec new, around.Offers path spec new →
    around.Welcomes path ∧ new.behaviour.Endures
  publishes : ∀ spec new uri, around.Offers path spec new → around.machine.uriOf path = .ok uri →
    ¬ silent path → ¬ new.behaviour.EndsAt ⟨uri, 1⟩ ∧ ∃ publication,
      new.behaviour.publication? ⟨uri, 1⟩ = some publication ∧ publication.delay ≤ limit ∧
      IsReadAs (ServerBehaviour.publish uri (ServerBehaviour.Publication.at publication 1))
        (ServerBehaviour.publish uri (.array (report path)))
  withholds : ∀ spec new uri, around.Offers path spec new → around.machine.uriOf path = .ok uri →
    silent path → new.behaviour.publication? ⟨uri, 1⟩ = none

structure Station.Crashes (around : Station) (limit : Nat) (silent : Path → Prop)
    (report : Path → List Json) (path : Path) : Prop
    extends around.Reports limit silent report path where
  ends : ∀ spec new uri, around.Offers path spec new → around.machine.uriOf path = .ok uri →
    silent path → new.behaviour.EndsAt ⟨uri, 1⟩

structure Station.StaysUp (around : Station) (limit : Nat) (silent : Path → Prop)
    (report : Path → List Json) (path : Path) : Prop
    extends around.Reports limit silent report path where
  lives : ∀ spec new document, around.Offers path spec new → ¬ new.behaviour.EndsAt document

def Machine.withServers (servers : Members ServerBehaviour) (m : Machine) : Machine :=
  { m with servers }

def Survey.figures (survey : Survey) : List FileFinding × Nat × Nat :=
  (survey.findings, survey.errorCount, survey.warningCount)

/-- A client that was told of a document knows of one document more. -/
theorem Machine.Acquainted.of_silence {m : Machine} {seen : String → Prop} {spec : ServerSpec}
    {c c' : Connection} (h : m.Acquainted seen spec c) {uri : String} {version : Nat}
    (hbehaviour : c'.behaviour = c.behaviour) (hspec : c'.session.spec = c.session.spec)
    (hpublished : c'.session.published = c.session.published)
    (hversions : c'.session.versions = c.session.versions.set (Uri.key uri) version) :
    m.Acquainted (fun key => seen key ∨ key = Uri.key uri) spec c' :=
  h.of_others hbehaviour hspec (fun key _ => by rw [hpublished]) fun key hother => by
    rw [hversions, Members.get?_set_of_ne hother]

namespace Desk

variable {around : Station} {d : Desk} {settings : Settings} {path : Path}
  {silent : Path → Prop} {report : Path → List Json} {seen : String → Prop}

def firstLimit (settings : Settings) : Nat := 1 + settings.publicationRetries

/-- A server that publishes nothing for a document is told of it all the same. -/
theorem Attends.of_silence {served : Desk} {patience : Patience} {pid : Nat} {spec : ServerSpec}
    {new c : Connection} {uri : String} {machine : Machine}
    (h : Attends (around.machine.Acquainted seen) around patience path d served pid spec new c)
    (hsilence : Silent pid c uri served.station.machine machine) :
    (served.withMachine machine).Stands
      (around.machine.Acquainted fun key => seen key ∨ key = Uri.key uri) around := by
  obtain ⟨c', hc', hsame, hspec, hpublished, hversions, hstate⟩ := hsilence.connection
  have hmore : served.Stands
      (around.machine.Acquainted fun key => seen key ∨ key = Uri.key uri) around :=
    h.stands.mono fun _ _ hkept => hkept.mono fun _ => Or.inl
  refine hmore.of_spares (persists_acquainted _ _) hsilence.spares hsilence.rest h.connection
    hc' (fun spec hkept => ?_) hstate
  exact (hkept.of_silence hsame hspec hpublished hversions).mono fun key hkey => hkey.elim id .inr

/-- Nothing is found for a file that the server is silent on, whether or not it ends there. -/
theorem Attends.unpublished {served : Desk} {pid : Nat} {spec : ServerSpec} {new c : Connection}
    {uri text : String}
    (h : Attends (around.machine.Acquainted seen) around (patienceOf settings) path d served
      pid spec new c)
    (huri : around.machine.uriOf path = .ok uri) (htext : around.machine.readText path = .ok text)
    (hplain : (spec.languageId path).IsPlain) (hunseen : ¬ seen (Uri.key uri))
    (hsilent : new.behaviour.publication? ⟨uri, 1⟩ = none) :
    ∃ found after, means.Visited (patienceOf settings) path d found after ∧ found.getD [] = [] ∧
      after.Stands (around.machine.Acquainted fun key => seen key ∨ key = Uri.key uri) around := by
  obtain ⟨hnew, -⟩ := h.kept.isNew hunseen
  have hbehaviour := h.kept.behaves.of_offers h.offers
  have hdocument := h.kept.nextDocument hunseen
  rw [← hbehaviour, ← hdocument] at hsilent
  rw [← h.kept.behaves.languageOf] at hplain
  obtain ⟨outcome, machine, hattended, hnothing, hsilence⟩ := attend_silent (d := served)
    h.stands.serving.rest h.connection h.idle ((h.stands.uriOf path).trans huri)
    ((h.stands.readText path).trans htext) (fun _ => hplain) hsilent hnew settings.publicationWait
    settings.publicationRetries
  obtain ⟨journal, hvisited⟩ := h.visited _ machine hattended
  refine ⟨outcome.toOption, _, hvisited, ?_, (h.of_silence hsilence).withJournal journal⟩
  cases outcome with
  | ok found => exact hnothing found rfl
  | error failure => rfl

def SeenAfter (around : Station) (seen : String → Prop) (path : Path) (key : String) : Prop :=
  seen key ∨ ∃ uri, around.machine.uriOf path = .ok uri ∧ key = Uri.key uri

/-- What comes of the visit of a file is what is reported for it. -/
theorem Stands.visit_yields (h : d.Stands (around.machine.Acquainted seen) around)
    (hreports : around.Reports (firstLimit settings) silent report path)
    (hunseen : ∀ uri, around.machine.uriOf path = .ok uri → ¬ seen (Uri.key uri)) :
    ∃ found after, means.Visited (patienceOf settings) path d found after ∧
      after.Stands (around.machine.Acquainted (SeenAfter around seen path)) around ∧
      around.Yields silent report path (found.getD []) := by
  have hold : ∀ {after : Desk}, after.Stands (around.machine.Acquainted seen) around →
      after.Stands (around.machine.Acquainted (SeenAfter around seen path)) around :=
    fun hstands => hstands.mono fun _ _ hkept => hkept.mono fun _ => .inl
  have hnew : ∀ {after : Desk} {uri : String}, around.machine.uriOf path = .ok uri →
      after.Stands (around.machine.Acquainted fun key => seen key ∨ key = Uri.key uri) around →
      after.Stands (around.machine.Acquainted (SeenAfter around seen path)) around :=
    fun huri hstands => hstands.mono fun _ _ hkept => hkept.mono fun key hkey =>
      hkey.imp id fun heq => ⟨_, huri, heq⟩
  rcases h.begins (persists_acquainted _ _)
    (suits_acquainted fun spec new hoffers => (hreports.answers spec new hoffers).2)
    (patienceOf settings) with
    ⟨served, pid, spec, new, c, hattends⟩ | ⟨after, hvisited, hstands, -, hunwelcome⟩
  · by_cases hfit : ∃ uri text, around.machine.uriOf path = .ok uri ∧
        around.machine.readText path = .ok text
    · obtain ⟨executable, hprospect, -⟩ := id hattends.offers
      obtain ⟨uri, text, huri, htext⟩ := id hfit
      by_cases hplain : (spec.languageId path).IsPlain
      · have hsend : around.CanSend path := ⟨⟨spec, executable, hprospect, hplain⟩, hfit⟩
        by_cases hsilent : silent path
        · obtain ⟨found, after, hvisited, hnothing, hstands⟩ := hattends.unpublished huri htext
            hplain (hunseen uri huri) (hreports.withholds spec new uri hattends.offers huri hsilent)
          refine ⟨found, after, hvisited, hnew huri hstands, ?_⟩
          rw [hnothing]
          exact .nothing fun h => h.2 hsilent
        · obtain ⟨hlives, publication, hpublishes, htime, hread⟩ :=
            hreports.publishes spec new uri hattends.offers huri hsilent
          obtain ⟨machine, -, hvisited, hstands, -⟩ := hattends.published huri htext hplain
            (hunseen uri huri) hpublishes hlives hread htime
          exact ⟨_, _, hvisited, hnew huri hstands, .reported hsend hsilent⟩
      · -- What cannot be written takes a version all the same, so the key counts as seen.
        have hunwritten : ¬ (c.session.nextVersion uri = 1 → (spec.languageId path).IsPlain) :=
          fun hwritten => hplain (hwritten (hattends.kept.isNew (hunseen uri huri)).2)
        obtain ⟨machine, journal, hvisited, hsilence, -⟩ :=
          hattends.unwritten hattends.kept.behaves huri htext hunwritten
        exact ⟨none, _, hvisited, hnew huri ((hattends.of_silence hsilence).withJournal journal),
          .nothing fun h => hplain (h.1.isPlain_of_offers hattends.offers)⟩
    · obtain ⟨after, hvisited, hstands, -⟩ := hattends.unfit hfit
      exact ⟨none, after, hvisited, hold hstands, .nothing fun h => hfit h.1.2⟩
  · refine ⟨none, after, hvisited, hold hstands, .nothing fun h => hunwelcome ?_⟩
    obtain ⟨spec, executable, hprospect, -⟩ := h.1.1
    exact (hreports.answers spec _ ⟨executable, hprospect, rfl⟩).1

/-- What comes of the visits of files that have documents of their own is what is reported for each
of them. -/
theorem Stands.visits_yield {files : List Path}
    (h : d.Stands (around.machine.Acquainted seen) around)
    (hreports : ∀ path ∈ files, around.Reports (firstLimit settings) silent report path)
    (hdistinct : files.Pairwise fun path other => ∀ uri otherUri,
      around.machine.uriOf path = .ok uri → around.machine.uriOf other = .ok otherUri →
        Uri.key uri ≠ Uri.key otherUri)
    (hunseen : ∀ path ∈ files, ∀ uri, around.machine.uriOf path = .ok uri →
      ¬ seen (Uri.key uri)) :
    ∃ visits after, means.Visits (patienceOf settings) files d visits after ∧
      ∀ visit ∈ visits, around.Yields silent report visit.path (visit.found.getD []) := by
  induction files generalizing d seen with
  | nil => exact ⟨[], d, .nil d, nofun⟩
  | cons path rest ih =>
    obtain ⟨hpath, hothers⟩ := List.forall_mem_cons.1 hreports
    obtain ⟨hfirst, hrest⟩ := List.pairwise_cons.1 hdistinct
    obtain ⟨hnew, hnewer⟩ := List.forall_mem_cons.1 hunseen
    obtain ⟨found, between, hvisited, hstands, hyields⟩ := h.visit_yields hpath hnew
    have hstill : ∀ other ∈ rest, ∀ uri, around.machine.uriOf other = .ok uri →
        ¬ SeenAfter around seen path (Uri.key uri) := by
      rintro other hother uri huri (hseen | ⟨first, hfirstUri, heq⟩)
      · exact hnewer other hother uri huri hseen
      · exact hfirst other hother first uri hfirstUri huri heq.symm
    obtain ⟨visits, after, hvisits, hall⟩ := ih hstands hothers hrest hstill
    exact ⟨_, after, .cons hvisited hvisits, List.forall_mem_cons.2 ⟨hyields, hall⟩⟩

/-- Visits of the same files of which the same comes find the same. -/
theorem findings_congr {visits others : List SurveyMeans.Visit}
    (hpaths : visits.map (·.path) = others.map (·.path))
    (h : ∀ visit ∈ visits, around.Yields silent report visit.path (visit.found.getD []))
    (hothers : ∀ visit ∈ others, around.Yields silent report visit.path (visit.found.getD [])) :
    visits.flatMap (·.findings) = others.flatMap (·.findings) := by
  induction visits generalizing others with
  | nil =>
    rw [List.map_nil, eq_comm, List.map_eq_nil_iff] at hpaths
    rw [hpaths]
  | cons visit rest ih =>
    obtain ⟨other, more, rfl, hpath, hmore⟩ := List.map_eq_cons_iff.1 hpaths.symm
    obtain ⟨hvisit, hrest⟩ := List.forall_mem_cons.1 h
    obtain ⟨hother, hlast⟩ := List.forall_mem_cons.1 hothers
    rw [hpath] at hother
    rw [List.flatMap_cons, List.flatMap_cons, ih hmore.symm hrest hlast, SurveyMeans.Visit.findings,
      SurveyMeans.Visit.findings, hpath, hvisit.unique hother]

/-- A survey of a directory without links finds for each file what is reported for it. -/
theorem Stands.survey_yields {directory : Path} {wanted : Option (List LooseText)}
    {met : List Sighting} (h : d.Stands (around.machine.Acquainted fun _ => False) around)
    (hmet : around.machine.sightings (search around settings wanted) directory = .ok met)
    (hlinks : around.machine.HasNoLinks directory) (hread : Sighting.AreReadApart met)
    (hreports : ∀ path, .file path ∈ met →
      around.Reports (firstLimit settings) silent report path) :
    ∃ (visits : List SurveyMeans.Visit) (after : Desk),
      visits.map (·.path) = met.filterMap Sighting.file? ∧
      (∀ visit ∈ visits, around.Yields silent report visit.path (visit.found.getD [])) ∧
      (Desk.survey settings directory wanted).run d =
        (Survey.ofFindings (visits.flatMap (·.findings)) (visits.countP (·.found.isSome)),
          after) := by
  obtain ⟨started, hquiet, hrun⟩ := h.survey_run hmet
  obtain ⟨visits, after, hvisits, hyields⟩ := (hquiet h).1.visits_yield
    (fun path hmem => hreports path (Sighting.mem_filterMap_file?.1 hmem))
    (hlinks.pairwise hmet hread) fun _ _ _ _ => id
  exact ⟨visits, after, hvisits.paths, hyields, hrun visits after hvisits⟩

end Desk

theorem Survey.figures_ofFindings (findings : List FileFinding) (filesChecked other : Nat) :
    (ofFindings findings filesChecked).map figures = (ofFindings findings other).map figures := by
  rw [ofFindings, ofFindings]
  cases countSeverity 1 findings with
  | error failure => rfl
  | ok errors =>
    cases countSeverity 2 findings with
    | error failure => rfl
    | ok warnings => rfl

namespace Desk

variable (opening : Machine) (servers : Members ServerBehaviour) (settings : Settings)

def unused (opening : Machine) (settings : Settings) : Desk := .fresh opening.untouched settings

/-- Whether a file can be sent has nothing to do with how servers behave. -/
theorem canSend_withServers (path : Path) :
    (unused (opening.withServers servers) settings).station.CanSend path ↔
      (unused opening settings).station.CanSend path := by
  have hresolve : (unused (opening.withServers servers) settings).station.machine.resolveCommand =
      (unused opening settings).station.machine.resolveCommand := by
    funext command
    unfold Machine.resolveCommand Machine.searchPath
    rfl
  have hregistry : (unused (opening.withServers servers) settings).station.fleet.registry =
      (unused opening settings).station.fleet.registry := rfl
  have hprospect : (unused (opening.withServers servers) settings).station.prospect path =
      (unused opening settings).station.prospect path := by
    unfold Station.prospect
    rw [hregistry, hresolve]
  have huri : (unused (opening.withServers servers) settings).station.machine.uriOf path =
      (unused opening settings).station.machine.uriOf path := rfl
  have htext : (unused (opening.withServers servers) settings).station.machine.readText path =
      (unused opening settings).station.machine.readText path := rfl
  rw [Station.CanSend, hprospect, huri, htext]
  exact Iff.rfl

theorem sightings_withServers (search : Search) (directory : Path) :
    (opening.withServers servers).sightings search directory =
      opening.sightings search directory := by
  have hfind : (opening.withServers servers).find = opening.find := rfl
  have hunlistable : (opening.withServers servers).unlistable = opening.unlistable := rfl
  have hroom : (opening.withServers servers).walkRoom = opening.walkRoom := rfl
  exact sightings_congr hfind hunlistable hroom search directory

/-- Where different files are read as different paths, a survey with servers that crash at some
files finds and counts what it does with servers that stay up and publish nothing for those files.
For each other file that can be sent it finds what its server reports, once and under its name. -/
theorem crashes_lose_nothing (directory : Path) (wanted : Option (List LooseText))
    (silent : Path → Prop) (report : Path → List Json) {met : List Sighting}
    (hmet : opening.sightings (search (unused opening settings).station settings wanted) directory =
      .ok met)
    (hlinks : opening.HasNoLinks directory)
    (hread : Sighting.AreReadApart met)
    (hcrashes : ∀ path, .file path ∈ met →
      (unused opening settings).station.Crashes (firstLimit settings) silent report path)
    (hstays : ∀ path, .file path ∈ met → (unused (opening.withServers servers)
      settings).station.StaysUp (firstLimit settings) silent report path) :
    let crashed := ((Desk.survey settings directory wanted).run (unused opening settings)).1
    let calm := ((Desk.survey settings directory wanted).run
      (unused (opening.withServers servers) settings)).1
    crashed.map Survey.figures = calm.map Survey.figures ∧
      ((∀ path, .file path ∈ met → ∀ item ∈ report path, ∃ members, item = .object members) →
        ∃ (survey : Survey) (visits : List SurveyMeans.Visit), crashed = .ok survey ∧
          survey.SumsUp visits ∧ visits.map (·.path) = met.filterMap Sighting.file? ∧
          ∀ visit ∈ visits,
            (unused opening settings).station.Yields silent report visit.path
              (visit.found.getD [])) := by
  intro crashed calm
  have hmetUnused := (opening.sightings_untouched _ directory).trans hmet
  have hmetCalm := ((opening.withServers servers).sightings_untouched _ directory).trans
    ((sightings_withServers opening servers _ directory).trans hmet)
  obtain ⟨visits, after, hpaths, hyields, hrun⟩ :=
    (stands_fresh _ opening settings).survey_yields hmetUnused ⟨hlinks.start, hlinks.linkless⟩
      hread fun path hmem => (hcrashes path hmem).toReports
  obtain ⟨others, last, hothers, hothersYield, hcalm⟩ :=
    (stands_fresh _ (opening.withServers servers) settings).survey_yields hmetCalm
      ⟨hlinks.start, hlinks.linkless⟩ hread fun path hmem => (hstays path hmem).toReports
  have hcrashed : crashed = Survey.ofFindings (visits.flatMap (·.findings))
    (visits.countP (·.found.isSome)) := congrArg Prod.fst hrun
  have hstayed : calm = Survey.ofFindings (others.flatMap (·.findings))
    (others.countP (·.found.isSome)) := congrArg Prod.fst hcalm
  have hfindings := findings_congr (hpaths.trans hothers.symm) hyields fun visit hvisit =>
    (hothersYield visit hvisit).congr (canSend_withServers opening servers settings visit.path)
  refine ⟨?_, fun hobjects => ?_⟩
  · rw [hcrashed, hstayed, ← hfindings]
    exact Survey.figures_ofFindings ..
  · have hfound : ∀ finding ∈ visits.flatMap (·.findings), ∃ members,
        finding.diagnostic = .object members := by
      intro finding hfinding
      obtain ⟨visit, hvisit, hmem⟩ := List.mem_flatMap.1 hfinding
      obtain ⟨item, hitem, rfl⟩ := List.mem_map.1 hmem
      have hpath : visit.path ∈ met.filterMap Sighting.file? :=
        hpaths ▸ List.mem_map_of_mem hvisit
      exact hobjects visit.path (Sighting.mem_filterMap_file?.1 hpath) item
        ((hyields visit hvisit).subset item hitem)
    obtain ⟨survey, hsurvey, hsums⟩ := SurveyMeans.exists_sumsUp hfound
    exact ⟨survey, visits, hcrashed.trans hsurvey, hsums, hpaths, hyields⟩

/-! A server that crashes at one of two files. -/

def reviewing (fatalFiles : List String) : ServerBehaviour where
  publications := [("b.py", { versions := [.array [remark "long line"]], delay := 1 })]
  fatalFiles := fatalFiles
  breaksPipe := true

def fragileMachine : Machine where
  files := .directory [("a.py", .file []), ("b.py", .file [])]
  workingDirectory := []
  installed := ["pylsp"]
  servers := [("pylsp", reviewing ["a.py"])]

def fragileStation (fatal : List String) : Station :=
  (unused (fragileMachine.withServers [("pylsp", reviewing fatal)]) .usual).station

section Fragile

variable (fatal : List String) {name : String}

theorem sightings_fragile :
    fragileMachine.sightings (search (unused fragileMachine .usual).station .usual (some [".py"]))
      (.ofLocation []) = .ok [.file (.ofLocation ["a.py"]), .file (.ofLocation ["b.py"])] := by
  have hsorted : fragileMachine.files.sorted = fragileMachine.files := by
    refine congrArg Node.directory (List.mergeSort_of_pairwise ?_)
    decide +kernel
  have hmet : fragileMachine.encounters
      (search (unused fragileMachine .usual).station .usual (some [".py"])) (.ofLocation []) =
        .ok [.file (.ofLocation ["a.py"]), .file (.ofLocation ["b.py"])] :=
    congrArg (fun node => Except.ok (fragileMachine.sight
      (.of [".py"] Settings.usual.ignoredDirectories) 960 (.ofLocation []) [] node)) hsorted
  exact Machine.sightings_of_notMem hmet (by decide)

theorem isLinkless_fragile : fragileMachine.files.IsLinkless := by
  refine .directory ?_ (by decide) ?_
  · simp only [List.forall_mem_cons]
    refine ⟨?_, ?_, nofun⟩ <;> exact ⟨by decide, by decide, by decide, by decide⟩
  · simp only [List.forall_mem_cons]
    exact ⟨.file [], .file [], nofun⟩

theorem hasNoLinks_fragile : fragileMachine.HasNoLinks (.ofLocation []) := by
  refine ⟨nofun, fun place node hfound => ?_⟩
  obtain ⟨-, rfl⟩ := Prod.mk.inj (Except.ok.inj hfound)
  exact isLinkless_fragile

theorem areReadApart_fragile :
    Sighting.AreReadApart [.file (.ofLocation ["a.py"]), .file (.ofLocation ["b.py"])] := by
  have hfirst : (Path.ofLocation ["a.py"]).reading = "/a.py".toList := Uri.reading_of_text rfl
  have hsecond : (Path.ofLocation ["b.py"]).reading = "/b.py".toList := Uri.reading_of_text rfl
  intro path other hpath hother hread
  simp only [List.mem_cons, Sighting.file.injEq, List.not_mem_nil, or_false] at hpath hother
  rcases hpath with rfl | rfl <;> rcases hother with rfl | rfl
  · rfl
  · rw [hfirst, hsecond] at hread
    cases hread
  · rw [hfirst, hsecond] at hread
    cases hread
  · rfl

theorem uriOf_fragile (h : name = "a.py" ∨ name = "b.py") :
    (fragileStation fatal).machine.uriOf (.ofLocation [name]) =
      .ok (Uri.ofPath (.ofLocation [name])) := by
  have hname : IsName name := by
    rcases h with rfl | rfl <;> exact ⟨by decide, by decide, by decide, by decide⟩
  have hfound : ∃ found, (fragileStation fatal).machine.find (Path.ofLocation [name]).text =
      .ok found := by
    rcases h with rfl | rfl <;> exact ⟨_, rfl⟩
  obtain ⟨found, hfound⟩ := hfound
  exact Machine.uriOf_of_find (isLinkless_fragile.realPath_ofLocation _ hname.areSteps) hfound

theorem offers_fragile (h : name = "a.py" ∨ name = "b.py") : ∃ spec new,
    (fragileStation fatal).Offers (.ofLocation [name]) spec new ∧
      new.behaviour = reviewing fatal ∧ (spec.languageId (.ofLocation [name])).IsPlain := by
  rcases h with rfl | rfl <;>
    exact ⟨_, _, ⟨"/usr/bin/pylsp", rfl, rfl⟩, rfl, LooseText.isPlain_ofString "python"⟩

theorem welcomes_fragile (h : name = "a.py" ∨ name = "b.py") :
    (fragileStation fatal).Welcomes (.ofLocation [name]) := by
  obtain ⟨spec, new, hoffers, hbehaviour, -⟩ := offers_fragile fatal h
  have hfile : (fragileStation fatal).machine.holdsDirectory (.ofLocation [name]) =
      .ok false := by
    rcases h with rfl | rfl <;> rfl
  refine ⟨spec, new, _, hoffers, rfl, ?_, Machine.findProjectRoot_top rootMarkers hfile⟩
  rw [hbehaviour]
  exact ⟨.null, _, rfl, by decide +kernel, by decide +kernel, rfl⟩

/-- The entry of the server's table that a file has. -/
theorem entryFor_reviewing (h : name = "a.py" ∨ name = "b.py") (version : Int) :
    (reviewing fatal).entryFor (Uri.ofPath (.ofLocation [name])) version = name := by
  rcases h with rfl | rfl
  · have huri : Uri.ofPath (.ofLocation ["a.py"]) = "file:///a.py" := by decide
    rw [huri]
    exact show fileNameOf "file:///a.py" = "a.py" by decide +kernel
  · have huri : Uri.ofPath (.ofLocation ["b.py"]) = "file:///b.py" := by decide
    rw [huri]
    exact show fileNameOf "file:///b.py" = "b.py" by decide +kernel

theorem behaviour_of_offers_fragile (h : name = "a.py" ∨ name = "b.py") {spec : ServerSpec}
    {new : Connection} {uri : String}
    (hoffers : (fragileStation fatal).Offers (.ofLocation [name]) spec new)
    (huri : (fragileStation fatal).machine.uriOf (.ofLocation [name]) = .ok uri) :
    new.behaviour = reviewing fatal ∧ uri = Uri.ofPath (.ofLocation [name]) := by
  obtain ⟨known, found, hfound, hbehaviour, -⟩ := offers_fragile fatal h
  obtain ⟨-, rfl⟩ := hfound.unique hoffers
  exact ⟨hbehaviour, Except.ok.inj (huri.symm.trans (uriOf_fragile fatal h))⟩

theorem endsAt_reviewing (h : name = "a.py" ∨ name = "b.py") (version : Int) :
    (reviewing fatal).EndsAt ⟨Uri.ofPath (.ofLocation [name]), version⟩ ↔ name ∈ fatal := by
  unfold ServerBehaviour.EndsAt
  rw [entryFor_reviewing fatal h]
  exact List.contains_iff_mem

/-- The server publishes its remark in time, if it does not end there. -/
theorem reports_fragile (hlives : "b.py" ∉ fatal) (h : name = "a.py" ∨ name = "b.py") :
    (fragileStation fatal).Reports (firstLimit .usual) (· = .ofLocation ["a.py"])
      (fun _ => [remark "long line"]) (.ofLocation [name]) := by
  refine ⟨fun spec new hoffers => ?_, fun spec new uri hoffers huri hspoken => ?_,
    fun spec new uri hoffers huri hsilent => ?_⟩
  · have hwelcomes := welcomes_fragile fatal h
    exact ⟨hwelcomes, (hwelcomes.of_offers hoffers).endures⟩
  · obtain ⟨hbehaviour, rfl⟩ := behaviour_of_offers_fragile fatal h hoffers huri
    obtain rfl : name = "b.py" := h.resolve_left fun heq => hspoken (heq ▸ rfl)
    rw [hbehaviour]
    refine ⟨fun hends => hlives ((endsAt_reviewing fatal h 1).1 hends),
      { versions := [.array [remark "long line"]], delay := 1 }, ?_, by decide, ?_⟩
    · rw [ServerBehaviour.publication?, entryFor_reviewing fatal h]
      rfl
    · exact ⟨by decide +kernel, by decide +kernel, by rfl⟩
  · obtain ⟨hbehaviour, rfl⟩ := behaviour_of_offers_fragile fatal h hoffers huri
    obtain rfl : name = "a.py" :=
      LooseText.ofString_inj.1 (List.cons.inj (congrArg Path.parts hsilent)).1
    rw [hbehaviour, ServerBehaviour.publication?, entryFor_reviewing fatal h]
    rfl

theorem canSend_fragile (h : name = "a.py" ∨ name = "b.py") :
    (fragileStation fatal).CanSend (.ofLocation [name]) := by
  obtain ⟨spec, new, ⟨executable, hprospect, -⟩, -, hplain⟩ := offers_fragile fatal h
  obtain ⟨text, htext⟩ : ∃ text,
      (fragileStation fatal).machine.readText (.ofLocation [name]) = .ok text := by
    rcases h with rfl | rfl <;> exact ⟨_, rfl⟩
  exact ⟨⟨spec, executable, hprospect, hplain⟩, _, text, uriOf_fragile fatal h, htext⟩

end Fragile

/-- The crash at the first file leaves the remark on the second one. -/
theorem crashes_lose_nothing_fragile :
    let crashed := ((Desk.survey .usual (.ofLocation []) (some [".py"])).run
      (unused fragileMachine .usual)).1
    let calm := ((Desk.survey .usual (.ofLocation []) (some [".py"])).run
      (unused (fragileMachine.withServers [("pylsp", reviewing [])]) .usual)).1
    crashed.map Survey.figures = calm.map Survey.figures ∧
      ∃ survey, crashed = .ok survey ∧ survey.findings = [⟨"/b.py", remark "long line"⟩] := by
  intro crashed calm
  have hnames : ∀ path, .file path ∈ [Sighting.file (.ofLocation ["a.py"]),
      .file (.ofLocation ["b.py"])] → ∃ name, (name = "a.py" ∨ name = "b.py") ∧
        path = .ofLocation [name] := by
    intro path hpath
    rcases List.mem_cons.1 hpath with heq | hlast
    · exact ⟨"a.py", .inl rfl, Sighting.file.inj heq⟩
    · exact ⟨"b.py", .inr rfl, Sighting.file.inj (List.mem_singleton.1 hlast)⟩
  obtain ⟨hsame, hfound⟩ := crashes_lose_nothing fragileMachine [("pylsp", reviewing [])] .usual
    (.ofLocation []) (some [".py"]) (· = .ofLocation ["a.py"]) (fun _ => [remark "long line"])
    sightings_fragile hasNoLinks_fragile areReadApart_fragile
    (fun path hpath => by
      obtain ⟨name, hname, rfl⟩ := hnames path hpath
      refine ⟨reports_fragile ["a.py"] (by decide) hname,
        fun spec new uri hoffers huri hsilent => ?_⟩
      obtain ⟨hbehaviour, rfl⟩ := behaviour_of_offers_fragile ["a.py"] hname hoffers huri
      obtain rfl : name = "a.py" :=
        LooseText.ofString_inj.1 (List.cons.inj (congrArg Path.parts hsilent)).1
      rw [hbehaviour]
      exact (endsAt_reviewing ["a.py"] hname 1).2 List.mem_cons_self)
    (fun path hpath => by
      obtain ⟨name, hname, rfl⟩ := hnames path hpath
      refine ⟨reports_fragile [] (by decide) hname, fun spec new document hoffers => ?_⟩
      obtain ⟨known, found, hknown, hbehaviour, -⟩ := offers_fragile [] hname
      obtain ⟨-, rfl⟩ := hknown.unique hoffers
      rw [hbehaviour]
      exact Bool.false_ne_true)
  obtain ⟨survey, visits, hsurvey, hsums, hpaths, hyields⟩ :=
    hfound fun _ _ => List.forall_mem_singleton.2 ⟨_, rfl⟩
  refine ⟨hsame, survey, hsurvey, ?_⟩
  obtain ⟨first, rest, rfl, hfirst, hrest⟩ := List.map_eq_cons_iff.1 hpaths
  obtain ⟨second, none, rfl, hsecond, hnone⟩ := List.map_eq_cons_iff.1 hrest
  obtain rfl := List.map_eq_nil_iff.1 hnone
  have hnothing := hyields first (.head _)
  have hremark := hyields second (.tail _ (.head _))
  rw [hfirst] at hnothing
  rw [hsecond] at hremark
  have hsilent : first.found.getD [] = [] := hnothing.unique (.nothing fun h => h.2 rfl)
  have hspoken : second.found.getD [] = [remark "long line"] :=
    hremark.unique (.reported (canSend_fragile ["a.py"] (.inr rfl)) (by decide))
  have htext : (Path.ofLocation ["b.py"]).text = "/b.py" := by decide
  rw [hsums.findings, List.flatMap_cons, List.flatMap_cons, SurveyMeans.Visit.findings,
    SurveyMeans.Visit.findings, hsilent, hspoken, hsecond, htext]
  rfl

end Desk

end ProjectCheck
