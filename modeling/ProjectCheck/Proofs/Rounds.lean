import ProjectCheck.Proofs.Files.Linkless
import ProjectCheck.Proofs.Freshness

/-!
Desks that are used over and over while files change. When the servers publish in time, each round
finds what was published for the contents that were sent in it. A publication for later contents
that comes within all waits but not with the first one is in time no more: the round ends with what
was published for earlier ones.
-/
namespace ProjectCheck

open Run Machine

namespace Desk

variable {opening around : Station} {d : Desk} {settings : Settings} {path : Path}

inductive Inspection where
  | survey (directory : Path) (wanted : Option (List LooseText))
  | check (directory : LooseText) (strategy : Json)

structure Round where
  files : Node
  inspection : Inspection

namespace Inspection

def action (settings : Settings) : Inspection → Action
  | survey directory wanted => .survey settings directory wanted
  | check directory strategy => .check settings directory strategy

def Finds (settings : Settings) (around : Station) (path : Path) : Inspection → Prop
  | survey directory wanted => ∃ met,
      around.machine.sightings (search around settings wanted) directory = .ok met ∧
        .file path ∈ met
  | check directory _ => ∃ root met, around.machine.target directory = .directory root ∧
      around.machine.sightings (search around settings none) root = .ok met ∧ .file path ∈ met

/-- Where files can be looked for, the survey is made and is fresh, and a check for which no checker
is chosen reports a survey that is. -/
def IsFresh (settings : Settings) (around : Station) (d : Desk) : Inspection → Prop
  | survey directory wanted => ∀ met,
      around.machine.sightings (search around settings wanted) directory = .ok met →
        ∃ survey after, (Desk.survey settings directory wanted).run d = (.ok survey, after) ∧
          FreshSurvey settings around directory wanted d survey after
  | check directory value => ∀ strategy root chosen ready met,
      Strategy.ofValue value = .ok strategy →
        around.machine.target directory = .directory root →
          d.Prepares strategy root chosen ready → (∀ language, chosen ≠ .checker language) →
            around.machine.sightings (search around settings none) root = .ok met →
              ∃ survey after, (checkNamed settings directory value).run d =
                  (DirectoryReport.ofSurvey survey, after) ∧
                FreshSurvey settings around root none d survey after

end Inspection

def afterRounds (settings : Settings) (rounds : List Round) (d : Desk) : Desk :=
  rounds.foldl
    (fun d round => ((round.inspection.action settings).step.run (d.withFiles round.files)).2) d

def Round.IsTimely (limit : Nat → Nat) (settings : Settings) (opening : Station)
    (round : Round) : Prop :=
  ∀ path, round.inspection.Finds settings (opening.withFiles round.files) path →
    Desk.IsTimely limit (opening.withFiles round.files) path

theorem keeps_action {inspection : Inspection} (settings : Settings)
    (htimely : ∀ path, inspection.Finds settings around path →
      IsTimely (timeLimit settings) around path) :
    Moves (Keeps around.machine.Informed around) (inspection.action settings).step d := by
  have hR := steady_keeps around.machine.Informed around
  have hvisit : ∀ path, IsTimely (timeLimit settings) around path → ∀ d : Desk,
      d.Stands around.machine.Informed around → ∃ found after,
        means.Visited (patienceOf settings) path d found after ∧
          after.Stands around.machine.Informed around := by
    intro path hpath d h
    obtain ⟨found, after, hvisited, hafter, -⟩ := h.visit_fresh hpath
    exact ⟨found, after, hvisited, hafter⟩
  cases inspection with
  | survey directory wanted =>
    refine Moves.bind_pure hR (keeps_survey fun met hmet path hmem => hvisit path ?_)
    exact htimely path ⟨met, hmet, hmem⟩
  | check directory value =>
    refine Moves.bind_pure hR (keeps_check value fun root hroot ready => ?_)
    refine keeps_survey fun met hmet path hmem => hvisit path ?_
    exact htimely path ⟨root, met, hroot, hmet, hmem⟩

/-- What the clients know stays when files change. -/
theorem Stands.changed (h : d.Stands around.machine.Informed around) (files : Node) :
    (d.withFiles files).Stands (around.withFiles files).machine.Informed
      (around.withFiles files) :=
  (h.withFiles files).mono fun _ _ => (informed_withFiles files).2

/-- Rounds whose servers inform in time keep a desk. -/
theorem Stands.afterRounds (h : d.Stands opening.machine.Informed opening) {rounds : List Round}
    (htimely : ∀ round ∈ rounds, round.IsTimely (timeLimit settings) settings opening)
    (files : Node) : ((d.afterRounds settings rounds).withFiles files).Stands
      (opening.withFiles files).machine.Informed (opening.withFiles files) := by
  have hall : ∀ files, (d.withFiles files).Stands (opening.withFiles files).machine.Informed
      (opening.withFiles files) := h.changed
  clear h
  induction rounds generalizing d with
  | nil => exact hall files
  | cons round rest ih =>
    refine ih (fun other hmem => htimely other (List.mem_cons_of_mem round hmem)) fun files => ?_
    have hround := htimely round (List.mem_cons_self ..)
    exact Stands.changed (keeps_action settings hround (hall round.files)) files

/-! What comes too late. -/

/-- When nothing but one file is found, whose server publishes something for it within all waits, a
first survey leaves an idle client that knows what was published. -/
theorem Stands.survey_first {directory : Path} {wanted : Option (List LooseText)}
    {spec : ServerSpec} {new : Connection} {uri text : String} {publication : Publication}
    {items : List Json} (h : d.Stands (around.machine.Acquainted fun _ => False) around)
    (hmet : around.machine.sightings (search around settings wanted) directory = .ok [.file path])
    (hwelcomes : around.Welcomes path) (hoffers : around.Offers path spec new)
    (hplain : (spec.languageId path).IsPlain) (huri : around.machine.uriOf path = .ok uri)
    (htext : around.machine.readText path = .ok text)
    (hpublishes : new.behaviour.publication? ⟨uri, 1⟩ = some publication)
    (hends : ¬ new.behaviour.EndsAt ⟨uri, 1⟩)
    (hread : IsReadAs (ServerBehaviour.publish uri (ServerBehaviour.Publication.at publication 1))
      (ServerBehaviour.publish uri (.array items)))
    (htime : publication.delay ≤ 1 + settings.publicationRetries) :
    ∃ pid c, let after := ((Desk.survey settings directory wanted).run d).2
      (∃ kept, after.Stands kept around) ∧
      after.station.fleet.clients.get? spec.key = some pid ∧
      after.station.machine.connection? pid = some c ∧ c.IsIdle ∧ c.behaviour = new.behaviour ∧
      c.session.published.get? (Uri.key uri) = some (.array items) ∧
      c.session.nextVersion uri = 2 := by
  obtain ⟨started, hquiet, hrun⟩ := h.survey_run hmet
  obtain ⟨hstarted, -⟩ := hquiet h
  have hendures : ∀ spec new, around.Offers path spec new → new.behaviour.Endures :=
    fun _ _ hoffered => (hwelcomes.of_offers hoffered).endures
  rcases hstarted.begins (persists_acquainted _ _) (suits_acquainted hendures)
      (patienceOf settings) with
    ⟨served, pid, found, other, c, hattends⟩ | ⟨-, -, -, -, hunwelcome⟩
  · obtain ⟨rfl, rfl⟩ := hoffers.unique hattends.offers
    obtain ⟨machine, c', hvisited, hstands, hc', hidle, hbehaviour, hsession⟩ :=
      hattends.published huri htext hplain id hpublishes hends hread htime
    have hfound := hrun _ _ (.cons hvisited (.nil _))
    refine ⟨pid, c', ?_⟩
    rw [hfound]
    refine ⟨⟨_, hstands⟩, hattends.client, hc', hidle, hbehaviour, ?_, ?_⟩
    · rw [hsession]
      exact Members.get?_set_self ..
    · rw [hsession, Session.nextVersion, Session.withPublished, Session.setVersion]
      simp only [Members.get?_set_self]
  · exact absurd hwelcomes hunwelcome

/-- When nothing but one file is found, whose server has published something before and publishes
something else for the contents that are there later than with the first wait, a survey finds what
was published before. -/
theorem Stands.survey_stale {kept : ServerSpec → Connection → Prop} {directory : Path}
    {wanted : Option (List LooseText)} {pid : Nat} {spec : ServerSpec} {executable : LooseText}
    {uri text : String} {c : Connection} {publication : Publication} {old items : List Json}
    (h : d.Stands kept around)
    (hmet : around.machine.sightings (search around settings wanted) directory = .ok [.file path])
    (hprospect : around.prospect path = .installed spec executable)
    (hkey : d.station.fleet.clients.get? spec.key = some pid)
    (hc : d.station.machine.connection? pid = some c) (hidle : c.IsIdle)
    (huri : around.machine.uriOf path = .ok uri) (htext : around.machine.readText path = .ok text)
    (hsent : c.session.nextVersion uri ≠ 1)
    (hpublishes : c.behaviour.publication? (c.session.nextDocument uri) = some publication)
    (hends : ¬ c.behaviour.EndsAt (c.session.nextDocument uri))
    (hread : IsReadAs (ServerBehaviour.publish uri
      (ServerBehaviour.Publication.at publication (c.session.nextVersion uri)))
      (ServerBehaviour.publish uri (.array items)))
    (hold : c.session.published.get? (Uri.key uri) = some (.array old))
    (hlate : 1 < publication.delay) (hchanged : old ≠ items) {survey : Survey} {after : Desk}
    (hrun : (Desk.survey settings directory wanted).run d = (.ok survey, after)) :
    ¬ FreshSurvey settings around directory wanted d survey after := by
  obtain ⟨⟨⟨m, f⟩, cache⟩, hquiet, hsurvey⟩ := h.survey_run hmet
  obtain ⟨hstarted, journal, heq⟩ := hquiet h
  obtain ⟨rfl, rfl⟩ := Station.mk.inj heq
  obtain ⟨last, hserved⟩ := Fleet.serverFor_idle (m := d.station.machine.withJournal journal)
    ((hstarted.prospect path).trans hprospect) hkey hc hidle
  let served : Desk := ⟨⟨d.station.machine.withJournal last, d.station.fleet⟩, cache⟩
  have hstands : served.Stands kept around := hstarted.withJournal last
  obtain ⟨machine, c', languageId, hattended, hc', hdialogue⟩ := attend_late (d := served)
    hstands.serving.rest hc hidle ((hstands.uriOf path).trans huri)
    ((hstands.readText path).trans htext) (absurd · hsent) hpublishes hends hread hold hlate
    settings.publicationWait settings.publicationRetries
  have hsession : (means.session? path).run
      ⟨⟨d.station.machine.withJournal journal, d.station.fleet⟩, cache⟩ =
        (.ok (some pid), served) := by
    rw [session?_means]
    exact onStation_run hserved
  have hvisited := SurveyMeans.collect_run_iff.1
    (SurveyMeans.collect_run_attended hsession hattended)
  have hfound := hsurvey _ _ (.cons (.completed hvisited) (.nil _))
  obtain ⟨hsummed, rfl⟩ := Prod.mk.inj (hfound.symm.trans hrun)
  have hfindings := Survey.findings_of_ofFindings hsummed
  rintro ⟨met, visits, hmet', hfresh, hsums⟩
  obtain rfl := Except.ok.inj (hmet.symm.trans hmet')
  cases hfresh with
  | @cons _ _ _ _ _ found _ hfirst hrest =>
    cases hrest
    have hsent : (served.withMachine machine).dialogues pid = d.dialogues pid ++
        [.toServer ((c.session.nextDocument uri).message text languageId),
          .fromServer (ServerBehaviour.publish uri
            (ServerBehaviour.Publication.at publication (c.session.nextVersion uri)))] := by
      rw [dialogues, dialogues, Machine.dialogue_eq hc]
      exact (Machine.dialogue_eq hc').trans hdialogue
    obtain rfl := hfirst.found_eq hsent hread
    have hsame : (items.map fun item => FileFinding.mk path.text item) ++ [] =
        (old.map fun item => FileFinding.mk path.text item) ++ [] :=
      hsums.findings.symm.trans hfindings
    rw [List.append_nil, List.append_nil] at hsame
    have hinj : ∀ a b, FileFinding.mk path.text a = ⟨path.text, b⟩ → a = b :=
      fun _ _ heq => (FileFinding.mk.inj heq).2
    exact hchanged ((List.map_inj_right hinj).1 hsame).symm

/-! A server that publishes remarks. -/

def remark (text : String) : Json := .object [("message", .string text)]

/-- A server that publishes a remark for a file after some waits, and another one for later
versions. -/
def remarking (delay : Nat) : ServerBehaviour where
  publications :=
    [("a.py", { versions := [.array [remark "old"], .array [remark "new"]], delay })]

def remarkingMachine (delay : Nat) : Machine where
  files := .directory []
  workingDirectory := []
  installed := ["pylsp"]
  servers := [("pylsp", remarking delay)]

def oneFileRound (content : Bytes) : Round where
  files := .directory [("a.py", .file content)]
  inspection := .survey (Path.ofText "/") (some [".py"])

def patientSettings : Settings := { Settings.usual with publicationRetries := 1 }

def remarkingStation (delay : Nat) (content : Bytes) : Station :=
  (Desk.fresh (remarkingMachine delay).untouched patientSettings).station.withFiles
    (oneFileRound content).files

section Remarks

variable (delay : Nat) (content : Bytes)

theorem sightings_remarking : (remarkingStation delay content).machine.sightings
    (search (remarkingStation delay content) patientSettings (some [".py"])) (Path.ofText "/") =
      .ok [.file (Path.ofText "/a.py")] := by
  have hsorted : (oneFileRound content).files.sorted = (oneFileRound content).files :=
    congrArg Node.directory (List.mergeSort_of_pairwise (List.pairwise_singleton ..))
  have hmet : (remarkingStation delay content).machine.encounters
      (search (remarkingStation delay content) patientSettings (some [".py"])) (Path.ofText "/") =
        .ok [.file (Path.ofText "/a.py")] :=
    congrArg (fun node => Except.ok ((remarkingStation delay content).machine.sight
      (.of [".py"] patientSettings.ignoredDirectories) 960 (Path.ofText "/") [] node)) hsorted
  exact Machine.sightings_of_notMem hmet (by decide)

theorem isName_remarked : IsName "a.py" := ⟨by decide, by decide, by decide, by decide⟩

theorem isLinkless_oneFileRound : (oneFileRound content).files.IsLinkless :=
  .directory (List.forall_mem_singleton.2 isName_remarked) (List.pairwise_singleton ..)
    (List.forall_mem_singleton.2 (.file content))

theorem uriOf_remarking :
    (remarkingStation delay content).machine.uriOf (Path.ofText "/a.py") =
      .ok "file:///a.py" := by
  have hplace : Path.ofText "/a.py" = .ofLocation ["a.py"] := by decide
  have huri : Uri.ofPath (Path.ofLocation ["a.py"]) = "file:///a.py" := by decide
  rw [hplace, ← huri]
  exact uriOf_of_find
    ((isLinkless_oneFileRound content).realPath_ofLocation _ isName_remarked.areSteps) rfl

theorem readText_remarking : ∃ text,
    (remarkingStation delay content).machine.readText (Path.ofText "/a.py") = .ok text :=
  ⟨_, rfl⟩

theorem offers_remarking : ∃ spec new,
    (remarkingStation delay content).Offers (Path.ofText "/a.py") spec new ∧
      new.behaviour = remarking delay ∧ (spec.languageId (Path.ofText "/a.py")).IsPlain :=
  ⟨_, _, ⟨"/usr/bin/pylsp", rfl, rfl⟩, rfl, LooseText.isPlain_ofString "python"⟩

/-- Both remarks can be read. -/
theorem isReadAs_remark {text : String} (htext : text = "old" ∨ text = "new") :
    IsReadAs (ServerBehaviour.publish "file:///a.py" (.array [remark text]))
      (ServerBehaviour.publish "file:///a.py" (.array [remark text])) := by
  rcases htext with rfl | rfl <;> exact ⟨by decide +kernel, by decide +kernel, by rfl⟩

/-- What the server publishes for the file. -/
theorem publication?_remarking (version : Int) :
    (remarking delay).publication? ⟨"file:///a.py", version⟩ = some
      { versions := [.array [remark "old"], .array [remark "new"]], delay } := by
  have hname : fileNameOf "file:///a.py" = "a.py" := by decide +kernel
  have hentry : (remarking delay).entryFor "file:///a.py" version = "a.py" := hname
  rw [ServerBehaviour.publication?, hentry]
  rfl

theorem informs_remarking {limit : Nat → Nat} (hlimit : ∀ version, 0 < version →
    delay ≤ limit version) : (remarking delay).Informs limit "file:///a.py" where
  lives version _ := by
    unfold ServerBehaviour.EndsAt
    exact Bool.false_ne_true
  publishes version hversion := by
    obtain ⟨text, htext, hat⟩ : ∃ text, (text = "old" ∨ text = "new") ∧
        ServerBehaviour.Publication.at
          { versions := [.array [remark "old"], .array [remark "new"]], delay } version =
            .array [remark text] := by
      unfold ServerBehaviour.Publication.at
      by_cases hfirst : version = 1
      · exact ⟨"old", .inl rfl, by rw [hfirst]; rfl⟩
      · have hlater : min (version : Int).toNat 2 - 1 = 1 := by omega
        refine ⟨"new", .inr rfl, ?_⟩
        simp only [List.length_cons, List.length_nil, hlater]
        rfl
    refine ⟨_, [remark text], publication?_remarking delay version, hlimit version hversion, ?_, ?_⟩
    · rw [hat]
      exact isReadAs_remark htext
    · exact List.forall_mem_singleton.2 ⟨_, rfl⟩

theorem findProjectRoot_remarking : ∃ root,
    findProjectRoot (remarkingStation delay content).machine (Path.ofText "/a.py") rootMarkers =
      .ok root := by
  have hplace : Path.ofText "/a.py" = .ofLocation ["a.py"] := by decide
  rw [hplace]
  exact ⟨_, findProjectRoot_top rootMarkers rfl⟩

theorem welcomes_remarking : (remarkingStation delay content).Welcomes (Path.ofText "/a.py") := by
  obtain ⟨spec, new, hoffers, hbehaviour, -⟩ := offers_remarking delay content
  obtain ⟨root, hroot⟩ := findProjectRoot_remarking delay content
  refine ⟨spec, new, root, hoffers, rfl, ?_, hroot⟩
  rw [hbehaviour]
  exact ⟨.null, _, rfl, by decide +kernel, by decide +kernel, rfl⟩

/-- The server informs of the only file that is found. -/
theorem isTimely_remarking {limit : Nat → Nat} (hlimit : ∀ version, 0 < version →
    delay ≤ limit version) : (oneFileRound content).IsTimely limit patientSettings
      (Desk.fresh (remarkingMachine delay).untouched patientSettings).station := by
  rintro path ⟨met, hmet, hmem⟩ spec new hoffers
  obtain rfl := Except.ok.inj ((sightings_remarking delay content).symm.trans hmet)
  obtain rfl := Sighting.file.inj (List.mem_singleton.1 hmem)
  obtain ⟨known, found, hfound, hbehaviour, -⟩ := offers_remarking delay content
  rw [← (hoffers.unique hfound).2, hbehaviour]
  refine ⟨nofun, fun uri text huri _ => ?_⟩
  obtain rfl := Except.ok.inj ((uriOf_remarking delay content).symm.trans huri)
  exact informs_remarking delay hlimit

end Remarks

/-- What a server knows when the earlier contents were surveyed: the remark on them. -/
theorem survey_first_remarking :
    let earlier := oneFileRound [0x78]
    let opening := Desk.fresh (remarkingMachine 2).untouched patientSettings
    let after := opening.afterRounds patientSettings [earlier]
    ∃ kept spec executable pid c, after.Stands kept (remarkingStation 2 [0x78]) ∧
      (remarkingStation 2 [0x78]).prospect (Path.ofText "/a.py") = .installed spec executable ∧
      after.station.fleet.clients.get? spec.key = some pid ∧
      after.station.machine.connection? pid = some c ∧ c.IsIdle ∧ c.behaviour = remarking 2 ∧
      c.session.published.get? (Uri.key "file:///a.py") = some (.array [remark "old"]) ∧
      c.session.nextVersion "file:///a.py" = 2 := by
  intro earlier opening after
  obtain ⟨spec, new, hoffers, hbehaviour, hplain⟩ := offers_remarking 2 [0x78]
  obtain ⟨text, htext⟩ := readText_remarking 2 [0x78]
  obtain ⟨executable, hprospect, -⟩ := id hoffers
  have hstands : (opening.withFiles earlier.files).Stands
      ((remarkingStation 2 [0x78]).machine.Acquainted fun _ => False) (remarkingStation 2 [0x78]) :=
    (stands_fresh _ (remarkingMachine 2) patientSettings).withFiles earlier.files
  have hends : ¬ new.behaviour.EndsAt ⟨"file:///a.py", 1⟩ := by
    rw [hbehaviour]
    exact Bool.false_ne_true
  have hpublishes := publication?_remarking 2 1
  rw [← hbehaviour] at hpublishes
  have hread : IsReadAs (ServerBehaviour.publish "file:///a.py" (ServerBehaviour.Publication.at
      { versions := [.array [remark "old"], .array [remark "new"]], delay := 2 } 1))
      (ServerBehaviour.publish "file:///a.py" (.array [remark "old"])) := isReadAs_remark (.inl rfl)
  obtain ⟨pid, c, ⟨kept, hafter⟩, hclient, hc, hidle, hsame, hpublished, hversion⟩ :=
    hstands.survey_first (sightings_remarking 2 [0x78]) (welcomes_remarking 2 [0x78]) hoffers hplain
      (uriOf_remarking 2 [0x78]) htext hpublishes hends hread (Nat.le_refl 2)
  have hrun : after = ((Desk.survey patientSettings (Path.ofText "/") (some [".py"])).run
      (opening.withFiles earlier.files)).2 := by
    change (((Desk.survey patientSettings (Path.ofText "/") (some [".py"])) >>= fun _ =>
      pure ()).run (opening.withFiles earlier.files)).2 = _
    rw [run_bind]
    rcases (Desk.survey patientSettings (Path.ofText "/") (some [".py"])).run
      (opening.withFiles earlier.files) with ⟨_ | _, _⟩ <;> rfl
  rw [← hrun] at hafter hclient hc
  exact ⟨kept, spec, executable, pid, c, hafter, hprospect, hclient, hc, hidle,
    hsame.trans hbehaviour, hpublished, hversion⟩

/-! All rounds. -/

/-- However often a desk is used and however files change meanwhile: when its servers stay alive and
publish something for the first version of each document within all waits, and for each later one
within the first wait, what is found for each file is what its server has published for the contents
that were sent during the same survey. -/
theorem rounds_are_fresh (opening : Machine) (settings : Settings) (earlier : List Round)
    (last : Round) (htimely : ∀ round ∈ last :: earlier, round.IsTimely (timeLimit settings)
      settings (Desk.fresh opening.untouched settings).station) :
    last.inspection.IsFresh settings
      ((Desk.fresh opening.untouched settings).station.withFiles last.files)
      (((Desk.fresh opening.untouched settings).afterRounds settings earlier).withFiles
        last.files) := by
  have hstands := (stands_fresh _ opening settings).afterRounds
    (fun round hmem => htimely round (List.mem_cons_of_mem last hmem)) last.files
  have hlast := htimely last (List.mem_cons_self ..)
  cases hinspection : last.inspection with
  | survey directory wanted =>
    intro met hmet
    rw [Round.IsTimely, hinspection] at hlast
    exact hstands.survey_fresh hmet fun path hmem => hlast path ⟨met, hmet, hmem⟩
  | check directory value =>
    intro strategy root chosen ready met hvalue hroot hprepares hchosen hmet
    rw [Round.IsTimely, hinspection] at hlast
    obtain ⟨hready, journal, hwrote⟩ := hprepares.quietly hstands
    obtain ⟨survey, after, hrun, found, visits, hfound, hfresh, hsums⟩ :=
      hready.survey_fresh hmet fun path hmem => hlast path ⟨root, met, hroot, hmet, hmem⟩
    rw [dialogues, hwrote] at hfresh
    exact ⟨survey, after, hprepares.check_run hvalue ((hstands.target directory).trans hroot)
      hchosen hrun, found, visits, hfound, hfresh, hsums⟩

/-- Remarks that come with the first wait are those for the contents that are there. -/
theorem rounds_are_fresh_remarking :
    let earlier := oneFileRound [0x78]
    let later := oneFileRound [0x79]
    let opening := Desk.fresh (remarkingMachine 1).untouched patientSettings
    let desk := (opening.afterRounds patientSettings [earlier]).withFiles later.files
    (∀ round ∈ [later, earlier],
      round.IsTimely (timeLimit patientSettings) patientSettings opening.station) ∧
      ∃ survey after, (Desk.survey patientSettings (Path.ofText "/") (some [".py"])).run desk =
          (.ok survey, after) ∧
        FreshSurvey patientSettings (opening.station.withFiles later.files) (Path.ofText "/")
          (some [".py"]) desk survey after := by
  intro earlier later opening desk
  have hlimit : ∀ version, 0 < version → 1 ≤ timeLimit patientSettings version := by
    intro version _
    unfold timeLimit
    split <;> omega
  have htimely : ∀ round ∈ [later, earlier],
      round.IsTimely (timeLimit patientSettings) patientSettings opening.station := by
    intro round hmem
    obtain rfl | hmem := List.mem_cons.1 hmem
    · exact isTimely_remarking 1 [0x79] hlimit
    · obtain rfl := List.mem_singleton.1 hmem
      exact isTimely_remarking 1 [0x78] hlimit
  exact ⟨htimely, rounds_are_fresh (remarkingMachine 1) patientSettings [earlier] later htimely _
    (sightings_remarking 1 [0x79])⟩

/-- Remarks that come with the second wait, which is within all waits, are not: when the contents
have changed, the survey finds the remark on the earlier ones. -/
theorem rounds_are_stale_remarking :
    let earlier := oneFileRound [0x78]
    let later := oneFileRound [0x79]
    let opening := Desk.fresh (remarkingMachine 2).untouched patientSettings
    (∀ round ∈ [later, earlier], round.IsTimely
      (fun _ => 1 + patientSettings.publicationRetries) patientSettings opening.station) ∧
      ¬ later.inspection.IsFresh patientSettings (opening.station.withFiles later.files)
        ((opening.afterRounds patientSettings [earlier]).withFiles later.files) := by
  intro earlier later opening
  have hlimit : ∀ version : Nat, 0 < version → 2 ≤ 1 + patientSettings.publicationRetries :=
    fun _ _ => Nat.le_refl 2
  have htimely : ∀ round ∈ [later, earlier], round.IsTimely
      (fun _ => 1 + patientSettings.publicationRetries) patientSettings opening.station := by
    intro round hmem
    obtain rfl | hmem := List.mem_cons.1 hmem
    · exact isTimely_remarking 2 [0x79] hlimit
    · obtain rfl := List.mem_singleton.1 hmem
      exact isTimely_remarking 2 [0x78] hlimit
  refine ⟨htimely, fun hfresh => ?_⟩
  obtain ⟨kept, spec, executable, pid, c, hstands, hprospect, hclient, hc, hidle, hbehaviour, hold,
    hversion⟩ := survey_first_remarking
  obtain ⟨text, htext⟩ := readText_remarking 2 [0x79]
  have hlater : ((opening.afterRounds patientSettings [earlier]).withFiles later.files).Stands kept
      (remarkingStation 2 [0x79]) := hstands.withFiles later.files
  have hends : ¬ c.behaviour.EndsAt (c.session.nextDocument "file:///a.py") := by
    rw [hbehaviour]
    exact Bool.false_ne_true
  have hpublishes := publication?_remarking 2 (c.session.nextVersion "file:///a.py")
  rw [← hbehaviour] at hpublishes
  have hread : IsReadAs (ServerBehaviour.publish "file:///a.py" (ServerBehaviour.Publication.at
      { versions := [.array [remark "old"], .array [remark "new"]], delay := 2 }
      (c.session.nextVersion "file:///a.py")))
      (ServerBehaviour.publish "file:///a.py" (.array [remark "new"])) := by
    rw [hversion]
    exact isReadAs_remark (.inr rfl)
  have hsent : c.session.nextVersion "file:///a.py" ≠ 1 := by
    rw [hversion]
    decide
  have hchanged : [remark "old"] ≠ [remark "new"] := by simp [remark]
  obtain ⟨survey, last, hrun, hsurvey⟩ := hfresh _ (sightings_remarking 2 [0x79])
  exact hlater.survey_stale (sightings_remarking 2 [0x79]) hprospect hclient hc hidle
    (uriOf_remarking 2 [0x79]) htext hsent hpublishes hends hread hold (Nat.lt_succ_self 1)
    hchanged hrun hsurvey

end Desk

end ProjectCheck
