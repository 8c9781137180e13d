import ProjectCheck.Proofs.Desk
import ProjectCheck.Proofs.Standing

/-!
Diagnostics are those of the contents that are there. When the servers of a desk stay alive and
publish in time, the visit of a file finds what the file's server has published for the contents
that were sent during this visit, and nothing that was published for earlier ones. The client waits
longer for a document only until something was published for it; so what is published for later
versions has to come with the first wait.
-/
namespace ProjectCheck

open Run Machine

/-! What is expected of servers. -/

/-- A server stays alive when it is told of a document and publishes something for each version: a
list of objects that can be read, within the waits that are given for the version. -/
structure ServerBehaviour.Informs (b : ServerBehaviour) (limit : Nat → Nat) (uri : String) :
    Prop where
  lives : ∀ version : Nat, 0 < version → ¬ b.EndsAt ⟨uri, version⟩
  publishes : ∀ version : Nat, 0 < version → ∃ publication items,
    b.publication? ⟨uri, version⟩ = some publication ∧ publication.delay ≤ limit version ∧
    IsReadAs (publish uri (Publication.at publication version)) (publish uri (.array items)) ∧
    ∀ item ∈ items, ∃ members, item = .object members

/-- A client behaves as its server does when it is started, and has sent every document that
something was published for. -/
structure Machine.Informed (m : Machine) (spec : ServerSpec) (c : Connection) : Prop where
  behaves : m.Behaves spec c
  versions : ∀ key, c.session.published.has key = true →
    ∃ version, 0 < version ∧ c.session.versions.get? key = some version

namespace Machine

variable {m : Machine} {spec : ServerSpec} {c c' : Connection} {uri : String}

theorem persists_informed (m : Machine) : Persists m.Informed := by
  intro spec c after h hstays
  refine ⟨h.behaves.of_eq hstays.behaviour hstays.spec, ?_⟩
  rw [hstays.published, hstays.versions]
  exact h.versions

/-- What clients know has nothing to do with the files. -/
theorem informed_withFiles (files : Node) :
    ({ m with files } : Machine).Informed spec c ↔ m.Informed spec c :=
  ⟨fun h => ⟨⟨h.behaves.behaviour, h.behaves.spec⟩, h.versions⟩,
    fun h => ⟨⟨h.behaves.behaviour, h.behaves.spec⟩, h.versions⟩⟩

theorem Informed.of_starts {around : Station} {path : Path} {executable : LooseText}
    (hprospect : around.prospect path = .installed spec executable)
    (hstarts :
      (around.machine.newConnection (spec.launchCommand (some executable)) spec).Starts c) :
    around.machine.Informed spec c where
  behaves := .of_starts hprospect hstarts
  versions key hkey := by
    rw [hstarts.published] at hkey
    cases hkey

/-- What is sent next has a version, and a later one when something was published already. -/
theorem Informed.nextVersion (h : m.Informed spec c) (uri : String) :
    0 < c.session.nextVersion uri ∧
      (c.session.hasPublished uri = true → c.session.nextVersion uri ≠ 1) := by
  unfold Session.nextVersion
  constructor
  · split <;> omega
  · intro hpublished
    obtain ⟨version, hpositive, hversion⟩ := h.versions (Uri.key uri) hpublished
    rw [hversion]
    simp only
    omega

/-- A client has sent a document that it keeps the next version of, and may be told of that. -/
theorem Informed.of_versions (h : m.Informed spec c) (hbehaviour : c'.behaviour = c.behaviour)
    (hspec : c'.session.spec = c.session.spec)
    (hversions : c'.session.versions =
      c.session.versions.set (Uri.key uri) (c.session.nextVersion uri))
    (hpublished : ∀ key, key ≠ Uri.key uri →
      c'.session.published.get? key = c.session.published.get? key) :
    m.Informed spec c' where
  behaves := h.behaves.of_eq hbehaviour hspec
  versions key hkey := by
    rw [hversions]
    by_cases hsame : key = Uri.key uri
    · subst hsame
      exact ⟨_, (h.nextVersion uri).1, Members.get?_set_self ..⟩
    · rw [Members.has, hpublished key hsame] at hkey
      obtain ⟨version, hpositive, hversion⟩ := h.versions key hkey
      exact ⟨version, hpositive, (Members.get?_set_of_ne hsame _ _).trans hversion⟩

end Machine

/-! What is found. -/

abbrev Dialogues := Nat → List Utterance

/-- The contents of a file can be sent to a server for it: they can be read, and the name of the
file's language can be written. -/
def Station.CanSend (around : Station) (path : Path) : Prop :=
  (∃ spec executable, around.prospect path = .installed spec executable ∧
    (spec.languageId path).IsPlain) ∧
    ∃ uri text, around.machine.uriOf path = .ok uri ∧ around.machine.readText path = .ok text

/-- What is found for a file is what its server has published for the contents that the visit sent,
and no other document was sent. Only a file that cannot be read, whose language cannot be written,
or whose server cannot be started or does not answer, is not sent, and nothing is found for it. -/
inductive FreshVisit (around : Station) (path : Path) (said after : Dialogues) :
    Option (List Json) → Prop
  | sent {pid : Nat} {uri text : String} {languageId : LooseText} {version : Nat}
      {before : List Utterance} {diagnostics : Json} {items : List Json}
      (huri : around.machine.uriOf path = .ok uri)
      (htext : around.machine.readText path = .ok text)
      (hbefore : LeavesDocuments (said pid) before)
      (hafter : after pid = before ++
        [.toServer (DocumentRef.message ⟨uri, version⟩ text languageId),
        .fromServer (ServerBehaviour.publish uri diagnostics)])
      (hread : IsReadAs (ServerBehaviour.publish uri diagnostics)
        (ServerBehaviour.publish uri (.array items)))
      (hothers : ∀ other, other ≠ pid → LeavesDocuments (said other) (after other)) :
      FreshVisit around path said after (some items)
  | unsent (hreason : ¬ (around.Welcomes path ∧ around.CanSend path))
      (hnone : ∀ pid, LeavesDocuments (said pid) (after pid)) :
      FreshVisit around path said after none

theorem Station.CanSend.isPlain_of_offers {around : Station} {path : Path} {spec : ServerSpec}
    {new : Connection} (h : around.CanSend path) (hoffers : around.Offers path spec new) :
    (spec.languageId path).IsPlain := by
  obtain ⟨⟨known, executable, hprospect, hplain⟩, -⟩ := h
  obtain ⟨found, hfound, -⟩ := hoffers
  obtain ⟨rfl, -⟩ := Prospect.installed.inj (hprospect.symm.trans hfound)
  exact hplain

inductive FreshVisits (around : Station) :
    List Path → Dialogues → List SurveyMeans.Visit → Dialogues → Prop
  | nil (said : Dialogues) : FreshVisits around [] said [] said
  | cons {path : Path} {rest : List Path} {said between after : Dialogues}
      {found : Option (List Json)} {visits : List SurveyMeans.Visit}
      (hfirst : FreshVisit around path said between found)
      (hrest : FreshVisits around rest between visits after) :
      FreshVisits around (path :: rest) said (⟨path, found⟩ :: visits) after

theorem not_leavesDocuments_sent (said more : List Utterance) (document : DocumentRef)
    (text : String) (languageId : LooseText) :
    ¬ LeavesDocuments said (said ++ .toServer (document.message text languageId) :: more) := by
  rintro ⟨other, heq, hnone⟩
  obtain rfl := List.append_cancel_left heq
  refine hnone (document.message text languageId) (List.mem_cons_self ..) ?_
  unfold DocumentRef.message
  split
  · exact ⟨_, .inl rfl⟩
  · exact ⟨_, .inr rfl⟩

/-- What is found by a fresh visit is what was published last for a document that was sent. -/
theorem FreshVisit.found_eq {around : Station} {path : Path} {said after : Dialogues}
    {found : Option (List Json)} {pid : Nat}
    {document : DocumentRef} {text uri : String} {languageId : LooseText} {diagnostics : Json}
    {items : List Json} (h : FreshVisit around path said after found)
    (hsent : after pid = said pid ++ [.toServer (document.message text languageId),
      .fromServer (ServerBehaviour.publish uri diagnostics)])
    (hread : IsReadAs (ServerBehaviour.publish uri diagnostics)
      (ServerBehaviour.publish uri (.array items))) : found = some items := by
  have hleft : ¬ LeavesDocuments (said pid) (after pid) := by
    rw [hsent]
    exact not_leavesDocuments_sent _ _ document text languageId
  cases h with
  | unsent _ hnone => exact absurd (hnone pid) hleft
  | @sent server _ _ _ _ before published found _ _ _ hafter hfound hothers =>
    by_cases hpid : pid = server
    · subst hpid
      obtain ⟨-, hlast⟩ := List.append_inj' (hafter.symm.trans hsent) rfl
      have hmessage := Utterance.fromServer.inj (List.cons.inj (List.cons.inj hlast).2).1
      have hsame := hfound.reread
      rw [hmessage, hread.reread] at hsame
      simp only [ServerBehaviour.publish, Except.ok.injEq, Json.object.injEq, List.cons.injEq,
        Prod.mk.injEq, Json.array.injEq, true_and, and_true] at hsame
      rw [hsame.2]
    · exact absurd (hothers pid hpid) hleft

namespace Desk

variable {opening around : Station} {d : Desk} {settings : Settings} {path : Path}

def dialogues (d : Desk) : Dialogues := d.station.machine.dialogue

/-- How many waits a version of a document may take: all of them for the first version, and one for
those after it. -/
def timeLimit (settings : Settings) (version : Nat) : Nat :=
  if version = 1 then 1 + settings.publicationRetries else 1

def IsTimely (limit : Nat → Nat) (around : Station) (path : Path) : Prop :=
  ∀ spec new, around.Offers path spec new → new.behaviour.Endures ∧
    ∀ uri text, around.machine.uriOf path = .ok uri → around.machine.readText path = .ok text →
      new.behaviour.Informs limit uri

/-- The visit of a file that is sent to an idle client and that this is informed of in time is
fresh. -/
theorem Attends.fresh {served : Desk} {pid : Nat} {spec : ServerSpec} {new c : Connection}
    {uri text : String}
    (h : Attends around.machine.Informed around (patienceOf settings) path d served pid spec new c)
    (huri : around.machine.uriOf path = .ok uri) (htext : around.machine.readText path = .ok text)
    (hwritten : c.session.nextVersion uri = 1 → (spec.languageId path).IsPlain)
    (hinforms : new.behaviour.Informs (timeLimit settings) uri) :
    ∃ items after, means.Visited (patienceOf settings) path d (some items) after ∧
      after.Stands around.machine.Informed around ∧
      FreshVisit around path d.dialogues after.dialogues (some items) ∧
      ∀ item ∈ items, ∃ members, item = .object members := by
  have hbehaviour := h.kept.behaves.of_offers h.offers
  obtain ⟨hpositive, hlater⟩ := h.kept.nextVersion uri
  obtain ⟨publication, items, hpublishes, hdelay, hread, hobjects⟩ :=
    hinforms.publishes _ hpositive
  have hends := hinforms.lives _ hpositive
  rw [← hbehaviour] at hpublishes hends
  have htime : publication.delay ≤
      if c.session.hasPublished uri then 1 else 1 + settings.publicationRetries := by
    unfold timeLimit at hdelay
    split
    · rename_i hpublished
      rwa [if_neg (hlater hpublished)] at hdelay
    · split at hdelay <;> omega
  obtain ⟨machine, hattended, hexchanges⟩ := attend_published (d := served)
    h.stands.serving.rest h.connection h.idle ((h.stands.uriOf path).trans huri)
    ((h.stands.readText path).trans htext)
    (fun hfirst => h.kept.behaves.languageOf path ▸ hwritten hfirst) hpublishes hends hread htime
  obtain ⟨c', languageId, diagnostics, hc', hidle, hsame, hsession, hdialogue, hmessage⟩ :=
    hexchanges.connection
  obtain ⟨journal, hvisited⟩ := h.visited _ machine hattended
  have hstands : (served.withMachine machine).Stands around.machine.Informed around :=
    h.stands.of_spares (persists_informed _) hexchanges.spares hexchanges.rest h.connection hc'
      (fun spec hkept => hkept.of_versions hsame (by rw [hsession]; rfl) (by rw [hsession]; rfl)
        fun key hother => by
          rw [hsession]
          exact Members.get?_set_of_ne hother _ _) (.inl hidle)
  have hbefore : LeavesDocuments (d.dialogues pid) c.dialogue := by
    rw [← Machine.dialogue_eq h.connection]
    exact h.continues.leavesDocuments pid
  have hothers : ∀ other, other ≠ pid →
      LeavesDocuments (d.dialogues other) (machine.dialogue other) := by
    intro other hother
    rw [hexchanges.spares.dialogue_of_ne hother]
    exact h.continues.leavesDocuments other
  exact ⟨items, _, hvisited, hstands.withJournal journal, .sent huri htext hbefore
    ((Machine.dialogue_eq hc').trans hdialogue) hmessage hothers, hobjects⟩

theorem Attends.informed_unwritten {served : Desk} {pid : Nat} {spec : ServerSpec}
    {new c : Connection} {patience : Patience} {uri text : String}
    (h : Attends around.machine.Informed around patience path d served pid spec new c)
    (huri : around.machine.uriOf path = .ok uri) (htext : around.machine.readText path = .ok text)
    (hunwritten : ¬ (c.session.nextVersion uri = 1 → (spec.languageId path).IsPlain)) :
    ∃ after, means.Visited patience path d none after ∧
      after.Stands around.machine.Informed around ∧
      ∀ pid, LeavesDocuments (d.dialogues pid) (after.dialogues pid) := by
  obtain ⟨machine, journal, hvisited, hsilence, hnone⟩ :=
    h.unwritten h.kept.behaves huri htext hunwritten
  obtain ⟨c', hc', hsame, hspec, hpublished, hversions, hstate⟩ := hsilence.connection
  have hstands : (served.withMachine machine).Stands around.machine.Informed around :=
    h.stands.of_spares (persists_informed _) hsilence.spares hsilence.rest h.connection hc'
      (fun spec hkept => hkept.of_versions hsame hspec hversions fun key _ => by rw [hpublished])
      hstate
  exact ⟨_, hvisited, hstands.withJournal journal, hnone⟩

/-- The visit of a file whose server informs in time is fresh. -/
theorem Stands.visit_fresh (h : d.Stands around.machine.Informed around)
    (htimely : IsTimely (timeLimit settings) around path) :
    ∃ found after, means.Visited (patienceOf settings) path d found after ∧
      after.Stands around.machine.Informed around ∧
      FreshVisit around path d.dialogues after.dialogues found ∧
      ∀ items, found = some items → ∀ item ∈ items, ∃ members, item = .object members := by
  have hsuits : ∀ spec new, around.Offers path spec new →
      Fleet.Suits around.machine.Informed around.machine spec new := by
    rintro spec new hoffers
    refine ⟨(htimely spec new hoffers).1, fun c _ hstarts => ?_⟩
    obtain ⟨executable, hprospect, rfl⟩ := hoffers
    exact .of_starts hprospect hstarts
  rcases h.begins (persists_informed _) hsuits (patienceOf settings) with
    ⟨served, pid, spec, new, c, hattends⟩ | ⟨after, hvisited, hstands, hcontinues, hunwelcome⟩
  · by_cases hfit : ∃ uri text, around.machine.uriOf path = .ok uri ∧
        around.machine.readText path = .ok text
    · obtain ⟨uri, text, huri, htext⟩ := hfit
      by_cases hwritten : c.session.nextVersion uri = 1 → (spec.languageId path).IsPlain
      · obtain ⟨items, after, hvisited, hstands, hfresh, hobjects⟩ := hattends.fresh huri htext
          hwritten ((htimely spec new hattends.offers).2 uri text huri htext)
        refine ⟨some items, after, hvisited, hstands, hfresh, ?_⟩
        rintro _ ⟨⟩
        exact hobjects
      · obtain ⟨after, hvisited, hstands, hnone⟩ := hattends.informed_unwritten huri htext hwritten
        refine ⟨none, after, hvisited, hstands, .unsent (fun h => hwritten fun _ => ?_) hnone,
          nofun⟩
        exact h.2.isPlain_of_offers hattends.offers
    · obtain ⟨after, hvisited, hstands, hcontinues⟩ := hattends.unfit hfit
      exact ⟨none, after, hvisited, hstands, .unsent (fun h => hfit h.2.2)
        hcontinues.leavesDocuments, nofun⟩
  · exact ⟨none, after, hvisited, hstands, .unsent (fun h => hunwelcome h.1)
      hcontinues.leavesDocuments, nofun⟩

/-- The visits of files whose servers inform in time are fresh. -/
theorem Stands.visits_fresh {files : List Path} (h : d.Stands around.machine.Informed around)
    (htimely : ∀ path ∈ files, IsTimely (timeLimit settings) around path) :
    ∃ visits after, means.Visits (patienceOf settings) files d visits after ∧
      FreshVisits around files d.dialogues visits after.dialogues ∧
      ∀ finding ∈ visits.flatMap (·.findings), ∃ members,
        finding.diagnostic = .object members := by
  induction files generalizing d with
  | nil => exact ⟨[], d, .nil d, .nil d.dialogues, nofun⟩
  | cons path rest ih =>
    obtain ⟨found, between, hvisited, hbetween, hfresh, hobjects⟩ :=
      h.visit_fresh (htimely path (List.mem_cons_self ..))
    obtain ⟨visits, after, hvisits, hmore, hrest⟩ :=
      ih hbetween fun other hmem => htimely other (List.mem_cons_of_mem path hmem)
    refine ⟨_, after, .cons hvisited hvisits, .cons hfresh hmore, fun finding hmem => ?_⟩
    rw [List.flatMap_cons, List.mem_append] at hmem
    rcases hmem with hmem | hmem
    · obtain ⟨item, hitem, rfl⟩ := List.mem_map.1 hmem
      cases found with
      | none => cases hitem
      | some items => exact hobjects items rfl item hitem
    · exact hrest finding hmem

def FreshSurvey (settings : Settings) (around : Station) (directory : Path)
    (wanted : Option (List LooseText)) (d : Desk) (survey : Survey) (after : Desk) : Prop :=
  ∃ met visits, around.machine.sightings (search around settings wanted) directory = .ok met ∧
    FreshVisits around (met.filterMap Sighting.file?) d.dialogues visits after.dialogues ∧
    survey.SumsUp visits

/-- Where files can be looked for and their servers inform in time, a survey is made and is
fresh. -/
theorem Stands.survey_fresh {directory : Path} {wanted : Option (List LooseText)}
    {met : List Sighting} (h : d.Stands around.machine.Informed around)
    (hmet : around.machine.sightings (search around settings wanted) directory = .ok met)
    (htimely : ∀ path, .file path ∈ met → IsTimely (timeLimit settings) around path) :
    ∃ survey after, (Desk.survey settings directory wanted).run d = (.ok survey, after) ∧
      FreshSurvey settings around directory wanted d survey after := by
  obtain ⟨started, hquiet, hrun⟩ := h.survey_run hmet
  obtain ⟨hstarted, journal, hwrote⟩ := hquiet h
  obtain ⟨visits, after, hvisits, hfresh, hobjects⟩ :=
    hstarted.visits_fresh fun path hmem => htimely path (Sighting.mem_filterMap_file?.1 hmem)
  obtain ⟨survey, hsurvey, hsums⟩ := SurveyMeans.exists_sumsUp hobjects
  have hsame : started.dialogues = d.dialogues := by rw [dialogues, hwrote]; rfl
  rw [hsame] at hfresh
  exact ⟨survey, after, (hrun visits after hvisits).trans (by rw [hsurvey]), met, visits, hmet,
    hfresh, hsums⟩

end Desk

end ProjectCheck
