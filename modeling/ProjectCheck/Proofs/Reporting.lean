import ProjectCheck.Dispatch
import ProjectCheck.Proofs.Aggregation
import ProjectCheck.Proofs.Files.Names
import ProjectCheck.Proofs.Grouping
import ProjectCheck.Proofs.Machine.ToolRuns

/-!
When a check ends in a report. Whatever stands at the directory and whatever tools and servers do,
the check of a directory with a known strategy fails only where something cannot be read or shown: a
marker whose path is too long, a line that a tool wrote, or a diagnostic that a server published.
-/
namespace ProjectCheck

open Run Text

/-! Diagnostics that can be shown. -/

def Published.IsShowable (diagnostic : Json) : Prop :=
  ∃ line, Published.reportLine diagnostic = .ok line

theorem Published.IsShowable.exists_members {diagnostic : Json} (h : IsShowable diagnostic) :
    ∃ members, diagnostic = .object members := by
  obtain ⟨line, hline⟩ := h
  cases diagnostic with
  | object members => exact ⟨members, rfl⟩
  | _ => cases hline

namespace DirectoryReport

theorem exists_findingsBlock_iff (file : LooseText) (findings : List FileFinding) :
    (∃ block, findingsBlock file findings = .ok block) ↔
      ∀ finding ∈ findings, Published.IsShowable finding.diagnostic := by
  have hlines : (∃ lines, findings.mapM (fun finding => Published.reportLine finding.diagnostic) =
      .ok lines) ↔ ∀ finding ∈ findings, Published.IsShowable finding.diagnostic :=
    exists_mapM_ok_iff
  rw [← hlines, findingsBlock]
  cases findings.mapM fun finding => Published.reportLine finding.diagnostic with
  | ok lines => exact iff_of_true ⟨_, rfl⟩ ⟨lines, rfl⟩
  | error failure => exact iff_of_false nofun nofun

theorem exists_findingsText_iff (findings : List FileFinding) (filesChecked : LooseText) :
    (∃ text, findingsText findings filesChecked = .ok text) ↔
      ∀ finding ∈ findings, Published.IsShowable finding.diagnostic := by
  have hblocks : (∃ blocks, (groupBy (·.file) findings).mapM
      (fun group => findingsBlock group.1 group.2) = .ok blocks) ↔
        ∀ finding ∈ findings, Published.IsShowable finding.diagnostic := by
    refine exists_mapM_ok_iff.trans ?_
    simp only [exists_findingsBlock_iff]
    constructor
    · intro h finding hmem
      have hgroup : (finding.file, _) ∈ groupBy (·.file) findings :=
        mem_groupBy.2 ⟨⟨finding, hmem, rfl⟩, rfl⟩
      exact h _ hgroup finding (List.mem_filter.2 ⟨hmem, decide_eq_true rfl⟩)
    · rintro h ⟨k, group⟩ hgroup finding hmem
      obtain ⟨-, rfl⟩ := mem_groupBy.1 hgroup
      exact h finding (List.mem_filter.1 hmem).1
  rw [← hblocks, findingsText]
  cases findings with
  | nil => exact iff_of_true ⟨_, rfl⟩ ⟨[], rfl⟩
  | cons finding rest =>
    simp only [List.isEmpty_cons, Bool.false_eq_true, ↓reduceIte]
    cases (groupBy (·.file) (finding :: rest)).mapM
        fun group => findingsBlock group.1 group.2 with
    | ok blocks => exact iff_of_true ⟨_, rfl⟩ ⟨blocks, rfl⟩
    | error failure => exact iff_of_false (by rintro ⟨_, ⟨⟩⟩) (by rintro ⟨_, ⟨⟩⟩)

/-- Figures that were counted pass their checks, so the report has them as they are. -/
theorem ofSurvey_eq_ok_iff {survey : Survey} {report : DirectoryReport} :
    ofSurvey survey = .ok report ↔
      ∃ text, findingsText survey.findings survey.tally.filesChecked.plain = .ok text ∧
        DirectoryReport.mk .lsp survey.success survey.errorCount survey.warningCount text
          (findingsSummary survey.findings survey.tally) = report := by
  rw [ofSurvey, ofFindings]
  cases findingsText survey.findings survey.tally.filesChecked.plain with
  | ok text =>
    constructor
    · exact fun h => ⟨text, rfl, Except.ok.inj h⟩
    · rintro ⟨_, ⟨⟩, rfl⟩
      rfl
  | error failure => exact iff_of_false nofun (by rintro ⟨_, ⟨⟩, -⟩)

theorem exists_ofSurvey_iff (survey : Survey) :
    (∃ report, ofSurvey survey = .ok report) ↔
      ∀ finding ∈ survey.findings, Published.IsShowable finding.diagnostic := by
  rw [← exists_findingsText_iff survey.findings survey.tally.filesChecked.plain]
  constructor
  · rintro ⟨report, h⟩
    obtain ⟨text, htext, -⟩ := ofSurvey_eq_ok_iff.1 h
    exact ⟨text, htext⟩
  · rintro ⟨text, htext⟩
    exact ⟨_, ofSurvey_eq_ok_iff.2 ⟨text, htext, rfl⟩⟩

/-- Findings are counted and reported exactly when all of them can be shown. -/
theorem exists_report_iff (findings : List FileFinding) (filesChecked : Nat) :
    (∃ report, (Survey.ofFindings findings filesChecked >>= ofSurvey) = .ok report) ↔
      ∀ finding ∈ findings, Published.IsShowable finding.diagnostic := by
  constructor
  · rintro ⟨report, h⟩
    cases hsurvey : Survey.ofFindings findings filesChecked with
    | error failure =>
      rw [hsurvey] at h
      cases h
    | ok survey =>
      rw [hsurvey] at h
      obtain rfl := Survey.findings_of_ofFindings hsurvey
      exact (exists_ofSurvey_iff survey).1 ⟨report, h⟩
  · intro h
    rw [Survey.ofFindings_eq (fun finding hmem => (h finding hmem).exists_members)]
    exact (exists_ofSurvey_iff _).2 h

end DirectoryReport

/-! What tools wrote and can be read. -/

def Tool.IsReadable (tool : Tool) (behaviour : ToolBehaviour) : Prop :=
  behaviour.fails = true → ∀ text, behaviour.said? tool.streams = some text →
    ∀ line ∈ splitLines text.toList, ∃ found, tool.readLine line = .ok found

theorem Tool.exists_result_iff {tool : Tool} {behaviour : ToolBehaviour}
    (hstarts : ∀ cause, behaviour ≠ .cannotStart cause) :
    (∃ result, tool.result behaviour = .ok result) ↔ tool.IsReadable behaviour := by
  rw [result_eq hstarts, IsReadable]
  cases behaviour.fails with
  | false => exact iff_of_true ⟨_, rfl⟩ fun h => absurd h Bool.false_ne_true
  | true =>
    rw [if_pos rfl, conclusion]
    cases hsaid : behaviour.said? tool.streams with
    | none => exact iff_of_true ⟨_, rfl⟩ (by rintro - _ ⟨⟩)
    | some text =>
      simp only [Option.some.injEq, forall_eq', forall_const, tool.read_eq]
      obtain ⟨diagnostics, hread, hall, -⟩ | ⟨failure, hread, line, hline, hfails⟩ :=
        Checker.readLines_cases tool.name tool.readLine text
      · exact iff_of_true ⟨_, hread⟩ hall
      · refine iff_of_false ?_ fun h => ?_
        · rintro ⟨result, h⟩
          cases hread.symm.trans h
        · obtain ⟨found, hfound⟩ := h line hline
          cases hfails.symm.trans hfound

/-- The check of a directory with the language's tool can be concluded: the markers can be looked
up, and if there is one, what the tool wrote can be read. -/
def Language.CanCheck (language : Language) (m : Machine) (directory : Path) : Prop :=
  m.holdsAny directory language.markers = .ok false ∨
    m.holdsAny directory language.markers = .ok true ∧
      ∀ tool : Tool, tool.language = language → tool.IsUsed m →
        tool.IsReadable (m.behaviourOf tool)

/-- A language's check is concluded exactly when what it reads can be read. -/
theorem Language.exists_checked_iff {m : Machine} (language : Language) (directory : Path)
    (timeout : Option Timeout) (hstarts : m.CanStart) :
    (∃ result, ((language.check directory timeout).run m).1 = .ok result) ↔
      language.CanCheck m directory := by
  obtain ⟨calls, hchecks⟩ := checks_run language directory timeout m
  generalize ((language.check directory timeout).run m).1 = result at hchecks ⊢
  rw [CanCheck]
  cases hchecks with
  | unreadable hmarker =>
    rw [hmarker]
    exact iff_of_false nofun nofun
  | noMarker hmarker => exact iff_of_true ⟨_, rfl⟩ (.inl hmarker)
  | noTool hmarker hnone =>
    refine iff_of_true ⟨_, rfl⟩ (.inr ⟨hmarker, fun tool hlanguage hused => ?_⟩)
    cases hnone.symm.trans (Tool.used?_eq_some_iff.2 ⟨hlanguage, hused⟩)
  | ran hmarker hused =>
    rename_i tool call hcall
    rw [Tool.exists_result_iff (hstarts tool), hmarker]
    simp only [Except.ok.injEq, Bool.true_eq_false, false_or, true_and]
    constructor
    · intro hreadable other hlanguage hother
      have hsame := Tool.used?_eq_some_iff.2 ⟨hlanguage, hother⟩
      obtain rfl := Option.some.inj (hused.symm.trans hsame)
      exact hreadable
    · intro h
      obtain ⟨hlanguage, huse⟩ := Tool.used?_eq_some_iff.1 hused
      exact h tool hlanguage huse

/-! Whole checks. -/

namespace Desk

def Prepares (strategy : Strategy) (directory : Path) (d : Desk) (chosen : Strategy)
    (ready : Desk) : Prop :=
  ∃ resolved, (onMachine (strategy.resolve directory)).run d = (.ok chosen, resolved) ∧
    (onMachine (Machine.log .info s!"Running {chosen.name} diagnostics on {directory.text}")).run
      resolved = (.ok (), ready)

def Surveys (settings : Settings) (directory : Path) (d : Desk)
    (visits : List SurveyMeans.Visit) : Prop :=
  ∃ wanted asked files searched started after, extensions.run d = (.ok wanted, asked) ∧
    (Machine.findFiles directory (.of wanted settings.ignoredDirectories)).onMachine.run asked =
      (.ok files, searched) ∧
    (means.log .info s!"LSP fallback: {files.length} candidate files under {directory.text}").run
      searched = (.ok (), started) ∧
    means.Visits ⟨settings.publicationWait, .ok settings.publicationRetries⟩ files started
      visits after

theorem logsAlways_means : means.LogsAlways := fun _ _ _ => rfl

/-- Where files can be looked for, they are visited. -/
theorem exists_surveys {settings : Settings} {directory : Path} {d after : Desk} {survey : Survey}
    (h : (Desk.survey settings directory none).run d = (.ok survey, after)) :
    ∃ visits, d.Surveys settings directory visits := by
  obtain ⟨wanted, asked, hasked, hrest⟩ := run_bind_eq_ok.1 h
  obtain ⟨files, searched, hsearched, hrest⟩ := run_bind_eq_ok.1 hrest
  obtain ⟨_, started, hstarted, -⟩ := run_bind_eq_ok.1 hrest
  obtain ⟨visits, last, hvisits⟩ := SurveyMeans.exists_visits logsAlways_means
    ⟨settings.publicationWait, .ok settings.publicationRetries⟩ files started
  exact ⟨visits, wanted, asked, files, searched, started, last, hasked, hsearched, hstarted,
    hvisits⟩

theorem Surveys.run {settings : Settings} {directory : Path} {d : Desk}
    {visits : List SurveyMeans.Visit} (h : d.Surveys settings directory visits) :
    ∃ after, (Desk.survey settings directory none).run d =
      (Survey.ofFindings (visits.flatMap (·.findings)) (visits.countP (·.found.isSome)),
        after) := by
  obtain ⟨wanted, asked, files, searched, started, after, hasked, hsearched, hstarted, hvisits⟩ := h
  obtain ⟨hfindings, hlength⟩ := SurveyMeans.flatten_tagged visits
  refine ⟨after, ?_⟩
  refine (run_bind_ok hasked _).trans ((run_bind_ok hsearched _).trans ?_)
  refine (run_bind_ok hstarted _).trans ((run_bind_ok hvisits.run _).trans ?_)
  simp only [hfindings, hlength, ofExcept_run]

/-- A survey is reported exactly when its files can be looked for and all that was found for them
can be shown. -/
theorem exists_surveyReport_iff (settings : Settings) (directory : Path) (d : Desk) :
    (∃ report, ((Desk.survey settings directory none >>= fun survey =>
        Run.ofExcept (DirectoryReport.ofSurvey survey)).run d).1 = .ok report) ↔
      ∃ visits, d.Surveys settings directory visits ∧
        ∀ finding ∈ visits.flatMap (·.findings), Published.IsShowable finding.diagnostic := by
  have hrun : ∀ {visits : List SurveyMeans.Visit}, d.Surveys settings directory visits →
      ((Desk.survey settings directory none >>= fun survey =>
        Run.ofExcept (DirectoryReport.ofSurvey survey)).run d).1 =
          (Survey.ofFindings (visits.flatMap (·.findings)) (visits.countP (·.found.isSome)) >>=
            DirectoryReport.ofSurvey) := by
    intro visits h
    obtain ⟨after, hsurvey⟩ := h.run
    rw [run_bind, hsurvey]
    cases Survey.ofFindings (visits.flatMap (·.findings)) (visits.countP (·.found.isSome)) with
    | error failure => rfl
    | ok survey => exact congrArg Prod.fst (ofExcept_run _ _)
  constructor
  · rintro ⟨report, h⟩
    obtain ⟨survey, between, hsurvey, -⟩ := run_bind_eq_ok.1 (Prod.ext h rfl)
    obtain ⟨visits, hvisits⟩ := exists_surveys hsurvey
    rw [hrun hvisits] at h
    exact ⟨visits, hvisits, (DirectoryReport.exists_report_iff _ _).1 ⟨report, h⟩⟩
  · rintro ⟨visits, hvisits, hshown⟩
    rw [hrun hvisits]
    exact (DirectoryReport.exists_report_iff _ _).2 hshown

/-- Choosing a strategy only writes the journal. -/
theorem Prepares.tools {strategy chosen : Strategy} {directory : Path} {d ready : Desk}
    (h : d.Prepares strategy directory chosen ready) :
    ready.station.machine.tools = d.station.machine.tools := by
  obtain ⟨resolved, hresolved, hready⟩ := h
  have hlast := congrArg (fun ended => ended.2.station.machine.tools) hready
  have hfirst : resolved.station.machine.tools = d.station.machine.tools := by
    have hkept := congrArg (fun ended => ended.2.station.machine.tools) hresolved
    refine hkept.symm.trans ?_
    cases strategy with
    | auto =>
      change ((Strategy.auto.resolve directory).run d.station.machine).2.tools = _
      rw [Strategy.resolve, run_bind_ok (run_get _), run_bind, ofExcept_run]
      cases detectProjectType d.station.machine directory <;> rfl
    | checker language => rfl
    | lsp => rfl
  exact hlast.symm.trans hfirst

def CanReport (settings : Settings) (directory : Path) (chosen : Strategy) (ready : Desk) : Prop :=
  match chosen with
  | .checker language => language.CanCheck ready.station.machine directory
  | _ => ∃ visits, ready.Surveys settings directory visits ∧
      ∀ finding ∈ visits.flatMap (·.findings), Published.IsShowable finding.diagnostic

theorem exists_resolved_iff (settings : Settings) {chosen : Strategy} {directory : Path}
    {resolved ready : Desk} (hstarts : ready.station.machine.CanStart)
    (hready : (onMachine (Machine.log .info
      s!"Running {chosen.name} diagnostics on {directory.text}")).run resolved = (.ok (), ready)) :
    (∃ report, ((checkResolved settings directory chosen).run resolved).1 = .ok report) ↔
      CanReport settings directory chosen ready := by
  cases chosen with
  | checker language =>
    have hrun : (checkResolved settings directory (.checker language)).run resolved =
        (onMachine (language.check directory (some (.real settings.checkerTimeout))) >>=
          fun result => pure (DirectoryReport.ofToolResult language result)).run ready :=
      run_bind_ok hready _
    rw [hrun, CanReport, ← Language.exists_checked_iff language directory
      (some (.real settings.checkerTimeout)) hstarts, run_bind]
    rcases hchecked : (language.check directory (some (.real settings.checkerTimeout))).run
      ready.station.machine with ⟨failure | result, after⟩
    · rw [show (onMachine _).run ready = _ from onMachine_run hchecked]
      exact iff_of_false nofun nofun
    · rw [show (onMachine _).run ready = _ from onMachine_run hchecked]
      exact iff_of_true ⟨_, rfl⟩ ⟨result, rfl⟩
  | lsp =>
    have hrun : (checkResolved settings directory .lsp).run resolved =
        (Desk.survey settings directory none >>= fun survey =>
          Run.ofExcept (DirectoryReport.ofSurvey survey)).run ready := run_bind_ok hready _
    rw [hrun]
    exact exists_surveyReport_iff settings directory ready
  | auto =>
    have hrun : (checkResolved settings directory .auto).run resolved =
        (Desk.survey settings directory none >>= fun survey =>
          Run.ofExcept (DirectoryReport.ofSurvey survey)).run ready := run_bind_ok hready _
    rw [hrun]
    exact exists_surveyReport_iff settings directory ready

end Desk

/-- A check with a value that names no strategy fails for that reason. With a known strategy, when
tools can be started, it ends in a report exactly when, at a directory, a strategy can be chosen,
what the tool wrote can be read, and what the servers published can be shown; otherwise it fails. -/
theorem check_reports_iff (settings : Settings) (directory : LooseText) (value : Json) (d : Desk)
    (hstarts : d.station.machine.CanStart) :
    (∀ failure, Strategy.ofValue value = .error failure →
      ((checkNamed settings directory value).run d).1 = .error failure) ∧
    ∀ strategy, Strategy.ofValue value = .ok strategy →
      ((∃ report, ((checkNamed settings directory value).run d).1 = .ok report) ↔
        ∀ path, d.station.machine.target directory = .directory path →
          ∃ chosen ready, d.Prepares strategy path chosen ready ∧
            Desk.CanReport settings path chosen ready) := by
  constructor
  · intro failure hvalue
    rw [checkNamed, hvalue]
    rfl
  · intro strategy hvalue
    have hnamed : (checkNamed settings directory value).run d =
        (checkDirectory settings directory strategy).run d := by
      rw [checkNamed, hvalue]
      rfl
    rw [hnamed, checkDirectory, run_bind_ok (run_get d)]
    cases htarget : d.station.machine.target directory with
    | missing => exact iff_of_true ⟨_, rfl⟩ nofun
    | notDirectory => exact iff_of_true ⟨_, rfl⟩ nofun
    | unresolvable => exact iff_of_true ⟨_, rfl⟩ nofun
    | directory path =>
      simp only [Target.directory.injEq, forall_eq']
      rw [run_bind]
      rcases hresolved : (Desk.onMachine (strategy.resolve path)).run d with
        ⟨failure | chosen, resolved⟩
      · refine iff_of_false nofun ?_
        rintro ⟨chosen, ready, ⟨between, hother, -⟩, -⟩
        cases hresolved.symm.trans hother
      · obtain ⟨ready, hready⟩ : ∃ ready, (Desk.onMachine (Machine.log .info
            s!"Running {chosen.name} diagnostics on {path.text}")).run resolved =
              (.ok (), ready) := ⟨_, rfl⟩
        have hprepares : d.Prepares strategy path chosen ready := ⟨resolved, hresolved, hready⟩
        have hstarts' : ready.station.machine.CanStart := by
          intro tool cause
          rw [Machine.behaviourOf, hprepares.tools]
          exact hstarts tool cause
        refine (Desk.exists_resolved_iff settings hstarts' hready).trans ⟨fun h =>
          ⟨chosen, ready, hprepares, h⟩, ?_⟩
        rintro ⟨other, ready', ⟨resolved', hresolved', hready'⟩, h⟩
        obtain ⟨hchosen, rfl⟩ := Prod.mk.inj (hresolved.symm.trans hresolved')
        obtain rfl := Except.ok.inj hchosen
        obtain rfl := (Prod.mk.inj (hready.symm.trans hready')).2
        exact h

def Settings.usual : Settings where
  checkerTimeout := defaultTimeout
  publicationWait := defaultWait
  publicationRetries := 0
  ignoredDirectories := defaultIgnored
  serverOverrides := []

def misplacedMessage : String :=
  "\x7b\"reason\": \"compiler-message\", \"message\": \x7b\"level\": \"error\", " ++
    "\"spans\": [\x7b\"is_primary\": true, \"line_start\": null\x7d]\x7d\x7d"

def misplacedProject : Machine where
  files := .directory [("Cargo.toml", .file [])]
  workingDirectory := []
  installed := ["cargo"]
  tools := [("cargo", .finishes 101 (some misplacedMessage) none)]

theorem target_misplacedProject : misplacedProject.target "/" = .directory (.ofLocation []) :=
  congrArg Target.directory (Node.realPath_root _ _)

/-- Such a message ends a check without a report. -/
theorem check_reports_iff_misplaced :
    ¬ ∃ report, ((checkNamed Settings.usual "/" (.string "rust")).run
      (Desk.fresh misplacedProject Settings.usual)).1 = .ok report := by
  have hstarts : misplacedProject.CanStart := by
    intro tool cause
    cases tool <;> nofun
  have hreports := (check_reports_iff Settings.usual "/" (.string "rust")
    (Desk.fresh misplacedProject Settings.usual) hstarts).2 (.checker .rust) rfl
  rw [hreports]
  intro h
  obtain ⟨chosen, ready, ⟨resolved, hresolved, hready⟩, hreport⟩ := h _ target_misplacedProject
  obtain ⟨hchosen, rfl⟩ := Prod.mk.inj hresolved
  obtain rfl := Except.ok.inj hchosen
  obtain rfl := (Prod.mk.inj hready).2
  have hread : Tool.cargo.IsReadable (misplacedProject.behaviourOf .cargo) := by
    rcases hreport with hnone | ⟨-, hall⟩
    · cases hnone
    · exact hall .cargo rfl ⟨⟨"/usr/bin/cargo", by decide⟩, nofun⟩
  have hsaid : (misplacedProject.behaviourOf .cargo).said? Tool.cargo.streams =
      some misplacedMessage := by decide +kernel
  have hline : misplacedMessage.toList ∈ splitLines misplacedMessage.toList := by decide +kernel
  have hunread : (Checker.Cargo.readLine misplacedMessage.toList).toOption.isNone = true := by
    decide +kernel
  obtain ⟨found, hfound⟩ := hread rfl _ hsaid _ hline
  rw [show Checker.Cargo.readLine misplacedMessage.toList = _ from hfound] at hunread
  cases hunread

end ProjectCheck
