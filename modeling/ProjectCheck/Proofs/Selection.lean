import ProjectCheck.Dispatch
import ProjectCheck.Proofs.Files.Names
import ProjectCheck.Proofs.Launches
import ProjectCheck.Proofs.Machine.ToolRuns
import ProjectCheck.Proofs.Standing

/-!
The choice of a check. A directory is checked by the strategy that is asked for, or by the one that
its markers select, and both come to the same. A check by a language's tools starts no server, runs
at most one tool and only one of its own; a survey runs none.
-/
namespace ProjectCheck

open Run

/-! Markers. -/

def Strategy.selected (m : Machine) (directory : Path) : Strategy :=
  .ofProjectType (Language.all.find? fun language => hasMarker m language.markers directory)

def Strategy.chosen (m : Machine) (directory : Path) : Strategy → Strategy
  | .auto => selected m directory
  | strategy => strategy

def Machine.FindsMarkers (m : Machine) (directory : Path) : Prop :=
  ∀ (language : Language), ∀ name ∈ language.markers,
    m.find (directory.join (Path.ofText name)).text ≠ .error .nameTooLong

section Markers

variable {m : Machine} {directory : Path}

theorem hasMarker_of_holdsAny {names : List LooseText} {found : Bool}
    (h : m.holdsAny directory names = .ok found) : hasMarker m names directory = found := by
  induction names with
  | nil =>
    cases h
    rfl
  | cons name rest ih =>
    unfold Machine.holdsAny at h
    unfold hasMarker at ih ⊢
    rw [List.any_cons]
    cases hholds : m.holds (directory.join (Path.ofText name)) with
    | error failure =>
      rw [hholds] at h
      cases h
    | ok here =>
      rw [hholds] at h
      cases here with
      | true =>
        cases h
        rfl
      | false => rw [Bool.false_or, ih h]

theorem exists_holdsAny {names : List LooseText}
    (h : ∀ name ∈ names, m.find (directory.join (Path.ofText name)).text ≠ .error .nameTooLong) :
    ∃ found, m.holdsAny directory names = .ok found := by
  induction names with
  | nil => exact ⟨false, rfl⟩
  | cons name rest ih =>
    obtain ⟨hname, hrest⟩ := List.forall_mem_cons.1 h
    have hholds : ∃ here, m.holds (directory.join (Path.ofText name)) = .ok here := by
      rw [Machine.holds, Machine.isAt]
      split
      · exact ⟨_, rfl⟩
      · rename_i hlong
        exact absurd hlong hname
      · exact ⟨false, rfl⟩
    obtain ⟨here, hhere⟩ := hholds
    unfold Machine.holdsAny
    rw [hhere]
    cases here with
    | true => exact ⟨true, rfl⟩
    | false => exact ih hrest

/-- What is detected is the first of the languages with a marker. -/
theorem detectAmong_eq_ok {languages : List Language} {kind : ProjectType}
    (h : detectAmong m directory languages = .ok kind) :
    kind = languages.find? fun language => hasMarker m language.markers directory := by
  induction languages with
  | nil =>
    cases h
    rfl
  | cons language rest ih =>
    rw [detectAmong] at h
    cases hholds : m.holdsAny directory language.markers with
    | error failure =>
      rw [hholds] at h
      cases h
    | ok found =>
      rw [hholds] at h
      rw [List.find?_cons, hasMarker_of_holdsAny hholds]
      cases found with
      | true =>
        cases h
        rfl
      | false => exact ih h

theorem exists_detectAmong (h : m.FindsMarkers directory) (languages : List Language) :
    ∃ kind, detectAmong m directory languages = .ok kind := by
  induction languages with
  | nil => exact ⟨none, rfl⟩
  | cons language rest ih =>
    obtain ⟨found, hfound⟩ := exists_holdsAny (h language)
    rw [detectAmong, hfound]
    cases found with
    | true => exact ⟨some language, rfl⟩
    | false => exact ih

theorem selected_of_detect {kind : ProjectType} (h : detectProjectType m directory = .ok kind) :
    Strategy.ofProjectType kind = .selected m directory := by
  rw [Strategy.selected, detectAmong_eq_ok h]

/-- A selected language has its marker. -/
theorem hasMarker_of_selected {language : Language}
    (h : Strategy.selected m directory = .checker language) :
    hasMarker m language.markers directory = true := by
  rw [Strategy.selected] at h
  cases hfind : Language.all.find? fun language => hasMarker m language.markers directory with
  | none =>
    rw [hfind] at h
    cases h
  | some found =>
    rw [hfind] at h
    cases h
    exact List.find?_some
      (p := fun language : Language => hasMarker m language.markers directory) hfind

end Markers

/-! Reports. -/

namespace DirectoryReport

structure IsConsistent (report : DirectoryReport) : Prop where
  success_iff : report.success = true ↔ report.errorCount = 0
  skipped : report.strategy = .skipped →
    report.errorCount = 0 ∧ report.warningCount = 0 ∧ report.text = []

def noMarker (language : Language) : DirectoryReport := .ofToolResult language language.noMarker

theorem isConsistent_skip (summary : LooseText) : (skip summary).IsConsistent :=
  ⟨iff_of_true rfl rfl, fun _ => ⟨rfl, rfl, rfl⟩⟩

theorem ofDiagnostics_strategy (language : Language) (diagnostics : List Diagnostic)
    (tool : Option LooseText) :
    (ofToolResult language (.ofDiagnostics diagnostics tool)).strategy = .checker language := by
  cases diagnostics <;> rfl

theorem isConsistent_ofDiagnostics (language : Language) (diagnostics : List Diagnostic)
    (tool : Option LooseText) :
    (ofToolResult language (.ofDiagnostics diagnostics tool)).IsConsistent := by
  refine ⟨?_, fun hskipped => ?_⟩
  · cases diagnostics with
    | nil => exact iff_of_true rfl rfl
    | cons d rest => exact decide_eq_true_iff
  · rw [ofDiagnostics_strategy] at hskipped
    cases hskipped

/-- A report of a survey has the survey's figures. -/
theorem of_ofSurvey {survey : Survey} {report : DirectoryReport}
    (h : ofSurvey survey = .ok report) : report.strategy = .lsp ∧ report.IsConsistent := by
  obtain ⟨text, -, rfl⟩ := ofSurvey_eq_ok_iff.1 h
  exact ⟨rfl, decide_eq_true_iff, nofun⟩

/-- What is concluded where there is a marker is reported as it should be, and not as a missing
marker of any language. -/
theorem of_concludes {language : Language} {result : ToolResult} (h : language.Concludes result) :
    (ofToolResult language result).IsConsistent ∧
      ((ofToolResult language result).strategy = .checker language ∨
        (ofToolResult language result).strategy = .skipped) ∧
      ∀ other, ofToolResult language result ≠ noMarker other := by
  cases h with
  | found diagnostics tool =>
    have hstrategy := ofDiagnostics_strategy language diagnostics (some tool.name)
    refine ⟨isConsistent_ofDiagnostics _ _ _, .inl hstrategy, fun other heq => ?_⟩
    rw [heq] at hstrategy
    cases hstrategy
  | notFound tool htool =>
    refine ⟨isConsistent_skip _, .inr rfl, fun other => ?_⟩
    cases language with
    | typescript | go | rust =>
      rw [List.mem_singleton.1 htool]
      cases other <;> decide
    | python =>
      obtain rfl | htail := List.mem_cons.1 htool
      · cases other <;> decide
      · rw [List.mem_singleton.1 htail]
        cases other <;> decide
  | neitherFound hpython =>
    refine ⟨isConsistent_skip _, .inr rfl, fun other => ?_⟩
    subst hpython
    cases other <;> decide

end DirectoryReport

/-! Checks. -/

def Strategy.MayStart (directory : Path) (j : Journal) : Strategy → Prop
  | .checker language => j.RunsOneOf language.tools directory
  | _ => j.calls = []

/-- What a strategy may report: nothing but skipping is reported under another name. A language
without a marker is only reported where it has none. -/
structure Strategy.MayReport (m : Machine) (directory : Path) (strategy : Strategy)
    (report : DirectoryReport) : Prop where
  consistent : report.IsConsistent
  own : report.strategy.name = strategy.name ∨ report.strategy = .skipped
  marked : ∀ language, report = .noMarker language →
    strategy = .checker language ∧ hasMarker m language.markers directory = false

theorem mayStart_nil (strategy : Strategy) (directory : Path) : strategy.MayStart directory {} := by
  cases strategy with
  | checker language => exact .of_none rfl rfl
  | lsp | auto => rfl

theorem Desk.log_run (level : Level) (text : String) (d : Desk) (journal : Journal) :
    (Desk.onMachine (Machine.log level text)).run (journaled journal d) =
      (.ok (), journaled (journal ++ { logs := [(level, text)] }) d) := by
  have hjournal : journal ++ ({ logs := [(level, text)] } : Journal) =
      { journal with logs := journal.logs ++ [(level, text)] } := by
    ext1 <;> simp
  rw [hjournal]
  rfl

/-- The reasons for skipping what is not a directory are no reasons of a language. -/
theorem skip_ne_noMarker {reason : LooseText} (h : reason.head? = some (.char 'D'))
    (rest : LooseText) (language : Language) :
    DirectoryReport.skip (reason ++ rest) ≠ .noMarker language := by
  intro heq
  have hhead : (reason ++ rest).head? = some (.char 'D') := by
    rw [List.head?_append, h]
    rfl
  rw [show reason ++ rest = _ from congrArg DirectoryReport.summary heq] at hhead
  revert hhead
  cases language <;> decide

theorem noMarker_injective {language other : Language}
    (h : DirectoryReport.noMarker language = .noMarker other) : language = other := by
  revert h
  cases language <;> cases other <;> decide

/-- A check by the tools of a language. -/
theorem writes_checkLanguage (language : Language) (directory : Path) (timeout : Option Timeout)
    (d : Desk) :
    Writes (do
      let result ← Desk.onMachine (language.check directory timeout)
      return DirectoryReport.ofToolResult language result) d fun result j =>
        (Strategy.checker language).MayStart directory j ∧ ∀ report, result = .ok report →
          (Strategy.checker language).MayReport d.station.machine directory report := by
  have hcheck := (Language.writes_check language directory timeout
    d.station.machine).onMachine (s := d)
  refine Writes.bind hcheck (fun r j hj _ => Writes.pure ?_) fun failure j hj => ⟨hj.1, nofun⟩
  rw [Journal.append_nil]
  refine ⟨hj.1, ?_⟩
  rintro report ⟨⟩
  obtain ⟨hnone, rfl⟩ | ⟨-, hconcludes⟩ := hj.2 r rfl
  · refine ⟨DirectoryReport.isConsistent_skip _, .inr rfl, fun other hother => ?_⟩
    obtain rfl := noMarker_injective hother
    exact ⟨rfl, hasMarker_of_holdsAny hnone⟩
  · obtain ⟨hconsistent, hstrategy, hmarked⟩ := DirectoryReport.of_concludes hconcludes
    refine ⟨hconsistent, hstrategy.imp_left fun heq => ?_, fun other hother =>
      absurd hother (hmarked other)⟩
    rw [heq]
    rfl

theorem writes_checkResolved (settings : Settings) (directory : Path) {chosen : Strategy}
    (hchosen : chosen ≠ .auto) (d : Desk) :
    Writes (checkResolved settings directory chosen) d fun result j =>
      chosen.MayStart directory j ∧ ∀ report, result = .ok report →
        chosen.MayReport d.station.machine directory report := by
  refine Writes.bind_of_run (Desk.log_run _ _ d) ?_
  cases chosen with
  | auto => exact absurd rfl hchosen
  | checker language =>
    refine (writes_checkLanguage language directory _ d).mono fun result j hj => ?_
    exact ⟨Journal.RunsOneOf.none_append rfl rfl hj.1, hj.2⟩
  | lsp =>
    refine (Desk.runsNoTool_survey settings directory none d).bind (fun survey j hj _ =>
      Writes.ofExcept ?_) fun failure j hj => ⟨hj, nofun⟩
    rw [Journal.append_nil]
    refine ⟨hj, fun report hreport => ?_⟩
    obtain ⟨hstrategy, hconsistent⟩ := DirectoryReport.of_ofSurvey hreport
    refine ⟨hconsistent, .inl (by rw [hstrategy]; rfl), fun language hlanguage => ?_⟩
    rw [hlanguage] at hstrategy
    cases hstrategy

theorem Strategy.MayStart.calls_le {strategy : Strategy} {directory : Path} {j : Journal}
    (h : strategy.MayStart directory j) : j.calls.length ≤ 1 := by
  cases strategy with
  | checker language => exact Journal.RunsOneOf.calls_le h
  | lsp | auto =>
    rw [show j.calls = [] from h]
    exact Nat.zero_le 1

/-! Whole checks. -/

def detectionNote (kind : ProjectType) (root : Path) : Journal :=
  let chosen := Strategy.ofProjectType kind
  { logs := [(.debug, s!"Detected {kind.name} project in {root.text}, using {chosen.name}")] }

theorem Strategy.MayStart.note_append {strategy : Strategy} {directory root : Path} {j : Journal}
    (h : strategy.MayStart directory j) (kind : ProjectType) :
    strategy.MayStart directory (detectionNote kind root ++ j) := by
  cases strategy with
  | checker language => exact Journal.RunsOneOf.none_append rfl rfl h
  | lsp | auto => exact h

theorem resolve_auto_run {m : Machine} {root : Path} {kind : ProjectType}
    (hkind : detectProjectType m root = .ok kind) :
    (Strategy.auto.resolve root).run m =
      (.ok (.ofProjectType kind), journaled (m.journal ++ detectionNote kind root) m) := by
  rw [Strategy.resolve, run_bind_ok (run_get m), hkind]
  have hjournal : m.journal ++ detectionNote kind root =
      { m.journal with logs := m.journal.logs ++ (detectionNote kind root).logs } := by
    ext1 <;> simp [detectionNote]
  rw [hjournal]
  rfl

theorem resolve_auto_run_error {m : Machine} {root : Path} {failure : Failure}
    (hkind : detectProjectType m root = .error failure) :
    (Strategy.auto.resolve root).run m = (.error failure, m) := by
  rw [Strategy.resolve, run_bind_ok (run_get m), hkind]
  rfl

theorem chosen_ne_auto (m : Machine) (directory : Path) (strategy : Strategy) :
    strategy.chosen m directory ≠ .auto := by
  cases strategy with
  | auto =>
    change Strategy.ofProjectType _ ≠ .auto
    cases Language.all.find? fun language => hasMarker m language.markers directory <;> nofun
  | checker language => nofun
  | lsp => nofun

theorem chosen_of_ne_auto {m : Machine} {directory : Path} {strategy : Strategy}
    (h : strategy ≠ .auto) : strategy.chosen m directory = strategy := by
  cases strategy with
  | auto => exact absurd rfl h
  | checker language => rfl
  | lsp => rfl

theorem checkNamed_name (settings : Settings) (directory : LooseText) (strategy : Strategy) :
    checkNamed settings directory (.string strategy.name) =
      checkDirectory settings directory strategy := by
  have hvalue : Strategy.ofValue (.string strategy.name) = .ok strategy := by
    simp [Strategy.ofValue, Json.asString?, Strategy.ofName?_name]
  rw [checkNamed, hvalue]
  rfl

section Runs

variable (settings : Settings) {directory : LooseText} {root : Path} {d : Desk}

/-- A strategy that is asked for is followed. -/
theorem run_explicit {strategy : Strategy} (hstrategy : strategy ≠ .auto)
    (htarget : d.station.machine.target directory = .directory root) :
    (checkDirectory settings directory strategy).run d =
      (checkResolved settings root strategy).run d := by
  rw [checkDirectory, run_bind_ok (run_get d), htarget]
  cases strategy with
  | auto => exact absurd rfl hstrategy
  | checker language => rfl
  | lsp => rfl

/-- Otherwise the markers decide, and what they decide is noted. -/
theorem run_auto {kind : ProjectType}
    (htarget : d.station.machine.target directory = .directory root)
    (hkind : detectProjectType d.station.machine root = .ok kind) :
    (checkDirectory settings directory .auto).run d =
      (checkResolved settings root (.selected d.station.machine root)).run
        (journaled (d.station.machine.journal ++ detectionNote kind root) d) := by
  rw [checkDirectory, run_bind_ok (run_get d), htarget]
  have hresolve : (Desk.onMachine (Strategy.auto.resolve root)).run d =
      (.ok (.selected d.station.machine root),
        journaled (d.station.machine.journal ++ detectionNote kind root) d) := by
    rw [← selected_of_detect hkind]
    exact onMachine_run (s := d) (resolve_auto_run hkind)
  exact run_bind_ok hresolve _

/-- Where a marker cannot be looked up, nothing is done. -/
theorem run_auto_error {failure : Failure}
    (htarget : d.station.machine.target directory = .directory root)
    (hkind : detectProjectType d.station.machine root = .error failure) :
    (checkDirectory settings directory .auto).run d = (.error failure, d) := by
  rw [checkDirectory, run_bind_ok (run_get d), htarget]
  have hresolve : (Desk.onMachine (Strategy.auto.resolve root)).run d = (.error failure, d) :=
    onMachine_run (s := d) (resolve_auto_run_error hkind)
  exact run_bind_error hresolve _

/-- What is not a directory is skipped, and not for a missing marker. -/
theorem run_skip (strategy : Strategy)
    (htarget : ∀ root, d.station.machine.target directory ≠ .directory root) :
    ∃ summary logs, (∀ language, DirectoryReport.skip summary ≠ .noMarker language) ∧
      (checkDirectory settings directory strategy).run d =
        (.ok (.skip summary), journaled (d.station.machine.journal ++ { logs }) d) := by
  rw [checkDirectory, run_bind_ok (run_get d)]
  have hnothing : d = journaled (d.station.machine.journal ++ { logs := [] }) d := by
    rw [Journal.append_nil]
    rfl
  cases hcase : d.station.machine.target directory with
  | directory root => exact absurd hcase (htarget root)
  | missing => exact ⟨_, [], skip_ne_noMarker (by decide) _, Prod.ext rfl hnothing⟩
  | notDirectory => exact ⟨_, [], skip_ne_noMarker (by decide) _, Prod.ext rfl hnothing⟩
  | unresolvable =>
    exact ⟨_, _, skip_ne_noMarker (by decide) _,
      run_bind_ok (Desk.log_run .info _ d d.station.machine.journal) _⟩

end Runs

/-- A check keeps to the strategy that is chosen where the directory is, and does nothing where
there is none. It never says that a marker is missing that is there. -/
structure Strategy.IsFollowed (m : Machine) (directory : LooseText) (strategy : Strategy)
    (result : Except Failure DirectoryReport) (added : Journal) : Prop where
  consistent : ∀ report, result = .ok report → report.IsConsistent
  calls_le : added.calls.length ≤ 1
  follows : ∀ root, m.target directory = .directory root →
    (strategy.chosen m root).MayStart root added ∧ ∀ report, result = .ok report →
      report.strategy.name = (strategy.chosen m root).name ∨ report.strategy = .skipped
  skips : (∀ root, m.target directory ≠ .directory root) →
    (added.calls = [] ∧ added.events = []) ∧ ∃ summary, result = .ok (.skip summary)
  marked : ∀ language, result = .ok (.noMarker language) → ∃ root,
    m.target directory = .directory root ∧ strategy.chosen m root = .checker language ∧
      hasMarker m language.markers root = false

def Desk.checkBy (settings : Settings) (directory : LooseText) (strategy : Strategy) (d : Desk) :
    Except Failure DirectoryReport × Desk :=
  (checkNamed settings directory (.string strategy.name)).run d

section Follows

variable {m : Machine} {directory : LooseText} {root : Path} {strategy : Strategy}
  {result : Except Failure DirectoryReport} {added : Journal}

theorem Strategy.IsFollowed.of_directory (htarget : m.target directory = .directory root)
    (hstart : (strategy.chosen m root).MayStart root added)
    (hreport : ∀ report, result = .ok report → (strategy.chosen m root).MayReport m root report) :
    strategy.IsFollowed m directory result added where
  consistent report h := (hreport report h).consistent
  calls_le := hstart.calls_le
  follows other hother := by
    obtain rfl := Target.directory.inj (htarget.symm.trans hother)
    exact ⟨hstart, fun report h => (hreport report h).own⟩
  skips h := absurd htarget (h root)
  marked language h := ⟨root, htarget, (hreport _ h).marked language rfl⟩

/-- Every strategy is followed. -/
theorem checkBy_followed (settings : Settings) (directory : LooseText) (strategy : Strategy)
    (d : Desk) :
    ∃ result after added, strategy.IsFollowed d.station.machine directory result added ∧
      Desk.checkBy settings directory strategy d =
        (result, journaled (d.station.machine.journal ++ added) after) := by
  rw [Desk.checkBy, checkNamed_name]
  by_cases hdirectory : ∃ root, d.station.machine.target directory = .directory root
  · obtain ⟨root, htarget⟩ := hdirectory
    obtain ⟨result, after, added, ⟨hstart, hreport⟩, hrun⟩ := writes_checkResolved settings root
      (chosen_ne_auto d.station.machine root strategy) d
    by_cases hauto : strategy = .auto
    · subst hauto
      cases hkind : detectProjectType d.station.machine root with
      | error failure =>
        refine ⟨.error failure, d, {}, .of_directory htarget (mayStart_nil _ root) nofun, ?_⟩
        rw [run_auto_error settings htarget hkind, Journal.append_nil]
        rfl
      | ok kind =>
        refine ⟨result, after, detectionNote kind root ++ added,
          .of_directory htarget (hstart.note_append kind) hreport, ?_⟩
        rw [run_auto settings htarget hkind, ← Journal.append_assoc]
        exact hrun _
    · refine ⟨result, after, added, .of_directory htarget hstart hreport, ?_⟩
      rw [chosen_of_ne_auto hauto] at hrun
      rw [run_explicit settings hauto htarget]
      exact hrun d.station.machine.journal
  · have htarget : ∀ root, d.station.machine.target directory ≠ .directory root :=
      fun root h => hdirectory ⟨root, h⟩
    obtain ⟨summary, logs, hother, hrun⟩ := run_skip settings strategy htarget
    refine ⟨_, d, { logs }, ⟨?_, Nat.zero_le 1, fun root h => absurd h (htarget root),
      fun _ => ⟨⟨rfl, rfl⟩, summary, rfl⟩, ?_⟩, hrun⟩
    · rintro report ⟨⟩
      exact DirectoryReport.isConsistent_skip summary
    · intro language h
      exact absurd (Except.ok.inj h) (hother language)

/-- Where the markers can be looked up, a check by no given strategy is the check by the one that
they select, but for the note of it. Where they cannot, it can fail, and then nothing is done. -/
theorem checkBy_auto (settings : Settings) {d : Desk}
    (htarget : d.station.machine.target directory = .directory root) :
    (∃ result after added kind,
      Desk.checkBy settings directory (.selected d.station.machine root) d =
        (result, journaled (d.station.machine.journal ++ added) after) ∧
      Desk.checkBy settings directory .auto d =
        (result,
          journaled (d.station.machine.journal ++ (detectionNote kind root ++ added)) after)) ∨
    ¬ d.station.machine.FindsMarkers root ∧
      ∃ failure, Desk.checkBy settings directory .auto d = (.error failure, d) := by
  simp only [Desk.checkBy, checkNamed_name]
  cases hkind : detectProjectType d.station.machine root with
  | ok kind =>
    have hselected : Strategy.selected d.station.machine root ≠ .auto :=
      chosen_ne_auto d.station.machine root .auto
    obtain ⟨result, after, added, -, hrun⟩ := writes_checkResolved settings root hselected d
    refine .inl ⟨result, after, added, kind, ?_, ?_⟩
    · rw [run_explicit settings hselected htarget]
      exact hrun d.station.machine.journal
    · rw [run_auto settings htarget hkind, ← Journal.append_assoc]
      exact hrun _
  | error failure =>
    refine .inr ⟨fun hfinds => ?_, failure, run_auto_error settings htarget hkind⟩
    obtain ⟨kind, hok⟩ := exists_detectAmong hfinds Language.all
    cases hok.symm.trans hkind

/-- Texts that lead to one directory are checked alike. -/
theorem checkBy_congr (settings : Settings) {d : Desk} {other : LooseText}
    (htarget : d.station.machine.target directory = .directory root)
    (hother : d.station.machine.target other = .directory root) (strategy : Strategy) :
    Desk.checkBy settings directory strategy d = Desk.checkBy settings other strategy d := by
  simp only [Desk.checkBy, checkNamed_name]
  rw [checkDirectory, checkDirectory, run_bind_ok (run_get d), run_bind_ok (run_get d), htarget,
    hother]

end Follows

/-- Where the markers can be looked up, a check by no given strategy is the check by the strategy
that they select, and it does not say that a marker is missing. Every check keeps to its strategy,
and texts that lead to one directory are checked alike. -/
theorem check_selects (settings : Settings) (directory : LooseText) (d : Desk) :
    (∀ root, d.station.machine.target directory = .directory root →
      (∃ result after added kind,
        Desk.checkBy settings directory (.selected d.station.machine root) d =
          (result, journaled (d.station.machine.journal ++ added) after) ∧
        Desk.checkBy settings directory .auto d = (result,
          journaled (d.station.machine.journal ++ (detectionNote kind root ++ added)) after)) ∨
      ¬ d.station.machine.FindsMarkers root ∧
        ∃ failure, Desk.checkBy settings directory .auto d = (.error failure, d)) ∧
    (∀ language, (Desk.checkBy settings directory .auto d).1 ≠ .ok (.noMarker language)) ∧
    (∀ strategy, ∃ result after added,
      strategy.IsFollowed d.station.machine directory result added ∧
        Desk.checkBy settings directory strategy d =
          (result, journaled (d.station.machine.journal ++ added) after)) ∧
    ∀ root other, d.station.machine.target directory = .directory root →
      d.station.machine.target other = .directory root → ∀ strategy,
        Desk.checkBy settings directory strategy d = Desk.checkBy settings other strategy d := by
  refine ⟨fun root => checkBy_auto settings, fun language h => ?_,
    fun strategy => checkBy_followed settings directory strategy d,
    fun root other => checkBy_congr settings⟩
  obtain ⟨result, after, added, hfollowed, hrun⟩ := checkBy_followed settings directory .auto d
  rw [hrun] at h
  obtain ⟨root, -, hselected, hmarker⟩ := hfollowed.marked language h
  rw [hasMarker_of_selected hselected] at hmarker
  cases hmarker

def mixedProject : Machine where
  files := .directory [("go.mod", .file []), ("pyproject.toml", .file [])]
  workingDirectory := []
  installed := ["go", "mypy"]
  tools := [("go", .finishes 1 none (some "a.go:1:2: unreachable code\n"))]

theorem findsMarkers_mixedProject : mixedProject.FindsMarkers (.ofLocation []) := by
  have hholds : ∀ language : Language, ∀ name ∈ language.markers,
      (mixedProject.holds ((Path.ofLocation []).join (Path.ofText name))).toOption.isSome := by
    intro language
    cases language <;> decide +kernel
  intro language name hname hlong
  have hsome := hholds language name hname
  rw [Machine.holds, Machine.isAt, hlong] at hsome
  cases hsome

theorem target_mixedProject : mixedProject.target "/" = .directory (.ofLocation []) :=
  congrArg Target.directory (Node.realPath_root _ _)

/-- Of two languages the one of the higher priority is checked. -/
theorem check_selects_mixedProject :
    (Desk.checkBy .usual "/" .auto (.fresh mixedProject .usual)).1 =
        (Desk.checkBy .usual "/" (.checker .go) (.fresh mixedProject .usual)).1 ∧
      ∀ language, (Desk.checkBy .usual "/" .auto (.fresh mixedProject .usual)).1 ≠
        .ok (.noMarker language) := by
  obtain ⟨hauto, hmarked, -⟩ := check_selects .usual "/" (.fresh mixedProject .usual)
  have hselected : Strategy.selected mixedProject (.ofLocation []) = .checker .go := by
    decide +kernel
  refine ⟨?_, hmarked⟩
  obtain ⟨result, after, added, kind, hgo, hrun⟩ | ⟨hlong, -⟩ := hauto _ target_mixedProject
  · rw [← hselected]
    exact (congrArg Prod.fst hrun).trans (congrArg Prod.fst hgo).symm
  · exact absurd findsMarkers_mixedProject hlong

theorem walkSteps_eq_singleton {name : LooseText} (hname : name ≠ [])
    (hslash : .char '/' ∉ name) :
    walkSteps name = [name] := by
  rw [walkSteps, Path.splitOn_eq_singleton hslash]
  simp [hname]

def linkedProject (name : LooseText) : Machine where
  files := .directory [("go.mod", .file []), ("tsconfig.json", .link name)]
  workingDirectory := []

theorem find_linkedProject {name : LooseText} (hlong : isLongName name = true)
    (hslash : .char '/' ∉ name) :
    (linkedProject name).find "/tsconfig.json" = .error .nameTooLong := by
  have hne : ∀ other, isLongName other = false → name ≠ other := by
    rintro other hother rfl
    cases hother.symm.trans hlong
  have hnonempty : name ≠ [] := hne [] (by decide)
  have hsteps : walkSteps "/tsconfig.json" = [.ofString "tsconfig.json"] := by decide +kernel
  have hlink : (linkedProject name).files.advance true [] ["tsconfig.json"] =
      .atLink name [] [] := rfl
  have hend : (linkedProject name).files.advance true [] [name] = .failed .nameTooLong := by
    have hroot : (linkedProject name).files.at? [] = some (linkedProject name).files := rfl
    rw [Node.advance, hroot]
    simp only [linkedProject, hne "." (by decide), hne ".." (by decide), hlong, if_true, if_false]
  have hrelative : (if isAbsoluteText name then ([] : List LooseText) else []) = [] := ite_self _
  have hfollow : (linkedProject name).files.follow true linkLimit [] ["tsconfig.json"] =
      .error .nameTooLong := by
    rw [linkLimit, Node.follow, hlink]
    simp only [hnonempty, if_false]
    rw [hrelative, List.append_nil, walkSteps_eq_singleton hnonempty hslash, Node.follow, hend]
  have hlocate : (linkedProject name).files.locate [] "/tsconfig.json" true =
      .error .nameTooLong := by
    rw [Node.locate, if_neg (by decide), if_neg (by decide), if_neg (by decide), hsteps]
    exact hfollow
  rw [Machine.find, Node.lookup, show (linkedProject name).workingDirectory = [] from rfl, hlocate]
  rfl

theorem holdsAny_linkedProject {name : LooseText} (hlong : isLongName name = true)
    (hslash : .char '/' ∉ name) :
    (linkedProject name).holdsAny (.ofLocation []) Language.typescript.markers =
      .error (.lookup .nameTooLong "/tsconfig.json") := by
  have hpath : ((Path.ofLocation []).join (Path.ofText "tsconfig.json")).text =
      "/tsconfig.json" := by decide +kernel
  have hholds : (linkedProject name).holds ((Path.ofLocation []).join (Path.ofText "tsconfig.json"))
      = .error (.lookup .nameTooLong "/tsconfig.json") := by
    rw [Machine.holds, Machine.isAt, hpath, find_linkedProject hlong hslash]
  rw [Language.markers]
  unfold Machine.holdsAny
  rw [hholds]

/-- A marker that is a link to a name that is too long ends a check by no given strategy, and
nothing is done. The check by the strategy of the module is reported. -/
theorem checkBy_auto_linkedProject {name : LooseText} (hlong : isLongName name = true)
    (hslash : .char '/' ∉ name) :
    Desk.checkBy .usual "/" .auto (.fresh (linkedProject name) .usual) =
        (.error (.lookup .nameTooLong "/tsconfig.json"), .fresh (linkedProject name) .usual) ∧
      ∃ report, (Desk.checkBy .usual "/" (.checker .go)
        (.fresh (linkedProject name) .usual)).1 = .ok report := by
  have htarget : (Desk.fresh (linkedProject name) .usual).station.machine.target "/" =
      .directory (.ofLocation []) := congrArg Target.directory (Node.realPath_root _ _)
  have hkind : detectProjectType (linkedProject name) (.ofLocation []) =
      .error (.lookup .nameTooLong "/tsconfig.json") := by
    rw [detectProjectType, Language.all, detectAmong, holdsAny_linkedProject hlong hslash]
  simp only [Desk.checkBy, checkNamed_name]
  refine ⟨run_auto_error .usual htarget hkind, ?_⟩
  rw [run_explicit .usual (by decide) htarget]
  exact ⟨_, rfl⟩

end ProjectCheck
