import ProjectCheck.Proofs.Machine.Journal
import ProjectCheck.Proofs.Tools

/-!
What the check of a language writes and what it can result in. It runs at most one tool, one of the
language's own, and touches no language server. Its result says that there is no marker, that no
tool was found, or what was found.
-/
namespace ProjectCheck

open Run Machine

namespace Language

def tools : Language → List CheckTool
  | python => [.mypy, .pylint]
  | language => language.onlyTool.toList

/-- Where a marker of the language was found: either none of its tools was found, or what one of
them said was read. -/
inductive Concludes (language : Language) : ToolResult → Prop
  | found (diagnostics : List Diagnostic) (tool : CheckTool) :
      Concludes language (.ofDiagnostics diagnostics (some tool.name))
  | notFound (tool : CheckTool) : tool ∈ language.tools →
      Concludes language (.skip ("`" ++ tool.name ++ "` binary not found in PATH") (some tool.name))
  | neitherFound : language = python →
      Concludes language (.skip "neither mypy nor pylint found in PATH" none)

def noMarker (language : Language) : ToolResult :=
  .skip language.noMarkerReason (language.onlyTool.map (·.name))

def noTool (language : Language) : ToolResult :=
  match language.onlyTool with
  | some tool => .skip ("`" ++ tool.name ++ "` binary not found in PATH") (some tool.name)
  | none => .skip "neither mypy nor pylint found in PATH" none

end Language

def CheckTool.IsRun (tool : CheckTool) (directory : Path) (call : ToolCall) : Prop :=
  call.command = ("/usr/bin/" ++ tool.name) :: tool.arguments ∧ call.directory = directory.text

structure Journal.RunsOneOf (tools : List CheckTool) (directory : Path) (j : Journal) : Prop where
  events_eq : j.events = []
  calls_le : j.calls.length ≤ 1
  calls_own : ∀ call ∈ j.calls, ∃ tool ∈ tools, tool.IsRun directory call

namespace Journal.RunsOneOf

variable {tools : List CheckTool} {tool : CheckTool} {directory : Path} {j k : Journal}

theorem of_none (hcalls : j.calls = []) (hevents : j.events = []) : j.RunsOneOf tools directory :=
  ⟨hevents, by simp [hcalls], by simp [hcalls]⟩

theorem of_run (h : tool ∈ tools) {call : ToolCall} (hcall : tool.IsRun directory call)
    (hcalls : j.calls = [call]) (hevents : j.events = []) : j.RunsOneOf tools directory := by
  refine ⟨hevents, by simp [hcalls], fun other hother => ⟨tool, h, ?_⟩⟩
  rw [hcalls, List.mem_singleton] at hother
  rwa [hother]

/-- A tool is run after nothing was. -/
theorem none_append (hcalls : j.calls = []) (hevents : j.events = [])
    (h : k.RunsOneOf tools directory) : (j ++ k).RunsOneOf tools directory := by
  have hsame : (j ++ k).calls = k.calls := by rw [append_calls, hcalls, List.nil_append]
  refine ⟨by rw [append_events, h.events_eq, hevents, List.nil_append], ?_, ?_⟩
  · rw [hsame]
    exact h.calls_le
  · rw [hsame]
    exact h.calls_own

end Journal.RunsOneOf

namespace Machine

variable {m : Machine} {directory : Path}

theorem holds_withJournal (journal : Journal) (m : Machine) (path : Path) :
    (m.withJournal journal).holds path = m.holds path := by
  have hfind : (m.withJournal journal).find path.text = m.find path.text := rfl
  rw [holds, holds, isAt, isAt, hfind]

theorem holdsAny_withJournal (journal : Journal) (m : Machine) (directory : Path)
    (names : List LooseText) :
    (m.withJournal journal).holdsAny directory names = m.holdsAny directory names := by
  induction names with
  | nil => rfl
  | cons name rest ih =>
    unfold holdsAny
    rw [holds_withJournal, ih]

theorem command_of_resolveCommand {name command : String}
    (h : m.resolveCommand name = some command) : command = "/usr/bin/" ++ name := by
  rw [resolveCommand, searchPath] at h
  split at h
  · split at h
    · exact (Option.some.inj h).symm
    · cases h
  · cases h

structure IsEnd (behaviour : ToolBehaviour) (outcome : Outcome) : Prop where
  ran : outcome.kind ≠ .missing
  succeeded_eq : outcome.succeeded = !behaviour.fails
  output_eq : outcome.output = behaviour.textOn

inductive EndsIn (command : String) : ToolBehaviour → Except Failure Outcome → Prop
  | ended {behaviour : ToolBehaviour} {outcome : Outcome} :
      (∀ cause, behaviour ≠ .cannotStart cause) → IsEnd behaviour outcome →
      EndsIn command behaviour (.ok outcome)
  | notStarted (cause : String) :
      EndsIn command (.cannotStart cause) (.error (.notStarted cause command))

theorem writes_finish (tool command : String) (timeout : Timeout)
    (milliseconds : Decimal.Binary64) (behaviour : ToolBehaviour) (m : Machine) :
    Writes (finish tool command timeout milliseconds behaviour) m fun result j =>
      (j.calls = [] ∧ j.events = []) ∧ EndsIn command behaviour result := by
  cases behaviour with
  | cannotStart cause => exact Writes.ofExcept (r := .error _) ⟨⟨rfl, rfl⟩, .notStarted cause⟩
  | timesOut stdout stderr | finishes exitCode stdout stderr =>
    refine (writes_log _ _ m).bind (fun _ j hj _ => Writes.pure ?_) nofun
    obtain ⟨-, rfl⟩ := hj
    refine ⟨⟨rfl, rfl⟩, .ended nofun ⟨nofun, ?_, ?_⟩⟩
    · simp [Outcome.succeeded, ToolBehaviour.fails]
    · funext stream
      cases stream <;> rfl

theorem IsEnd.result_eq {behaviour : ToolBehaviour} {outcome : Outcome}
    (h : IsEnd behaviour outcome) (hstarts : ∀ cause, behaviour ≠ .cannotStart cause)
    (tool : Tool) :
    (outcome.verdict tool.streams).result tool.name tool.checkTool.read =
      tool.result behaviour := by
  rw [Tool.result_eq hstarts, Outcome.verdict, if_neg h.ran, h.succeeded_eq]
  cases behaviour.fails with
  | false => rfl
  | true =>
    have hsaid : outcome.said? tool.streams = behaviour.said? tool.streams := by
      rw [Outcome.said?, h.output_eq]
      rfl
    rw [if_neg (by decide), if_pos rfl, Tool.conclusion, hsaid]
    cases behaviour.said? tool.streams <;> rfl

theorem writes_conclude (tool : CheckTool) (outcome : Outcome) (m : Machine) :
    Writes (tool.conclude outcome) m fun result j => (j.calls = [] ∧ j.events = []) ∧
      result = (outcome.verdict tool.streams).result tool.name tool.read := by
  unfold CheckTool.conclude
  simp only
  split
  · refine (writes_log _ _ m).bind (fun _ j hj _ => Writes.ofExcept ?_) nofun
    obtain ⟨-, rfl⟩ := hj
    exact ⟨⟨rfl, rfl⟩, rfl⟩
  · exact Writes.ofExcept ⟨⟨rfl, rfl⟩, rfl⟩

def RunsOnce (tool : Tool) (directory : Path) (j : Journal) : Prop :=
  j.events = [] ∧ ∃ call, j.calls = [call] ∧ tool.checkTool.IsRun directory call

/-- A tool that is found is run once, and its result is concluded. -/
theorem writes_found {tool : Tool} {command : String} {next : Outcome → Run Machine ToolResult}
    (hcommand : m.resolveCommand tool.name = some command) (directory : Path) (timeout : Timeout)
    (hnext : ∀ outcome, outcome.kind ≠ .missing → next outcome = tool.checkTool.conclude outcome) :
    Writes (tool.checkTool.run directory timeout >>= next) m fun result j =>
      result = tool.result (m.behaviourOf tool) ∧ RunsOnce tool directory j := by
  obtain rfl := command_of_resolveCommand hcommand
  let call : ToolCall := ⟨("/usr/bin/" ++ tool.name) :: tool.checkTool.arguments, directory.text,
    timeout.seconds⟩
  have hrun : Writes (tool.checkTool.run directory timeout) m fun result j =>
      (j.calls = [call] ∧ j.events = []) ∧
        EndsIn ("/usr/bin/" ++ tool.name) (m.behaviourOf tool) result := by
    refine Writes.get_bind ?_ fun _ => rfl
    rw [Tool.name] at hcommand
    simp only [hcommand]
    refine (writes_log _ _ m).bind (fun _ j hj after => ?_) nofun
    obtain ⟨-, rfl⟩ := hj
    have hrecord := writes_record (f := fun j => { j with calls := j.calls ++ [call] })
      (k := { calls := [call] }) after fun journal => by ext1 <;> simp
    refine hrecord.bind (fun _ k hk last => ?_) nofun
    obtain ⟨-, rfl⟩ := hk
    refine (writes_finish _ _ _ _ _ last).mono fun result added hadded => ?_
    obtain ⟨⟨hcalls, hevents⟩, hend⟩ := hadded
    exact ⟨⟨by simp [hcalls], by simp [hevents]⟩, hend⟩
  refine hrun.bind (fun outcome j hj after => ?_) fun failure j hj => ?_
  · obtain ⟨⟨hcalls, hevents⟩, hend⟩ := hj
    generalize hbehaviour : m.behaviourOf tool = behaviour at hend ⊢
    cases hend with
    | ended hstarts hend =>
      rw [hnext outcome hend.ran]
      refine (writes_conclude tool.checkTool outcome after).mono fun result k hk => ?_
      obtain ⟨⟨hnone, hquiet⟩, rfl⟩ := hk
      exact ⟨hend.result_eq hstarts tool, by simp [hevents, hquiet],
        call, by simp [hcalls, hnone], rfl, rfl⟩
  · obtain ⟨⟨hcalls, hevents⟩, hend⟩ := hj
    generalize hbehaviour : m.behaviourOf tool = behaviour at hend ⊢
    cases hend with
    | notStarted cause => exact ⟨rfl, hevents, call, hcalls, rfl, rfl⟩

/-- A tool that is not found is not run, and all is left as it is. -/
theorem writes_notFound {tool : CheckTool} {next : Outcome → Run Machine ToolResult}
    {said : Except Failure ToolResult → Journal → Prop}
    (hmissing : m.resolveCommand tool.name = none) (directory : Path) (timeout : Timeout)
    (hnext : Writes (next { kind := .missing }) m said)
    (hsaid : ∀ result j k, j.calls = [] → j.events = [] → said result k → said result (j ++ k)) :
    Writes (tool.run directory timeout >>= next) m said := by
  let note : Journal := { logs := [(.info, s!"{tool.name} not found in PATH")] }
  have hrun (journal : Journal) : (tool.run directory timeout).run (journaled journal m) =
      (.ok { kind := .missing }, journaled (journal ++ note) m) := by
    have hsame : (journaled journal m).resolveCommand tool.name = none := hmissing
    have hadds : { journal with logs := journal.logs ++ note.logs } = journal ++ note := by
      ext1 <;> simp [note]
    rw [CheckTool.run, runTool, run_bind_ok (run_get _)]
    simp only [hsame]
    rw [← hadds]
    rfl
  exact Writes.bind_of_run hrun (hnext.mono fun result k hk => hsaid result note k rfl rfl hk)

end Machine

namespace Language

variable {language : Language} {tool : CheckTool} {m : Machine} {directory : Path}
  {timeout : Timeout}

inductive Checks (language : Language) (m : Machine) (directory : Path) :
    Except Failure ToolResult → List ToolCall → Prop
  | unreadable {failure : Failure} :
      m.holdsAny directory language.markers = .error failure →
      Checks language m directory (.error failure) []
  | noMarker : m.holdsAny directory language.markers = .ok false →
      Checks language m directory (.ok language.noMarker) []
  | noTool : m.holdsAny directory language.markers = .ok true → Tool.used? language m = none →
      Checks language m directory (.ok language.noTool) []
  | ran {tool : Tool} {call : ToolCall} : m.holdsAny directory language.markers = .ok true →
      Tool.used? language m = some tool → tool.checkTool.IsRun directory call →
      Checks language m directory (tool.result (m.behaviourOf tool)) [call]

def IsChecked (language : Language) (m : Machine) (directory : Path)
    (result : Except Failure ToolResult) (j : Journal) : Prop :=
  language.Checks m directory result j.calls ∧ j.events = []

theorem isChecked_of_found {tool : Tool} {result : Except Failure ToolResult} {j : Journal}
    (hmarker : m.holdsAny directory language.markers = .ok true)
    (hused : Tool.used? language m = some tool)
    (h : result = tool.result (m.behaviourOf tool) ∧ RunsOnce tool directory j) :
    language.IsChecked m directory result j := by
  obtain ⟨rfl, hevents, call, hcalls, hcall⟩ := h
  exact ⟨hcalls ▸ .ran hmarker hused hcall, hevents⟩

/-- What was written before makes no difference if it is no run. -/
theorem IsChecked.append {result : Except Failure ToolResult} {j k : Journal}
    (hcalls : j.calls = []) (hevents : j.events = [])
    (h : language.IsChecked m directory result k) :
    language.IsChecked m directory result (j ++ k) := by
  rwa [IsChecked, Journal.append_calls, Journal.append_events, hcalls, hevents, List.nil_append,
    List.nil_append]

/-- The check by the tool of a language that has only one. -/
theorem writes_onlyTool (tool : Tool) (honly : language.onlyTool = some tool.checkTool)
    (hown : Tool.ofLanguage language = [tool])
    (hmarker : m.holdsAny directory language.markers = .ok true) (timeout : Timeout) :
    Writes (do tool.checkTool.conclude (← tool.checkTool.run directory timeout)) m
      (language.IsChecked m directory) := by
  have hused : Tool.used? language m =
      if (m.resolveCommand tool.name).isSome then some tool else none := by
    rw [Tool.used?, hown, List.find?_singleton]
  cases hcommand : m.resolveCommand tool.name with
  | some command =>
    rw [hcommand] at hused
    exact (writes_found hcommand directory timeout fun _ _ => rfl).mono
      fun result j => isChecked_of_found hmarker hused
  | none =>
    rw [hcommand] at hused
    refine writes_notFound hcommand directory timeout ?_ fun result j k => IsChecked.append
    refine (writes_conclude tool.checkTool { kind := .missing } m).mono fun result j hj => ?_
    obtain ⟨⟨hcalls, hevents⟩, rfl⟩ := hj
    have hnoTool : (Outcome.verdict { kind := .missing } tool.checkTool.streams).result
        tool.checkTool.name tool.checkTool.read = .ok language.noTool := by
      rw [noTool, honly]
      rfl
    rw [hnoTool]
    exact ⟨hcalls ▸ .noTool hmarker hused, hevents⟩

/-- The check by the first of two tools that is found. -/
theorem writes_runPythonTools (hmarker : m.holdsAny directory python.markers = .ok true)
    (timeout : Timeout) :
    Writes (runPythonTools directory timeout) m (python.IsChecked m directory) := by
  unfold runPythonTools
  cases hmypy : m.resolveCommand Tool.mypy.name with
  | some command =>
    have hused : Tool.used? python m = some .mypy :=
      Tool.used?_eq_some_iff.2 ⟨rfl, ⟨command, hmypy⟩, nofun⟩
    exact (writes_found hmypy directory timeout fun _ hran => if_pos hran).mono
      fun result j => isChecked_of_found hmarker hused
  | none =>
    refine writes_notFound hmypy directory timeout ?_ fun result j k => IsChecked.append
    rw [if_neg (not_not_intro rfl)]
    cases hpylint : m.resolveCommand Tool.pylint.name with
    | some command =>
      have hused : Tool.used? python m = some .pylint :=
        Tool.used?_eq_some_iff.2 ⟨rfl, ⟨command, hpylint⟩, fun _ => hmypy⟩
      exact (writes_found hpylint directory timeout fun _ hran => if_pos hran).mono
        fun result j => isChecked_of_found hmarker hused
    | none =>
      have hused : Tool.used? python m = none := by
        rw [Tool.used?, Tool.ofLanguage, List.find?_cons, hmypy, List.find?_singleton, hpylint]
        rfl
      refine writes_notFound hpylint directory timeout ?_ fun result j k => IsChecked.append
      rw [if_neg (not_not_intro rfl)]
      exact Writes.pure ⟨.noTool hmarker hused, rfl⟩

/-- A check ends and runs tools as is said of it. -/
theorem writes_checks (language : Language) (directory : Path) (timeout : Option Timeout)
    (m : Machine) :
    Writes (language.check directory timeout) m (language.IsChecked m directory) := by
  refine Writes.get_bind ?_ fun journal => by
    rw [show journaled journal m = m.withJournal journal from rfl, holdsAny_withJournal]
  cases hmarker : m.holdsAny directory language.markers with
  | error failure => exact Writes.ofExcept (r := .error failure) ⟨.unreadable hmarker, rfl⟩
  | ok marked =>
    cases marked with
    | false =>
      refine (writes_log _ _ m).bind (fun _ j hj _ => Writes.pure ?_) nofun
      obtain ⟨-, rfl⟩ := hj
      exact ⟨.noMarker hmarker, rfl⟩
    | true =>
      cases language with
      | typescript => exact writes_onlyTool .tsc rfl rfl hmarker (.orUsual timeout)
      | go => exact writes_onlyTool .goVet rfl rfl hmarker (.orUsual timeout)
      | rust => exact writes_onlyTool .cargo rfl rfl hmarker (.orUsual timeout)
      | python => exact writes_runPythonTools hmarker (.orUsual timeout)

theorem checks_run (language : Language) (directory : Path) (timeout : Option Timeout)
    (m : Machine) :
    ∃ calls, language.Checks m directory ((language.check directory timeout).run m).1 calls := by
  obtain ⟨result, after, j, hchecked, hrun⟩ := writes_checks language directory timeout m
  have hrun : (language.check directory timeout).run m = (result, _) := hrun m.journal
  rw [hrun]
  exact ⟨j.calls, hchecked.1⟩

theorem mem_tools {tool : Tool} (h : tool.language = language) :
    tool.checkTool ∈ language.tools := by
  subst h
  cases tool <;> simp [tools, onlyTool, Tool.language, Tool.checkTool]

theorem concludes_noTool (language : Language) : language.Concludes language.noTool := by
  cases language with
  | typescript => exact .notFound .tsc (List.mem_singleton_self _)
  | go => exact .notFound .goVet (List.mem_singleton_self _)
  | rust => exact .notFound .cargo (List.mem_singleton_self _)
  | python => exact .neitherFound rfl

/-- A check says that there is no marker exactly when there is none, and otherwise runs at most one
tool. -/
theorem writes_check (language : Language) (directory : Path) (timeout : Option Timeout)
    (m : Machine) :
    Writes (language.check directory timeout) m fun result j =>
      j.RunsOneOf language.tools directory ∧ ∀ r, result = .ok r →
        m.holdsAny directory language.markers = .ok false ∧ r = language.noMarker ∨
          m.holdsAny directory language.markers = .ok true ∧ language.Concludes r := by
  refine (writes_checks language directory timeout m).mono fun result j hj => ?_
  obtain ⟨hchecks, hevents⟩ := hj
  generalize hcalls : j.calls = calls at hchecks
  cases hchecks with
  | unreadable => exact ⟨.of_none hcalls hevents, nofun⟩
  | noMarker hmarker =>
    refine ⟨.of_none hcalls hevents, ?_⟩
    rintro r ⟨⟩
    exact .inl ⟨hmarker, rfl⟩
  | noTool hmarker =>
    refine ⟨.of_none hcalls hevents, ?_⟩
    rintro r ⟨⟩
    exact .inr ⟨hmarker, concludes_noTool language⟩
  | ran hmarker hused hcall =>
    have hlanguage := (Tool.used?_eq_some_iff.1 hused).1
    refine ⟨.of_run (mem_tools hlanguage) hcall hcalls hevents, fun r hr => .inr ⟨hmarker, ?_⟩⟩
    obtain ⟨diagnostics, rfl⟩ := Tool.result_eq_ok hr
    exact .found diagnostics _

end Language

end ProjectCheck
