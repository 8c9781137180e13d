import ProjectCheck.Dispatch
import ProjectCheck.Proofs.Grouping
import ProjectCheck.Proofs.Machine.ToolRuns

/-!
Checks that fail. A tool that fails or does not end in time has found something, so its check should
not read as passed. It does not when the tool is silent, and it does exactly when the tool says
something of which no line has the tool's form.
-/
namespace ProjectCheck

open Text Run

def Tool.passedText (tool : Tool) : String :=
  s!"No diagnostics found. {DirectoryReport.checkName tool.language (some tool.name)} passed!"

namespace FailedChecks

variable {m : Machine} {directory : Path} {behaviour : ToolBehaviour}

/-- The check of a language whose tool fails ends in the conclusion from what the tool said. -/
theorem check_run (tool : Tool) (timeout : Option Timeout)
    (hmarker : m.holdsAny directory tool.language.markers = .ok true) (hused : tool.IsUsed m)
    (hbehaviour : m.tools.get? tool.name = some behaviour) (hfails : behaviour.fails = true) :
    ((tool.language.check directory timeout).run m).1 = tool.conclusion behaviour := by
  have hused := Tool.used?_eq_some_iff.2 ⟨rfl, hused⟩
  have hsame : m.behaviourOf tool = behaviour := by
    rw [Machine.behaviourOf, hbehaviour]
    rfl
  obtain ⟨calls, hchecks⟩ := Language.checks_run tool.language directory timeout m
  rw [← Tool.result_of_fails hfails, ← hsame]
  generalize ((tool.language.check directory timeout).run m).1 = result at hchecks ⊢
  cases hchecks with
  | unreadable h => cases hmarker.symm.trans h
  | noMarker h => cases hmarker.symm.trans h
  | noTool _ h => cases hused.symm.trans h
  | ran _ h =>
    obtain rfl := Option.some.inj (hused.symm.trans h)
    rfl

/-! How the results read. -/

theorem mem_intercalate_cons {code : Code} {first : LooseText} (h : code ∈ first)
    (separator : LooseText) (rest : List LooseText) :
    code ∈ separator.intercalate (first :: rest) := by
  cases rest with
  | nil => rwa [List.intercalate_singleton]
  | cons second rest =>
    rw [List.intercalate_cons_cons]
    exact List.mem_append_left _ (List.mem_append_left _ h)

/-- The blocks of diagnostics are of more than one line. -/
theorem newline_mem_blocks {diagnostics : List Diagnostic} (h : diagnostics ≠ []) :
    .char '\n' ∈ DirectoryReport.blocks diagnostics := by
  cases diagnostics with
  | nil => exact absurd rfl h
  | cons d rest =>
    rw [DirectoryReport.blocks, groupBy_cons, List.map_cons]
    refine mem_intercalate_cons ?_ _ _
    simp [DirectoryReport.fileBlock]

theorem newline_not_mem_passedText (tool : Tool) :
    .char '\n' ∉ (tool.passedText : LooseText) := by
  cases tool <;> decide

/-- A report of the tool reads as passed exactly when there are no diagnostics. -/
theorem text_eq_passedText_iff (tool : Tool) (diagnostics : List Diagnostic) :
    (DirectoryReport.ofToolResult tool.language
      (.ofDiagnostics diagnostics (some tool.name))).text = tool.passedText ↔ diagnostics = [] := by
  cases diagnostics with
  | nil => exact iff_of_true rfl rfl
  | cons d rest =>
    have hne : d :: rest ≠ [] := List.cons_ne_nil d rest
    refine iff_of_false (fun heq => ?_) hne
    exact newline_not_mem_passedText tool (heq ▸ newline_mem_blocks hne)

/-- What a tool said gives diagnostics when all of its lines can be read and one has the tool's
form. -/
theorem exists_diagnostics_iff (tool : Tool) (text : String) :
    (∃ result, Checker.readLines tool.name tool.readLine text = .ok result ∧
        result.diagnostics ≠ [] ∧
        (DirectoryReport.ofToolResult tool.language result).text ≠ tool.passedText) ↔
      (∀ line ∈ splitLines text.toList, ∃ found, tool.readLine line = .ok found) ∧
        ∃ line ∈ splitLines text.toList, ∃ d, tool.readLine line = .ok (some d) := by
  obtain ⟨diagnostics, hread, hall, hmem⟩ | ⟨failure, hread, line, hline, hfault⟩ :=
    Checker.readLines_cases tool.name tool.readLine text
  · have hsome := Checker.ne_nil_iff_exists_line hmem
    have hpassed := text_eq_passedText_iff tool diagnostics
    rw [hread]
    constructor
    · rintro ⟨result, heq, hne, -⟩
      obtain rfl := Except.ok.inj heq
      exact ⟨hall, hsome.1 hne⟩
    · rintro ⟨-, hfound⟩
      have hne := hsome.2 hfound
      exact ⟨_, rfl, hne, fun heq => hne (hpassed.1 heq)⟩
  · rw [hread]
    constructor
    · rintro ⟨result, heq, -⟩
      cases heq
    · rintro ⟨hall, -⟩
      obtain ⟨found, hfound⟩ := hall line hline
      cases hfault.symm.trans hfound

/-- What a tool said reads as passed when none of its lines has the tool's form. -/
theorem exists_passed_iff (tool : Tool) (text : String) :
    (∃ result, Checker.readLines tool.name tool.readLine text = .ok result ∧
        (DirectoryReport.ofToolResult tool.language result).text = tool.passedText) ↔
      ∀ line ∈ splitLines text.toList, tool.readLine line = .ok none := by
  obtain ⟨diagnostics, hread, hall, hmem⟩ | ⟨failure, hread, line, hline, hfault⟩ :=
    Checker.readLines_cases tool.name tool.readLine text
  · have hnone := Checker.eq_nil_iff_forall_line hall hmem
    have hpassed := text_eq_passedText_iff tool diagnostics
    rw [hread]
    constructor
    · rintro ⟨result, heq, hreads⟩
      obtain rfl := Except.ok.inj heq
      exact hnone.1 (hpassed.1 hreads)
    · intro hsilent
      exact ⟨_, rfl, hpassed.2 (hnone.2 hsilent)⟩
  · rw [hread]
    constructor
    · rintro ⟨result, heq, -⟩
      cases heq
    · intro hsilent
      cases hfault.symm.trans (hsilent line hline)

/-- A check whose tool fails gives a result with diagnostics exactly when the tool is silent or all
lines of what it says can be read and one of them has the tool's form. It reads as passed exactly
when the tool says something of which no line has the tool's form. -/
theorem failed_check_iff (tool : Tool) (timeout : Option Timeout)
    (hmarker : m.holdsAny directory tool.language.markers = .ok true) (hused : tool.IsUsed m)
    (hbehaviour : m.tools.get? tool.name = some behaviour) (hfails : behaviour.fails = true) :
    let outcome := ((tool.language.check directory timeout).run m).1
    let reads := fun result => (DirectoryReport.ofToolResult tool.language result).text
    ((∃ result, outcome = .ok result ∧ result.diagnostics ≠ [] ∧ reads result ≠ tool.passedText) ↔
      ∀ text, behaviour.said? tool.streams = some text →
        (∀ line ∈ splitLines text.toList, ∃ found, tool.readLine line = .ok found) ∧
        ∃ line ∈ splitLines text.toList, ∃ d, tool.readLine line = .ok (some d)) ∧
    ((∃ result, outcome = .ok result ∧ reads result = tool.passedText) ↔
      ∃ text, behaviour.said? tool.streams = some text ∧
        ∀ line ∈ splitLines text.toList, tool.readLine line = .ok none) := by
  intro outcome reads
  have houtcome : outcome = tool.conclusion behaviour :=
    check_run tool timeout hmarker hused hbehaviour hfails
  rw [houtcome, Tool.conclusion]
  simp only [tool.read_eq]
  cases hsaid : behaviour.said? tool.streams with
  | none =>
    have hcrash : (DirectoryReport.ofToolResult tool.language (.crash tool.name)).text ≠
        tool.passedText := by
      intro heq
      cases (text_eq_passedText_iff tool [Diagnostic.crash tool.name]).1 heq
    constructor
    · refine iff_of_true ⟨_, rfl, List.cons_ne_nil _ _, hcrash⟩ ?_
      rintro _ ⟨⟩
    · refine iff_of_false ?_ ?_
      · rintro ⟨result, heq, hreads⟩
        obtain rfl := Except.ok.inj heq
        exact hcrash hreads
      · rintro ⟨_, ⟨⟩, _⟩
  | some text =>
    simp only [Option.some.injEq, forall_eq', exists_eq_left']
    exact ⟨exists_diagnostics_iff tool text, exists_passed_iff tool text⟩

/-- A compiler that finds no inputs says so on a line without a place. -/
theorem failed_check_reads_as_passed :
    let said := "error TS18003: No inputs were found in config file 'tsconfig.json'.\n"
    let m : Machine :=
      { files := .directory [("tsconfig.json", .file [])], workingDirectory := [],
        installed := ["tsc"], tools := [("tsc", .finishes 2 (some said) (some ""))] }
    ∃ result, ((Language.typescript.check (Path.ofText "/") none).run m).1 = .ok result ∧
      (DirectoryReport.ofToolResult .typescript result).text =
        "No diagnostics found. TypeScript check passed!" := by
  intro said m
  have hmarker : m.holdsAny (Path.ofText "/") ["tsconfig.json"] = .ok true := by rfl
  have hused : Tool.tsc.IsUsed m := ⟨⟨"/usr/bin/tsc", by decide⟩, nofun⟩
  have hlines : ∀ line ∈ splitLines said.toList, Checker.Tsc.readLine line = none := by
    decide +kernel
  exact (failed_check_iff .tsc none hmarker hused rfl rfl).2.2
    ⟨said, by decide, fun line hline => Checker.reading_eq_none (hlines line hline)⟩

end FailedChecks

end ProjectCheck
