import Mathlib.Data.List.Forall2
import ProjectCheck.Proofs.Reporting

/-!
Severities as they are counted and as they are shown. A survey counts the findings whose severity is
the number of errors or of warnings. The line of a finding shows the word for the number that its
severity is read as, and more is read as a number than is one: a fraction is cut off, and a text may
write a number. So a report shows as many errors and warnings as it counts, and those besides.
-/
namespace ProjectCheck

open Decimal Run Text

namespace Json

/-- A value is read as a whole number that it is not equal to: a number is cut off, or a text writes
the number. -/
def isMisreadAs (n : Int) : Json → Bool
  | float x => !x.isWhole && x.truncate? == some n
  | string text =>
    match readInteger text with
    | .ok i => i == n
    | .error _ => false
  | _ => false

/-- A value is read as a whole number if it is equal to it or is misread. -/
theorem toInteger_eq_ok_iff (n : Int) (value : Json) :
    value.toInteger = .ok n ↔ value.equalsInt n = true ∨ value.isMisreadAs n = true := by
  cases value with
  | bool b => simp [toInteger, equalsInt, isMisreadAs]
  | int i => simp [toInteger, equalsInt, isMisreadAs]
  | float x =>
    rw [toInteger, equalsInt, isMisreadAs, Binary64.equalsInt]
    cases x.truncate? with
    | none => simp
    | some i => cases x.isWhole <;> simp
  | string text =>
    rw [toInteger, isMisreadAs]
    cases readInteger text with
    | error fault => simp [ofIntegerFault, equalsInt]
    | ok i => simp [ofIntegerFault, equalsInt]
  | null => simp [toInteger, equalsInt, isMisreadAs]
  | illFormed codes => simp [toInteger, equalsInt, isMisreadAs]
  | array items => simp [toInteger, equalsInt, isMisreadAs]
  | object members => simp [toInteger, equalsInt, isMisreadAs]
  | illNamed name inner => simp [toInteger, equalsInt, isMisreadAs]

/-- What is equal to a number is not misread. -/
theorem isMisreadAs_eq_false {n : Int} {value : Json} (h : value.equalsInt n = true) :
    value.isMisreadAs n = false := by
  cases value with
  | float x =>
    rw [equalsInt, Binary64.equalsInt, Bool.and_eq_true] at h
    rw [isMisreadAs, h.1]
    rfl
  | string text => cases h
  | _ => rfl

end Json

namespace Published

def misreads (n : Int) (diagnostic : Json) : Bool :=
  ((diagnostic.get? "severity").map (Json.isMisreadAs n)).getD false

/-- The words of the known severities are theirs alone. -/
theorem severityWord_eq_iff {k : Int} (hk : 1 ≤ k ∧ k ≤ 4) (n : Int) :
    severityWord n = severityWord k ↔ n = k := by
  obtain rfl | rfl | rfl | rfl : k = 1 ∨ k = 2 ∨ k = 3 ∨ k = 4 := by omega
  all_goals grind [severityWord]

/-- A diagnostic is labelled with the word of a known severity if that is its severity or what it is
misread as. -/
theorem severityName_eq_iff {diagnostic : Json} {label : String}
    (h : severityName diagnostic = .ok label) {k : Int} (hk : 1 ≤ k ∧ k ≤ 4) :
    label = severityWord k ↔ hasSeverity k diagnostic = true ∨ misreads k diagnostic = true := by
  obtain ⟨members, rfl⟩ : ∃ members, diagnostic = .object members := by
    cases diagnostic with
    | object members => exact ⟨members, rfl⟩
    | _ => cases h
  have hissue : "issue" ≠ severityWord k := by
    have hnought : "issue" = severityWord 0 := rfl
    rw [hnought, Ne, severityWord_eq_iff hk]
    omega
  rw [hasSeverity, misreads, Json.get?]
  simp only [severityName, Json.members, bind, Except.bind] at h
  split at h
  · rename_i hmissing
    obtain rfl := Except.ok.inj h
    rw [hmissing]
    simpa using hissue
  · rename_i hnull
    obtain rfl := Except.ok.inj h
    rw [hnull]
    simpa [Json.equalsInt, Json.isMisreadAs] using hissue
  · rename_i severity _ hfound
    rw [hfound]
    split at h
    · cases h
    · rename_i n hn
      obtain rfl := Except.ok.inj h
      rw [severityWord_eq_iff hk, Option.map_some, Option.map_some, Option.getD_some,
        Option.getD_some, ← Json.toInteger_eq_ok_iff, hn, Except.ok.injEq]

theorem misreads_eq_false {n : Int} {diagnostic : Json} (h : hasSeverity n diagnostic = true) :
    misreads n diagnostic = false := by
  rw [hasSeverity] at h
  rw [misreads]
  cases hseverity : diagnostic.get? "severity" with
  | none => rfl
  | some severity =>
    rw [hseverity] at h
    exact Json.isMisreadAs_eq_false h

/-- The line of a diagnostic shows its label after its place. -/
theorem IsShowable.exists_label {diagnostic : Json} (h : IsShowable diagnostic) :
    ∃ (line column label : String) (rest : LooseText), severityName diagnostic = .ok label ∧
      reportLine diagnostic = .ok (s!"  {line}:{column} - {label}" ++ rest) := by
  obtain ⟨members, rfl⟩ := h.exists_members
  obtain ⟨shown, hshown⟩ := h
  rw [hshown]
  simp only [reportLine, bind, Except.bind, Json.members] at hshown
  split at hshown
  · cases hshown
  split at hshown
  · cases hshown
  rename_i label hlabel
  split at hshown
  · cases hshown
  rename_i line hline
  split at hshown
  · cases hshown
  rename_i column hcolumn
  let code := codeText (Members.get? "code" members)
  let message := messageText (Members.get? "message" members)
  let source := sourceText (Members.get? "source" members)
  refine ⟨line, column, label, code ++ ": " ++ message ++ source, hlabel, hshown.symm.trans ?_⟩
  exact congrArg Except.ok (by simp only [code, message, source, List.append_assoc])

end Published

/-! Lines in the text of a report. -/

theorem exists_intercalate_eq (separator : LooseText) {text : LooseText} {texts : List LooseText}
    (h : text ∈ texts) :
    ∃ before after, separator.intercalate texts = before ++ text ++ after := by
  induction texts with
  | nil => cases h
  | cons first rest ih =>
    cases rest with
    | nil =>
      obtain rfl := List.mem_singleton.1 h
      exact ⟨[], [], by simp⟩
    | cons second rest =>
      rw [List.intercalate_cons_cons]
      rcases List.mem_cons.1 h with rfl | hrest
      · exact ⟨[], separator ++ separator.intercalate (second :: rest), by simp⟩
      · obtain ⟨before, after, heq⟩ := ih hrest
        exact ⟨first ++ separator ++ before, after, by rw [heq]; simp⟩

/-- The line of each finding stands in the text. -/
theorem DirectoryReport.exists_line_of_findingsText {findings : List FileFinding}
    {filesChecked text : LooseText} (h : findingsText findings filesChecked = .ok text)
    {finding : FileFinding} (hmem : finding ∈ findings) :
    ∃ line before after, Published.reportLine finding.diagnostic = .ok line ∧
      text = before ++ line ++ after := by
  have hnonempty : findings.isEmpty = false := List.isEmpty_eq_false_iff.2 (List.ne_nil_of_mem hmem)
  simp only [findingsText, hnonempty, Bool.false_eq_true, ↓reduceIte, bind, Except.bind] at h
  split at h
  · cases h
  rename_i blocks hblocks
  have hgroup : (finding.file, _) ∈ groupBy (·.file) findings :=
    mem_groupBy.2 ⟨⟨finding, hmem, rfl⟩, rfl⟩
  obtain ⟨block, hblock, hshown⟩ := exists_mem_of_mapM_eq_ok hblocks hgroup
  simp only [findingsBlock, bind, Except.bind] at hshown
  split at hshown
  · cases hshown
  rename_i lines hlines
  obtain ⟨line, hline, hreported⟩ := exists_mem_of_mapM_eq_ok hlines
    (List.mem_filter.2 ⟨hmem, decide_eq_true rfl⟩)
  obtain ⟨before, after, hlineIn⟩ := exists_intercalate_eq [.char '\n'] hline
  obtain ⟨above, below, hblockIn⟩ := exists_intercalate_eq [.char '\n', .char '\n'] hblock
  obtain rfl := Except.ok.inj hshown
  refine ⟨line, above ++ (finding.file ++ [.char ':', .char '\n']) ++ before, after ++ below,
    hreported, ?_⟩
  rw [← Except.ok.inj h, hblockIn, hlineIn]
  simp

structure FileFinding.ShowsLabel (text : LooseText) (finding : FileFinding) (label : String) :
    Prop where
  labelled : Published.severityName finding.diagnostic = .ok label
  shown : ∃ (line column : String) (rest before after : LooseText),
    Published.reportLine finding.diagnostic = .ok (s!"  {line}:{column} - {label}" ++ rest) ∧
      text = before ++ (s!"  {line}:{column} - {label}" ++ rest) ++ after

theorem FileFinding.exists_showsLabel {findings : List FileFinding} {filesChecked text : LooseText}
    (h : DirectoryReport.findingsText findings filesChecked = .ok text)
    {finding : FileFinding} (hmem : finding ∈ findings) :
    ∃ label, finding.ShowsLabel text label := by
  obtain ⟨shown, before, after, hshown, htext⟩ :=
    DirectoryReport.exists_line_of_findingsText h hmem
  obtain ⟨line, column, label, rest, hlabel, hline⟩ :=
    Published.IsShowable.exists_label ⟨shown, hshown⟩
  obtain rfl := Except.ok.inj (hshown.symm.trans hline)
  exact ⟨label, hlabel, line, column, rest, before, after, hline, htext⟩

theorem FileFinding.exists_labels {text : LooseText} {findings : List FileFinding}
    (h : ∀ finding ∈ findings, ∃ label, finding.ShowsLabel text label) :
    ∃ labels, List.Forall₂ (FileFinding.ShowsLabel text) findings labels := by
  induction findings with
  | nil => exact ⟨[], .nil⟩
  | cons finding rest ih =>
    obtain ⟨⟨label, hlabel⟩, hrest⟩ := List.forall_mem_cons.1 h
    obtain ⟨labels, hlabels⟩ := ih hrest
    exact ⟨label :: labels, .cons hlabel hlabels⟩

/-! What is counted. -/

/-- As many findings are labelled with the word of a severity as have it or are misread as it. -/
theorem count_labels {text : LooseText} {findings : List FileFinding} {labels : List String}
    (h : List.Forall₂ (FileFinding.ShowsLabel text) findings labels) {k : Int}
    (hk : 1 ≤ k ∧ k ≤ 4) :
    labels.count (Published.severityWord k) =
      findings.countP (fun finding => Published.hasSeverity k finding.diagnostic) +
        findings.countP (fun finding => Published.misreads k finding.diagnostic) := by
  induction h with
  | nil => rfl
  | @cons finding label rest labels hfinding _ ih =>
    have hword := Published.severityName_eq_iff hfinding.labelled hk
    have hone : (if (label == Published.severityWord k) = true then 1 else 0) =
        (if Published.hasSeverity k finding.diagnostic = true then 1 else 0) +
          (if Published.misreads k finding.diagnostic = true then 1 else 0) := by
      by_cases hsame : Published.hasSeverity k finding.diagnostic = true
      · simp [hword.2 (.inl hsame), hsame, Published.misreads_eq_false hsame]
      · by_cases hmisread : Published.misreads k finding.diagnostic = true
        · simp [hword.2 (.inr hmisread), hsame, hmisread]
        · have hlabel : label ≠ Published.severityWord k :=
            fun heq => (hword.1 heq).elim hsame hmisread
          simp [hlabel, hsame, hmisread]
    rw [List.count_cons, List.countP_cons, List.countP_cons, ih, hone]
    omega

theorem DirectoryReport.figures_of_ofSurvey {survey : Survey} {report : DirectoryReport}
    (h : ofSurvey survey = .ok report) :
    findingsText survey.findings survey.tally.filesChecked.plain = .ok report.text ∧
      report.success = survey.success ∧ report.errorCount = survey.errorCount ∧
      report.warningCount = survey.warningCount ∧
      report.summary = findingsSummary survey.findings survey.tally := by
  obtain ⟨text, htext, rfl⟩ := ofSurvey_eq_ok_iff.1 h
  exact ⟨htext, rfl, rfl, rfl, rfl⟩

theorem Json.plain_int (n : Nat) : (Json.int n).plain = LooseText.ofString (toString n) := by
  have hnone : (Json.int n).asText? = none := rfl
  rw [plain, hnone, Option.getD_none, shownChars, String.ofList_toList]
  rfl

/-- The summary tells the figures, also when there are no findings. -/
theorem DirectoryReport.findingsSummary_tally {survey : Survey}
    (herrors : survey.findings = [] → survey.errorCount = 0)
    (hwarnings : survey.findings = [] → survey.warningCount = 0) :
    findingsSummary survey.findings survey.tally =
      s!"LSP check {statusWord survey.success}: {survey.errorCount} errors, " ++
        s!"{survey.warningCount} warnings ({survey.filesChecked} files)" := by
  have hfigures : survey.tally.errorCount.plain = .ofString (toString survey.errorCount) ∧
      survey.tally.warningCount.plain = .ofString (toString survey.warningCount) ∧
      survey.tally.filesChecked.plain = .ofString (toString survey.filesChecked) :=
    ⟨Json.plain_int _, Json.plain_int _, Json.plain_int _⟩
  have hsuccess : survey.tally.success.isTruthy = survey.success := rfl
  simp only [findingsSummary, hfigures, hsuccess]
  split
  · rename_i hempty
    have hnone := List.isEmpty_iff.1 hempty
    have hpassed : survey.success = true := decide_eq_true (herrors hnone)
    rw [hpassed, herrors hnone, hwarnings hnone]
    simp only [statusWord, ← LooseText.ofString_append]
    rfl
  · simp only [← LooseText.ofString_append, toString, String.append_assoc]
    rfl

namespace SurveyMeans

variable {σ ι : Type}

theorem counts_of_survey [HasMachine σ] {means : SurveyMeans σ ι} {patience : Patience}
    {ignored : List LooseText} {directory : Path} {extensions : List LooseText} {s after : σ}
    {survey : Survey}
    (h : (means.survey patience ignored directory extensions).run s = (.ok survey, after)) :
    survey.errorCount = survey.findings.countP (fun finding =>
        Published.hasSeverity 1 finding.diagnostic) ∧
      survey.warningCount = survey.findings.countP (fun finding =>
        Published.hasSeverity 2 finding.diagnostic) := by
  obtain ⟨files, searched, -, h⟩ := run_bind_eq_ok.1 h
  obtain ⟨_, started, -, h⟩ := run_bind_eq_ok.1 h
  obtain ⟨found, visited, -, h⟩ := run_bind_eq_ok.1 h
  rw [ofExcept_run] at h
  rw [Survey.eq_of_ofFindings (Prod.mk.inj h).1]
  exact ⟨rfl, rfl⟩

/-- When a survey is reported, the text shows the label of every finding. As many are labelled as
errors and as warnings as are counted, and besides those whose severity is misread. So the counts
agree with the labels exactly when no severity is misread as an error or a warning, and a report
that passed shows an error exactly when one is misread. -/
theorem labelled_are_counted_or_misread [HasMachine σ] (means : SurveyMeans σ ι)
    (patience : Patience) (ignored : List LooseText) (directory : Path)
    (extensions : List LooseText)
    {s after : σ} {survey : Survey} {report : DirectoryReport}
    (hsurvey : (means.survey patience ignored directory extensions).run s = (.ok survey, after))
    (hreport : DirectoryReport.ofSurvey survey = .ok report) :
    ∃ labels : List String,
      List.Forall₂ (FileFinding.ShowsLabel report.text) survey.findings labels ∧
      labels.count "error" = report.errorCount +
        survey.findings.countP (fun finding => Published.misreads 1 finding.diagnostic) ∧
      labels.count "warning" = report.warningCount +
        survey.findings.countP (fun finding => Published.misreads 2 finding.diagnostic) ∧
      (labels.count "error" = report.errorCount ∧ labels.count "warning" = report.warningCount ↔
        ∀ finding ∈ survey.findings, ¬Published.misreads 1 finding.diagnostic ∧
          ¬Published.misreads 2 finding.diagnostic) ∧
      (report.success = true → ("error" ∈ labels ↔
        ∃ finding ∈ survey.findings, Published.misreads 1 finding.diagnostic)) ∧
      report.summary =
        s!"LSP check {DirectoryReport.statusWord report.success}: {report.errorCount} errors, " ++
          s!"{report.warningCount} warnings ({survey.filesChecked} files)" := by
  obtain ⟨herrors, hwarnings⟩ := counts_of_survey hsurvey
  obtain ⟨htext, hsuccess, herrorCount, hwarningCount, hsummary⟩ :=
    DirectoryReport.figures_of_ofSurvey hreport
  obtain ⟨labels, hlabels⟩ := FileFinding.exists_labels fun finding hmem =>
    FileFinding.exists_showsLabel htext hmem
  have herrorLabels : labels.count "error" = report.errorCount +
      survey.findings.countP (fun finding => Published.misreads 1 finding.diagnostic) := by
    rw [herrorCount, herrors]
    exact count_labels (k := 1) hlabels (by omega)
  have hwarningLabels : labels.count "warning" = report.warningCount +
      survey.findings.countP (fun finding => Published.misreads 2 finding.diagnostic) := by
    rw [hwarningCount, hwarnings]
    exact count_labels (k := 2) hlabels (by omega)
  refine ⟨labels, hlabels, herrorLabels, hwarningLabels, ?_, fun hpassed => ?_, ?_⟩
  · rw [herrorLabels, hwarningLabels, Nat.add_eq_left, Nat.add_eq_left, List.countP_eq_zero,
      List.countP_eq_zero, ← forall₂_and]
  · rw [hsuccess] at hpassed
    have hnone : report.errorCount = 0 := herrorCount.trans (of_decide_eq_true hpassed)
    rw [← List.count_pos_iff, herrorLabels, hnone, Nat.zero_add, List.countP_pos_iff]
  · rw [hsummary, hsuccess, herrorCount, hwarningCount, DirectoryReport.findingsSummary_tally]
    · intro hempty
      rw [herrors, hempty]
      rfl
    · intro hempty
      rw [hwarnings, hempty]
      rfl

def misreading : SurveyMeans Machine Unit where
  session? path := pure (if path.name = "a.py" then some () else none)
  openDocument _ _ := pure ()
  hasPublished _ _ := pure true
  diagnostics _ _ := pure [.object [("severity", .string "1")]]
  sleep _ := pure ()
  log level text := Machine.log level text

/-- The report passed without errors and shows one. -/
theorem labelled_are_counted_or_misread_text : ∃ survey report after labels,
    (misreading.survey ⟨.zero false, .ok 0⟩ [] (.ofText "/") [".py"]).run threeFiles =
      (.ok survey, after) ∧
    DirectoryReport.ofSurvey survey = .ok report ∧ report.success = true ∧
    report.errorCount = 0 ∧
    List.Forall₂ (FileFinding.ShowsLabel report.text) survey.findings labels ∧
    labels.count "error" = 1 := by
  obtain ⟨journal, hfound⟩ := Machine.comes_findFiles sightings_threeFiles
  have hsurvey : ∃ after,
      (misreading.survey ⟨.zero false, .ok 0⟩ [] (.ofText "/") [".py"]).run threeFiles =
        (.ok ⟨[⟨"/a.py", .object [("severity", .string "1")]⟩], 0, 0, 1⟩, after) := by
    rw [survey, run_bind_ok (onMachine_run hfound)]
    exact ⟨_, rfl⟩
  have hreport : DirectoryReport.ofSurvey
      ⟨[⟨"/a.py", .object [("severity", .string "1")]⟩], 0, 0, 1⟩ = .ok
        { strategy := .lsp, success := true, errorCount := 0, warningCount := 0
          text := "/a.py:\n  1:1 - error: Unknown issue"
          summary := "LSP check passed: 0 errors, 0 warnings (1 files)" } := by
    decide +kernel
  obtain ⟨after, hsurvey⟩ := hsurvey
  obtain ⟨labels, hlabels, herrors, -⟩ :=
    labelled_are_counted_or_misread misreading ⟨.zero false, .ok 0⟩ [] (.ofText "/") [".py"]
      hsurvey hreport
  exact ⟨_, _, after, labels, hsurvey, hreport, rfl, rfl, hlabels, herrors⟩

end SurveyMeans

end ProjectCheck
