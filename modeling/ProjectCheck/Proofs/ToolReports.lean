import ProjectCheck.Proofs.Checker.Readable
import ProjectCheck.Proofs.ReportText

/-!
Reports of checkers tell all that was read. The lines that checkers print leave nothing in a
diagnostic that a report could not show: their texts are parts of one line, and a code is digits
after letters or was in brackets before.
-/
namespace ProjectCheck.Checker

open Text

/-! What is read is legible. -/

theorem Finding.isLegible_valued {f : Finding} (hfile : IsLine f.file) (hmessage : IsLine f.message)
    (hcode : ∀ code, f.code = some code → IsLine code ∧ code ≠ [] ∧ ']' ∉ code) :
    f.valued.IsLegible := by
  have hvalued : ∀ code, f.valued.code = some code →
      code.IsPlain ∧ IsLine code.shown ∧ code ≠ [] ∧ ']' ∉ code.shown := by
    intro code hsome
    obtain ⟨chars, hchars, rfl⟩ := Option.map_eq_some_iff.1 hsome
    obtain ⟨hline, hne, hclosed⟩ := hcode chars hchars
    rw [LooseText.shown_ofString, String.toList_ofList]
    exact ⟨LooseText.isPlain_ofString _, hline, by simpa using hne, hclosed⟩
  exact {
    file_plain := LooseText.isPlain_ofString _
    file_line := by rwa [valued, LooseText.shown_ofString, String.toList_ofList]
    message_plain := LooseText.isPlain_ofString _
    message_line := by rwa [valued, LooseText.shown_ofString, String.toList_ofList]
    code_plain := fun code hsome => (hvalued code hsome).1
    code_line := fun code hsome => (hvalued code hsome).2.1
    code_ne := fun code hsome => (hvalued code hsome).2.2.1
    code_closed := fun code hsome => (hvalued code hsome).2.2.2 }

theorem IsNumber.closed {run : List Char} (h : IsNumber run) : ']' ∉ run :=
  fun hmem => absurd (h.2 _ hmem) (by decide)

namespace Form

variable {form : Form} {line : List Char} {f : Finding} {output : String} {result : ToolResult}

theorem Yields.isLegible (h : form.Yields line f) (hline : IsLine line) :
    f.valued.IsLegible := by
  cases form with
  | tsc =>
    obtain ⟨s, hs, rfl⟩ := h
    rw [hs.text_eq] at hline
    simp only [Tsc.Split.rest, Tsc.restText, isLine_append, isLine_cons] at hline
    refine Finding.isLegible_valued hline.1 (by tauto) ?_
    rintro _ ⟨⟩
    refine ⟨by simp only [isLine_cons]; tauto, List.cons_ne_nil _ _, ?_⟩
    simpa using hs.code_number.closed
  | mypy =>
    obtain ⟨s, hs, severity, -, rfl⟩ := h
    rw [hs.text_eq] at hline
    simp only [Mypy.Split.rest, Mypy.Split.body, isLine_append, isLine_cons] at hline
    refine Finding.isLegible_valued hline.1 (by tauto) ?_
    intro code hcode
    obtain ⟨⟨gap, run⟩, hsplit, rfl⟩ := Option.map_eq_some_iff.1 hcode
    obtain ⟨-, hne, hclosed⟩ := hs.code_closed gap run hsplit
    simp only [hsplit, Mypy.Split.codePart, isLine_append, isLine_cons] at hline
    exact ⟨by tauto, hne, hclosed⟩
  | goVet =>
    obtain ⟨s, hs, rfl⟩ := h
    rw [hs.text_eq] at hline
    simp only [GoVet.Split.rest, placed, isLine_append, isLine_cons] at hline
    refine Finding.isLegible_valued hline.1 (by tauto) ?_
    rintro _ ⟨⟩
  | pylint =>
    obtain ⟨s, hs, rfl⟩ := h
    rw [hs.text_eq] at hline
    simp only [Pylint.Split.rest, Pylint.Split.said, placed, isLine_append, isLine_cons] at hline
    refine Finding.isLegible_valued hline.1 (by tauto) ?_
    rintro _ ⟨⟩
    refine ⟨by simp only [isLine_cons]; tauto, List.cons_ne_nil _ _, ?_⟩
    have hletter : s.letter ≠ ']' := by
      intro heq
      have hcapital := hs.letter_capital
      rw [heq] at hcapital
      exact absurd hcapital (by decide)
    simpa [hletter.symm] using hs.code_number.closed

/-- All that is read of an output is legible. -/
theorem legible_of_read (h : form.read output = .ok result) :
    ∃ ds, result = .ofDiagnostics ds (some form.toolName) ∧ ∀ d ∈ ds, d.IsLegible := by
  rw [form.read_eq, readOutput_eq_outcome, outcome] at h
  split at h
  · cases h
  · obtain rfl := Except.ok.inj h
    refine ⟨_, rfl, fun d hd => ?_⟩
    obtain ⟨f, hf, rfl⟩ := List.mem_map.1 hd
    obtain ⟨line, hline, hyields⟩ := mem_filterMap_iff.1 hf
    exact hyields.isLegible (isLineEnd_of_mem_splitLines output.toList line hline)

/-- A report of what was read tells all of it, and two reports have the same text only when they are
of the same files with the same diagnostics, in the same order. -/
theorem report_tells_all {form : Form} {output : String} {result : ToolResult}
    (hread : form.read output = .ok result) (hne : result.diagnostics ≠ []) (language : Language) :
    (DirectoryReport.ofToolResult language result).Shows result ∧
    ∀ (other : Form) (output' : String) (result' : ToolResult) (language' : Language),
      other.read output' = .ok result' → result'.diagnostics ≠ [] →
      (DirectoryReport.ofToolResult language' result').text =
        (DirectoryReport.ofToolResult language result).text →
      groupBy (·.file) result'.diagnostics = groupBy (·.file) result.diagnostics := by
  -- The text alone is decoded, so it does not matter which tool either report is of.
  have hshows : ∀ (form : Form) (output : String) (result : ToolResult) (language : Language),
      form.read output = .ok result → result.diagnostics ≠ [] →
        (DirectoryReport.ofToolResult language result).Shows result := by
    intro form output result language hread hne
    obtain ⟨ds, rfl, hlegible⟩ := legible_of_read hread
    exact DirectoryReport.shows_ofToolResult hlegible hne _ language
  have hshown := hshows form output result language hread hne
  refine ⟨hshown, fun other output' result' language' hread' hne' hsame => ?_⟩
  have hdecoded := (hshows other output' result' language' hread' hne').decoded
  rw [hsame, hshown.decoded] at hdecoded
  exact (Option.some.inj hdecoded).symm

/-- The diagnostics of a file need not come together, and a message can look like a code. -/
theorem report_tells_all_apart :
    let first : Diagnostic := ⟨"b.py", 1, 0, "m", .error, none⟩
    let between : Diagnostic := ⟨"a.py", 2, 3, "n", .warning, some "x"⟩
    let last : Diagnostic := ⟨"b.py", 4, 0, "]: k", .error, none⟩
    DirectoryReport.decode?
        "b.py:\n  1:0 - error: m\n  4:0 - error: ]: k\n\na.py:\n  2:3 - warning [x]: n\n" =
      some [(("b.py" : LooseText), [first, last]), (("a.py" : LooseText), [between])] := by
  intro first between last
  have hread : Form.mypy.read
      "b.py:1: error: m\na.py:2:3: warning: n  [x]\nb.py:4: error: ]: k\n" =
        .ok (.ofDiagnostics [first, between, last] (some "mypy")) := by decide +kernel
  have hdecoded := (report_tells_all hread (List.cons_ne_nil _ _) .python).1.decoded
  have htext : (DirectoryReport.ofToolResult .python
      (.ofDiagnostics [first, between, last] (some "mypy"))).text =
        "b.py:\n  1:0 - error: m\n  4:0 - error: ]: k\n\na.py:\n  2:3 - warning [x]: n\n" := by
    decide +kernel
  rw [htext] at hdecoded
  refine hdecoded.trans ?_
  decide +kernel

end Form

end ProjectCheck.Checker
