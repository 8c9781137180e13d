import Mathlib.Logic.ExistsUnique
import ProjectCheck.Checker.Cargo
import ProjectCheck.Checker.GoVet
import ProjectCheck.Checker.Mypy
import ProjectCheck.Checker.Pylint
import ProjectCheck.Checker.Tsc
import ProjectCheck.Proofs.Text.Lines

/-!
Outputs are read line by line. Each line says nothing, adds a diagnostic, or cannot be read; the
first line that cannot be read makes the whole output unreadable.
-/
namespace ProjectCheck.Checker

open Text

def reading (readLine : List Char → Option Finding) (line : List Char) :
    Except Failure (Option Diagnostic) :=
  match readLine line with
  | none => .ok none
  | some finding => (ofIntegerFault finding.diagnostic).map some

theorem reading_eq_none {readLine : List Char → Option Finding} {line : List Char}
    (h : readLine line = none) : reading readLine line = .ok none := by
  rw [reading, h]

def readLines (tool : String) (readLine : List Char → Except Failure (Option Diagnostic))
    (output : String) : Except Failure ToolResult := do
  let found ← (splitLines output.toList).mapM readLine
  return ToolResult.ofDiagnostics (found.filterMap id) (some tool)

/-- Reading the findings of all lines at once is reading them line by line. -/
theorem mapM_reading (readLine : List Char → Option Finding) (lines : List (List Char)) :
    ofIntegerFault ((lines.filterMap readLine).mapM Finding.diagnostic) =
      (lines.mapM (reading readLine)).map (·.filterMap id) := by
  induction lines with
  | nil => rfl
  | cons line rest ih =>
    rw [List.mapM_cons, List.filterMap_cons]
    generalize hread : rest.mapM (reading readLine) = read at ih
    cases hline : readLine line with
    | none =>
      rw [reading_eq_none hline, ih]
      cases read <;> rfl
    | some finding =>
      rw [List.mapM_cons]
      generalize (rest.filterMap readLine).mapM Finding.diagnostic = diagnostics at ih
      cases hdiagnostic : finding.diagnostic with
      | error fault =>
        have hfails : reading readLine line = .error (.number fault) := by
          rw [reading, hline]
          simp only [hdiagnostic]
          rfl
        rw [hfails]
        rfl
      | ok diagnostic =>
        have hadds : reading readLine line = .ok (some diagnostic) := by
          rw [reading, hline]
          simp only [hdiagnostic]
          rfl
        rw [hadds]
        cases diagnostics <;> cases read <;> cases ih <;> rfl

theorem ofIntegerFault_readOutput (tool : String) (readLine : List Char → Option Finding)
    (output : String) :
    ofIntegerFault (readOutput tool readLine output) =
      readLines tool (reading readLine) output := by
  have hlines := mapM_reading readLine (splitLines output.toList)
  rw [readOutput, readLines]
  generalize (splitLines output.toList).mapM (reading readLine) = read at hlines ⊢
  generalize ((splitLines output.toList).filterMap readLine).mapM Finding.diagnostic =
    diagnostics at hlines ⊢
  cases diagnostics <;> cases read <;> cases hlines <;> rfl

/-- Either all lines can be read, or the first line that cannot be read fails. -/
theorem mapM_cases (readLine : List Char → Except Failure (Option Diagnostic))
    (lines : List (List Char)) :
    (∃ found, lines.mapM readLine = .ok found ∧
      (∀ line ∈ lines, ∃ found, readLine line = .ok found) ∧
      ∀ d, some d ∈ found ↔ ∃ line ∈ lines, readLine line = .ok (some d)) ∨
    ∃ failure, lines.mapM readLine = .error failure ∧
      ∃ line ∈ lines, readLine line = .error failure := by
  induction lines with
  | nil => exact .inl ⟨[], rfl, by simp, by simp⟩
  | cons line rest ih =>
    rw [List.mapM_cons]
    cases hline : readLine line with
    | error failure => exact .inr ⟨failure, rfl, line, List.mem_cons_self .., hline⟩
    | ok first =>
      obtain ⟨found, hrest, hall, hfound⟩ | ⟨failure, hrest, other, hother, hfails⟩ := ih
      · refine .inl ⟨first :: found, by rw [hrest]; rfl, ?_, fun d => ?_⟩
        · simpa only [List.forall_mem_cons] using ⟨⟨first, hline⟩, hall⟩
        · simp only [List.mem_cons, exists_eq_or_imp, hline, Except.ok.injEq, hfound]
          exact or_congr_left eq_comm
      · exact .inr ⟨failure, by rw [hrest]; rfl, other, List.mem_cons_of_mem line hother, hfails⟩

/-- Either all lines of an output can be read, and the result has what they add, or the first line
that cannot be read fails. -/
theorem readLines_cases (tool : String) (readLine : List Char → Except Failure (Option Diagnostic))
    (output : String) :
    (∃ diagnostics, readLines tool readLine output =
        .ok (ToolResult.ofDiagnostics diagnostics (some tool)) ∧
      (∀ line ∈ splitLines output.toList, ∃ found, readLine line = .ok found) ∧
      ∀ d, d ∈ diagnostics ↔ ∃ line ∈ splitLines output.toList, readLine line = .ok (some d)) ∨
    ∃ failure, readLines tool readLine output = .error failure ∧
      ∃ line ∈ splitLines output.toList, readLine line = .error failure := by
  unfold readLines
  obtain ⟨found, hfound, hall, hmem⟩ | ⟨failure, hfails, hline⟩ :=
    mapM_cases readLine (splitLines output.toList)
  · refine .inl ⟨found.filterMap id, by rw [hfound]; rfl, hall, fun d => ?_⟩
    rw [List.mem_filterMap, ← hmem]
    simp
  · exact .inr ⟨failure, by rw [hfails]; rfl, hline⟩

/-! What the diagnostics of an output tell of its lines. -/

section Told

variable {readLine : List Char → Except Failure (Option Diagnostic)} {lines : List (List Char)}
  {diagnostics : List Diagnostic}

theorem ne_nil_iff_exists_line
    (hmem : ∀ d, d ∈ diagnostics ↔ ∃ line ∈ lines, readLine line = .ok (some d)) :
    diagnostics ≠ [] ↔ ∃ line ∈ lines, ∃ d, readLine line = .ok (some d) := by
  constructor
  · intro hne
    obtain ⟨d, hd⟩ := List.exists_mem_of_ne_nil diagnostics hne
    obtain ⟨line, hline, hadds⟩ := (hmem d).1 hd
    exact ⟨line, hline, d, hadds⟩
  · rintro ⟨line, hline, d, hadds⟩
    exact List.ne_nil_of_mem ((hmem d).2 ⟨line, hline, hadds⟩)

theorem eq_nil_iff_forall_line (hall : ∀ line ∈ lines, ∃ found, readLine line = .ok found)
    (hmem : ∀ d, d ∈ diagnostics ↔ ∃ line ∈ lines, readLine line = .ok (some d)) :
    diagnostics = [] ↔ ∀ line ∈ lines, readLine line = .ok none := by
  constructor
  · intro hnil line hline
    obtain ⟨found, hfound⟩ := hall line hline
    cases found with
    | none => exact hfound
    | some d => exact absurd hnil ((ne_nil_iff_exists_line hmem).2 ⟨line, hline, d, hfound⟩)
  · intro hsilent
    apply List.eq_nil_iff_forall_not_mem.2
    intro d hd
    obtain ⟨line, hline, hadds⟩ := (hmem d).1 hd
    cases hadds.symm.trans (hsilent line hline)

end Told

/-! Outputs of one line. -/

def Finding.valued (f : Finding) : Diagnostic where
  file := String.ofList f.file
  line := digitsValue f.line
  column := digitsValue f.column
  message := String.ofList f.message
  severity := f.severity
  code := f.code.map fun code => String.ofList code

/-- What comes of a line with a finding: its diagnostic, unless one of its numbers is too long to be
read. -/
structure Finding.ComesTo (f : Finding) (tool : String) (outcome : Except IntegerFault ToolResult) :
    Prop where
  short : f.line.length ≤ digitLimit → f.column.length ≤ digitLimit →
    outcome = .ok (ToolResult.ofDiagnostics [f.valued] (some tool))
  longLine : digitLimit < f.line.length → outcome = .error (.tooManyDigits f.line.length)
  longColumn : f.line.length ≤ digitLimit → digitLimit < f.column.length →
    outcome = .error (.tooManyDigits f.column.length)

theorem Finding.comesTo_diagnostic (f : Finding) (tool : String) :
    f.ComesTo tool (f.diagnostic.map fun d => ToolResult.ofDiagnostics [d] (some tool)) where
  short hline hcolumn := by
    rw [diagnostic, readDigits_eq_ok hline, readDigits_eq_ok hcolumn]
    rfl
  longLine hline := by
    rw [diagnostic, readDigits, if_pos hline]
    rfl
  longColumn hline hcolumn := by
    rw [diagnostic, readDigits_eq_ok hline, readDigits, if_pos hcolumn]
    rfl

variable {tool output : String} {readLine : List Char → Option Finding}

/-- An output of one line says nothing when the line has no finding. -/
theorem readOutput_of_silent (hline : IsLine output.toList)
    (hsilent : readLine output.toList = none) :
    readOutput tool readLine output = .ok (ToolResult.ofDiagnostics [] (some tool)) := by
  rw [readOutput]
  by_cases hempty : output.toList = []
  · rw [hempty]
    rfl
  · rw [splitLines_line hline hempty, List.filterMap_cons_none hsilent]
    rfl

/-- Otherwise it says what the finding of its line comes to. -/
theorem readOutput_of_finding {f : Finding} (hline : IsLine output.toList)
    (hne : output.toList ≠ []) (hfinding : readLine output.toList = some f) :
    f.ComesTo tool (readOutput tool readLine output) := by
  have hread : readOutput tool readLine output =
      f.diagnostic.map fun d => ToolResult.ofDiagnostics [d] (some tool) := by
    rw [readOutput, splitLines_line hline hne, List.filterMap_cons_some hfinding]
    cases hdiagnostic : f.diagnostic <;> simp [hdiagnostic] <;> rfl
  rw [hread]
  exact f.comesTo_diagnostic tool

/-! Lines that are read by their splits. -/

/-- A line has a finding when it can be split, and the finding is what the one preferred split
says. -/
structure ReadsBySplit {σ : Type} (readLine : List Char → Option Finding)
    (isOf isPreferred : σ → List Char → Prop) (finding : σ → Finding) : Prop where
  isOf_of_preferred : ∀ {s text}, isPreferred s text → isOf s text
  text_ne : ∀ {s text}, isOf s text → text ≠ []
  reads : ∀ {s text}, isOf s text → ∃ f, readLine text = some f
  preferred : ∀ {text f}, readLine text = some f → ∃ s, isPreferred s text ∧ finding s = f
  unique : ∀ {s t text}, isPreferred s text → isPreferred t text → s = t

/-- What comes of a line that is read by its splits. It says nothing when it cannot be split. When
it can, one of its splits is preferred, and it says what that one says, unless a number of it is too
long to be read. -/
structure IsReadBySplit {σ : Type} (isOf isPreferred : σ → Prop) (finding : σ → Finding)
    (tool : String) (outcome : Except IntegerFault ToolResult) : Prop where
  silent : (¬ ∃ s, isOf s) → outcome = .ok (ToolResult.ofDiagnostics [] (some tool))
  unique : (∃ s, isOf s) → ∃! s, isPreferred s
  told : ∀ s, isPreferred s → (finding s).ComesTo tool outcome

namespace ReadsBySplit

variable {σ : Type} {readLine : List Char → Option Finding}
  {isOf isPreferred : σ → List Char → Prop} {finding : σ → Finding} {text : List Char}

theorem readLine_eq_some_iff (h : ReadsBySplit readLine isOf isPreferred finding) {f : Finding} :
    readLine text = some f ↔ ∃ s, isPreferred s text ∧ finding s = f := by
  constructor
  · exact h.preferred
  · rintro ⟨s, hs, rfl⟩
    obtain ⟨g, hg⟩ := h.reads (h.isOf_of_preferred hs)
    obtain ⟨t, ht, rfl⟩ := h.preferred hg
    rw [hg, h.unique hs ht]

theorem readOutput (h : ReadsBySplit readLine isOf isPreferred finding) (tool : String)
    {output : String} (hline : IsLine output.toList) :
    IsReadBySplit (isOf · output.toList) (isPreferred · output.toList) finding tool
      (readOutput tool readLine output) where
  silent hnone := by
    apply readOutput_of_silent hline
    cases hread : readLine output.toList with
    | none => rfl
    | some f =>
      obtain ⟨s, hs, -⟩ := h.preferred hread
      exact absurd ⟨s, h.isOf_of_preferred hs⟩ hnone
  unique hsplit := by
    obtain ⟨s, hs⟩ := hsplit
    obtain ⟨f, hf⟩ := h.reads hs
    obtain ⟨t, ht, -⟩ := h.preferred hf
    exact ⟨t, ht, fun other hother => h.unique hother ht⟩
  told s hs :=
    readOutput_of_finding hline (h.text_ne (h.isOf_of_preferred hs))
      (h.readLine_eq_some_iff.2 ⟨s, hs, rfl⟩)

end ReadsBySplit

end ProjectCheck.Checker
