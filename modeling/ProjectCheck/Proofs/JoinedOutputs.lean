import ProjectCheck.Proofs.Checker.Readable
import ProjectCheck.Proofs.Text.Breaks
import ProjectCheck.Proofs.Tools

/-!
Outputs that are put together. An output that consists of two others with a line end between them
has the diagnostics of both, and fails as the first of them does that fails. So nothing matters of
an output but its lines, and of these only the ones that are not blank.
-/
namespace ProjectCheck

open Text

def ToolResult.append (r next : ToolResult) : ToolResult where
  success := r.success && next.success
  diagnostics := r.diagnostics ++ next.diagnostics
  errorCount := r.errorCount + next.errorCount
  warningCount := r.warningCount + next.warningCount
  skipped := r.skipped
  tool := r.tool

theorem ToolResult.ofDiagnostics_append (ds next : List Diagnostic) (tool : Option String) :
    ofDiagnostics (ds ++ next) tool = (ofDiagnostics ds tool).append (ofDiagnostics next tool) := by
  have herrors : countErrors (ds ++ next) = countErrors ds + countErrors next :=
    List.countP_append
  have hwarnings : countWarnings (ds ++ next) = countWarnings ds + countWarnings next :=
    List.countP_append
  have hsuccess : (countErrors ds + countErrors next = 0 : Bool) =
      ((countErrors ds = 0 : Bool) && (countErrors next = 0 : Bool)) := by
    rw [← Bool.decide_and]
    exact decide_eq_decide.2 Nat.add_eq_zero_iff
  rw [ofDiagnostics, herrors, hwarnings, hsuccess]
  rfl

def joined (outcome next : Except Failure ToolResult) : Except Failure ToolResult := do
  let r ← outcome
  let s ← next
  return r.append s

def isSeen (line : List Char) : Bool := !isBlankText line

namespace Checker

/-! Blank lines say nothing. -/

theorem isBlankText_of_mem {line : List Char} {c : Char} (hc : c ∈ line)
    (hseen : isBlank c = false) : isBlankText line = false :=
  List.all_eq_false.2 ⟨c, hc, by rw [hseen]; decide⟩

/-- A line with a finding has the marks of its form. -/
theorem Form.Yields.isSeen {form : Form} {line : List Char} {f : Finding}
    (h : form.Yields line f) : isSeen line = true := by
  have hcolon : isBlank ':' = false := by decide
  have hblank : isBlankText line = false := by
    cases form with
    | tsc =>
      obtain ⟨s, hs, -⟩ := h
      refine isBlankText_of_mem (c := '(') ?_ (by decide)
      rw [hs.text_eq]
      exact List.mem_append_right _ (List.mem_cons_self ..)
    | mypy =>
      obtain ⟨s, hs, -⟩ := h
      refine isBlankText_of_mem ?_ hcolon
      rw [hs.text_eq]
      exact List.mem_append_right _ (List.mem_cons_self ..)
    | goVet | pylint =>
      obtain ⟨s, hs, -⟩ := h
      refine isBlankText_of_mem ?_ hcolon
      rw [hs.text_eq]
      exact List.mem_append_right _ (List.mem_cons_self ..)
  rw [ProjectCheck.isSeen, hblank]
  rfl

theorem Form.reading_of_not_seen (form : Form) {line : List Char} (h : isSeen line = false) :
    reading form.readLine line = .ok none := by
  apply reading_eq_none
  rw [readLine_eq_none_iff]
  rintro ⟨f, hf⟩
  cases h.symm.trans hf.isSeen

/-! What lines add, one after another. -/

section Collected

variable {readLine : List Char → Except Failure (Option Diagnostic)}

def collected (readLine : List Char → Except Failure (Option Diagnostic))
    (lines : List (List Char)) : Except Failure (List Diagnostic) :=
  (lines.mapM readLine).map (·.filterMap id)

theorem collected_append (lines lines' : List (List Char)) :
    collected readLine (lines ++ lines') = (do
      let first ← collected readLine lines
      let second ← collected readLine lines'
      return first ++ second) := by
  rw [collected, collected, collected, List.mapM_append]
  cases lines.mapM readLine with
  | error failure => rfl
  | ok first =>
    cases lines'.mapM readLine with
    | error failure => rfl
    | ok second => exact congrArg Except.ok List.filterMap_append

/-- Lines that say nothing can be left out. -/
theorem collected_filter {p : List Char → Bool}
    (h : ∀ line, p line = false → readLine line = .ok none) (lines : List (List Char)) :
    collected readLine (lines.filter p) = collected readLine lines := by
  induction lines with
  | nil => rfl
  | cons line lines ih =>
    have hcons : ∀ rest, collected readLine (line :: rest) = (do
        let first ← collected readLine [line]
        let second ← collected readLine rest
        return first ++ second) := fun rest => collected_append [line] rest
    cases hp : p line with
    | true => rw [List.filter_cons_of_pos hp, hcons (lines.filter p), hcons lines, ih]
    | false =>
      have hsilent : collected readLine [line] = .ok [] := by
        rw [collected, List.mapM_cons, h line hp]
        rfl
      rw [List.filter_cons_of_neg (by rw [hp]; decide), hcons, hsilent, ih]
      cases collected readLine lines <;> rfl

theorem readLines_eq_collected (tool : String) (output : String) :
    readLines tool readLine output =
      (collected readLine (splitLines output.toList)).map
        (ToolResult.ofDiagnostics · (some tool)) := by
  rw [readLines, collected]
  cases (splitLines output.toList).mapM readLine <;> rfl

end Collected

end Checker

namespace Tool

open Checker

theorem readLine_of_not_seen (tool : Tool) {line : List Char} (h : isSeen line = false) :
    tool.readLine line = .ok none := by
  by_cases hcargo : tool = cargo
  · have hblank : trimBlanks line = [] := by
      rw [trimBlanks_eq_nil_iff]
      simpa [isSeen] using h
    rw [hcargo, readLine, Cargo.readLine, hblank]
    rfl
  · obtain ⟨form, hform⟩ := exists_form hcargo
    rw [hform, form.reading_of_not_seen h]

/-- An output is read by its lines that are not blank. -/
theorem read_eq_collected (tool : Tool) (text : String) : tool.checkTool.read text =
    (collected tool.readLine ((splitLines text.toList).filter isSeen)).map
      (ToolResult.ofDiagnostics · (some tool.name)) := by
  rw [tool.read_eq, readLines_eq_collected,
    collected_filter fun line => tool.readLine_of_not_seen]

/-- Reading two texts with any line end between them is reading one after the other, also where line
ends meet. Of a text only the lines matter, whatever their ends are, and of these only the ones that
are not blank; no line has carriage returns at its end. -/
theorem read_lines (tool : Tool) :
    (∀ (a b : String) (ending : List Char), IsBreak ending →
      tool.checkTool.read (a ++ String.ofList ending ++ b) =
        joined (tool.checkTool.read a) (tool.checkTool.read b)) ∧
    (∀ (lines lines' : List (List Char)) (text text' : String), Ruled lines text.toList →
      Ruled lines' text'.toList → lines.filter isSeen = lines'.filter isSeen →
        tool.checkTool.read text = tool.checkTool.read text') ∧
    ∀ text : String, strippedLines text.toList = splitLines text.toList := by
  have hnil : isSeen [] = false := rfl
  refine ⟨fun a b ending hending => ?_, fun lines lines' text text' h h' hsame => ?_,
    fun text => strippedLines_eq text.toList⟩
  · have htext : (a ++ String.ofList ending ++ b).toList = a.toList ++ (ending ++ b.toList) := by
      simp
    -- A failure of the first text comes first, also in what both have together.
    simp only [read_eq_collected, htext, filter_splitLines_join hnil hending, collected_append]
    cases collected tool.readLine ((splitLines a.toList).filter isSeen) with
    | error failure => rfl
    | ok first =>
      cases collected tool.readLine ((splitLines b.toList).filter isSeen) with
      | error failure => rfl
      | ok second =>
        exact congrArg Except.ok (ToolResult.ofDiagnostics_append first second (some tool.name))
  · rw [read_eq_collected, read_eq_collected, h.filter_eq hnil, h'.filter_eq hnil, hsame]

/-- A carriage return and the line feed that comes between the texts are one line end. -/
theorem read_lines_joint :
    Tool.mypy.checkTool.read
        ("a.py:1: error: m\r" ++ String.ofList ['\n'] ++ "b.py:2: warning: n") =
      .ok (ToolResult.ofDiagnostics [
        { file := "a.py", line := 1, column := 0, message := "m", severity := .error },
        { file := "b.py", line := 2, column := 0, message := "n", severity := .warning }]
        (some "mypy")) := by
  have hjoined := (read_lines .mypy).1 "a.py:1: error: m\r" "b.py:2: warning: n" ['\n']
    (.inr ⟨'\n', by decide, rfl⟩)
  rw [hjoined]
  decide +kernel

end Tool

end ProjectCheck
