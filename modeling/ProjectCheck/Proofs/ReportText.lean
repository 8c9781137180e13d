import ProjectCheck.Proofs.Checker.Parts
import ProjectCheck.Proofs.Grouping
import ProjectCheck.Proofs.Text.Breaks
import ProjectCheck.Proofs.Text.Loose

/-!
Reports are read back from their text. An empty line ends the block of a file, so the first line of
a block is the heading, even when the file is named like a diagnostic, and every other line is one
diagnostic. This needs diagnostics whose texts have no line ends and whose codes have no brackets
that would end them.
-/
namespace ProjectCheck

open Text Checker

/-! Lines with a line feed after each. -/

def feedLines (lines : List (List Char)) : List Char := lines.flatMap (· ++ ['\n'])

theorem splitLines_feedLines {lines : List (List Char)} (h : ∀ line ∈ lines, IsLine line) :
    splitLines (feedLines lines) = lines := by
  induction lines with
  | nil => rfl
  | cons line lines ih =>
    obtain ⟨hline, hlines⟩ := List.forall_mem_cons.1 h
    have hfeed : splitLines ('\n' :: feedLines lines) = [] :: lines := by
      rw [@splitLines_end '\n' _ (by decide) nofun, ih hlines]
    have htext : feedLines (line :: lines) = line ++ '\n' :: feedLines lines :=
      List.append_assoc line ['\n'] (feedLines lines)
    rw [htext, splitLines_append hline hfeed]

theorem feedLines_append (lines lines' : List (List Char)) :
    feedLines (lines ++ lines') = feedLines lines ++ feedLines lines' :=
  List.flatMap_append

/-- An empty line between texts of lines. -/
theorem feedLines_intercalate (blocks : List (List (List Char))) :
    feedLines ([[]].intercalate blocks) = ['\n'].intercalate (blocks.map feedLines) := by
  induction blocks with
  | nil => rfl
  | cons block blocks ih =>
    cases blocks with
    | nil => rw [List.intercalate_singleton, List.map_singleton, List.intercalate_singleton]
    | cons next blocks =>
      rw [List.intercalate_cons_cons, feedLines_append, feedLines_append, ih]
      exact List.intercalate_cons_cons.symm

/-! Diagnostics in lines. -/

namespace Diagnostic

structure IsLegible (d : Diagnostic) : Prop where
  file_plain : d.file.IsPlain
  file_line : IsLine d.file.shown
  message_plain : d.message.IsPlain
  message_line : IsLine d.message.shown
  code_plain : ∀ code, d.code = some code → code.IsPlain
  code_line : ∀ code, d.code = some code → IsLine code.shown
  code_ne : ∀ code, d.code = some code → code ≠ []
  code_closed : ∀ code, d.code = some code → ']' ∉ code.shown

def codeText : Option LooseText → List Char
  | none => []
  | some code => [' ', '['] ++ (code.shown ++ [']'])

variable {d : Diagnostic}

theorem IsLegible.shown_reportLine (h : d.IsLegible) : d.reportLine.shown =
    [' ', ' '] ++ (Nat.toDigits 10 d.line ++ ':' :: (Nat.toDigits 10 d.column ++ ' ' ::
      (['-', ' '] ++ (d.severity.name.toList ++ (codeText d.code ++
        ([':', ' '] ++ d.message.shown)))))) := by
  cases hcode : d.code with
  | none => simp [reportLine, hcode, codeText, toString_string, Nat.toString_eq_repr, Nat.repr]
  | some code =>
    simp [reportLine, hcode, if_neg (h.code_ne code hcode), codeText, toString_string,
      Nat.toString_eq_repr, Nat.repr]

theorem IsLegible.isPlain_reportLine (h : d.IsLegible) : d.reportLine.IsPlain := by
  have hplain := LooseText.isPlain_ofString
  rw [reportLine]
  refine ((hplain _).append ?_).append (hplain _) |>.append h.message_plain
  split
  · rename_i code hcode
    split
    · exact hplain ""
    · exact ((hplain _).append (h.code_plain code hcode)).append (hplain _)
  · exact hplain ""

theorem IsLegible.isLine_reportLine (h : d.IsLegible) : IsLine d.reportLine.shown := by
  have hcode : IsLine (codeText d.code) := by
    cases hcoded : d.code with
    | none => exact isLine_nil
    | some code => simp [codeText, h.code_line code hcoded, isLineEnd]
  have hseverity : IsLine d.severity.name.toList := by
    cases d.severity <;> decide
  rw [h.shown_reportLine]
  simp [isLine_toDigits, hseverity, hcode, h.message_line, isLineEnd]

def shownCode (s : List Char) : Option LooseText × List Char :=
  match after? [' ', '['] s with
  | some rest =>
    let code := String.ofList (rest.takeWhile (· ≠ ']'))
    (some code, (rest.dropWhile (· ≠ ']')).drop 1)
  | none => (none, s)

theorem shownCode_codeText {code : Option LooseText} (hplain : ∀ c, code = some c → c.IsPlain)
    (hclosed : ∀ c, code = some c → ']' ∉ c.shown) (rest : List Char) :
    shownCode (codeText code ++ ([':', ' '] ++ rest)) = (code, [':', ' '] ++ rest) := by
  cases code with
  | none => rfl
  | some code =>
    have hcode : LooseText.ofString (String.ofList code.shown) = code := hplain code rfl
    have hrun : ∀ c ∈ code.shown, decide (c ≠ ']') = true := fun c hc =>
      decide_eq_true fun heq => hclosed code rfl (heq ▸ hc)
    have hstops : Stops (fun c => decide (c ≠ ']')) (']' :: ([':', ' '] ++ rest)) :=
      Stops.cons (by decide)
    have htext : codeText (some code) ++ ([':', ' '] ++ rest) =
        [' ', '['] ++ (code.shown ++ ']' :: ([':', ' '] ++ rest)) := by
      simp [codeText]
    rw [htext, shownCode, after?_append]
    simp only [takeWhile_run hrun hstops, dropWhile_run hrun hstops, hcode]
    rfl

def ofReportLine? (file : LooseText) (s : List Char) : Option Diagnostic := do
  let s ← after? [' ', ' '] s
  let (line, s) ← numberThen? ':' s
  let (column, s) ← numberThen? ' ' s
  let s ← after? ['-', ' '] s
  let (severity, s) ← word? severityWords s
  let (code, s) := shownCode s
  let message ← after? [':', ' '] s
  return ⟨file, digitsValue line, digitsValue column, String.ofList message, severity, code⟩

/-- A diagnostic is read back from its line, but for the file, which stands in the heading. -/
theorem IsLegible.ofReportLine?_reportLine (h : d.IsLegible) (file : LooseText) :
    ofReportLine? file d.reportLine.shown = some { d with file := file } := by
  have hmessage : LooseText.ofString (String.ofList d.message.shown) = d.message := h.message_plain
  have hcolon : isDigit ':' = false := by decide
  have hspace : isDigit ' ' = false := by decide
  rw [h.shown_reportLine]
  simp only [ofReportLine?, after?_append, Option.bind_eq_bind, Option.bind_some,
    numberThen?_append (isNumber_toDigits _) hcolon,
    numberThen?_append (isNumber_toDigits _) hspace, word?_severity,
    shownCode_codeText h.code_plain h.code_closed, digitsValue_toDigits, hmessage]
  rfl

end Diagnostic

/-! Reports. -/

namespace DirectoryReport

def blockLines (block : LooseText × List Diagnostic) : List (List Char) :=
  (block.1.shown ++ [':']) :: block.2.map (·.reportLine.shown)

def block? : List (List Char) → Option (LooseText × List Diagnostic)
  | [] => none
  | heading :: entries => do
    let file : LooseText := String.ofList heading.dropLast
    let found ← entries.mapM (Diagnostic.ofReportLine? file)
    return (file, found)

def blocksOf (text : LooseText) : List (List (List Char)) := (splitLines text.shown).splitOn []

def decode? (text : LooseText) : Option (List (LooseText × List Diagnostic)) :=
  (blocksOf text).mapM block?

def entries (text : LooseText) : List (List Char) := (blocksOf text).flatMap List.tail

def showsSeverity (severity : Severity) (line : List Char) : Bool :=
  (Diagnostic.ofReportLine? [] line).any (·.severity = severity)

def countLines (severity : Severity) (text : LooseText) : Nat :=
  (entries text).countP (showsSeverity severity)

theorem shown_flatMap (ds : List Diagnostic) (lineOf : Diagnostic → LooseText) :
    LooseText.shown (ds.flatMap lineOf) = ds.flatMap fun d => (lineOf d).shown := by
  induction ds with
  | nil => rfl
  | cons d ds ih => rw [List.flatMap_cons, LooseText.shown_append, ih, List.flatMap_cons]

theorem shown_intercalate (separator : LooseText) (texts : List LooseText) :
    LooseText.shown (separator.intercalate texts) =
      separator.shown.intercalate (texts.map LooseText.shown) := by
  induction texts with
  | nil => rfl
  | cons text texts ih =>
    cases texts with
    | nil => rw [List.intercalate_singleton, List.map_singleton, List.intercalate_singleton]
    | cons next texts =>
      rw [List.intercalate_cons_cons, LooseText.shown_append, LooseText.shown_append, ih]
      exact List.intercalate_cons_cons.symm

theorem shown_blocks (ds : List Diagnostic) : (blocks ds).shown =
    feedLines ([[]].intercalate ((groupBy (·.file) ds).map blockLines)) := by
  have hblock : ∀ block : LooseText × List Diagnostic,
      (fileBlock block.1 block.2).shown = feedLines (blockLines block) := by
    intro block
    simp [fileBlock, blockLines, feedLines, List.flatMap_map, shown_flatMap]
  have hfeed : LooseText.shown [.char '\n'] = ['\n'] := LooseText.shown_char_cons '\n' []
  rw [blocks, shown_intercalate, hfeed, feedLines_intercalate, List.map_map, List.map_map]
  exact congrArg _ (List.map_congr_left fun block _ => hblock block)

/-- The lines of blocks, and empty ones between them. -/
theorem mem_intercalate_empty {blocks : List (List (List Char))} {line : List Char}
    (h : line ∈ [[]].intercalate blocks) : line = [] ∨ ∃ block ∈ blocks, line ∈ block := by
  induction blocks with
  | nil => cases h
  | cons block blocks ih =>
    cases blocks with
    | nil =>
      rw [List.intercalate_singleton] at h
      exact .inr ⟨block, List.mem_cons_self .., h⟩
    | cons next blocks =>
      rw [List.intercalate_cons_cons, List.mem_append, List.mem_append] at h
      obtain (hblock | hempty) | hrest := h
      · exact .inr ⟨block, List.mem_cons_self .., hblock⟩
      · exact .inl (List.mem_singleton.1 hempty)
      · refine (ih hrest).imp_right fun ⟨other, hother, hline⟩ => ?_
        exact ⟨other, List.mem_cons_of_mem block hother, hline⟩

theorem mapM_map_eq_some {α β : Type} {read : β → Option α} {write : α → β} {items : List α}
    (h : ∀ item ∈ items, read (write item) = some item) :
    (items.map write).mapM read = some items := by
  induction items with
  | nil => rfl
  | cons item items ih =>
    obtain ⟨hitem, hitems⟩ := List.forall_mem_cons.1 h
    rw [List.map_cons, List.mapM_cons, hitem, ih hitems]
    rfl

section Legible

variable {ds : List Diagnostic}

theorem isLine_of_mem_blockLines (h : ∀ d ∈ ds, d.IsLegible) {block : LooseText × List Diagnostic}
    (hblock : block ∈ groupBy (·.file) ds) : ∀ line ∈ blockLines block, IsLine line := by
  obtain ⟨⟨first, hfirst, hfile⟩, hgroup⟩ := mem_groupBy.1 hblock
  refine List.forall_mem_cons.2 ⟨?_, fun line hline => ?_⟩
  · have hline := (h first hfirst).file_line
    rw [hfile] at hline
    simp [hline, isLineEnd]
  · obtain ⟨d, hd, rfl⟩ := List.mem_map.1 hline
    rw [hgroup] at hd
    exact (h d (List.mem_of_mem_filter hd)).isLine_reportLine

/-- A report has the lines of the blocks, with an empty line between two of them. -/
theorem splitLines_blocks (h : ∀ d ∈ ds, d.IsLegible) : splitLines (blocks ds).shown =
    [[]].intercalate ((groupBy (·.file) ds).map blockLines) := by
  rw [shown_blocks]
  refine splitLines_feedLines fun line hline => ?_
  obtain rfl | ⟨_, hmem, hline⟩ := mem_intercalate_empty hline
  · exact isLine_nil
  · obtain ⟨block, hblock, rfl⟩ := List.mem_map.1 hmem
    exact isLine_of_mem_blockLines h hblock line hline

theorem isPlain_flatMap {lineOf : Diagnostic → LooseText} (h : ∀ d ∈ ds, (lineOf d).IsPlain) :
    LooseText.IsPlain (ds.flatMap lineOf) := by
  induction ds with
  | nil => exact LooseText.isPlain_ofString ""
  | cons d ds ih =>
    obtain ⟨hd, hds⟩ := List.forall_mem_cons.1 h
    rw [List.flatMap_cons]
    exact hd.append (ih hds)

theorem isPlain_intercalate {separator : LooseText} (hseparator : separator.IsPlain)
    {texts : List LooseText} (h : ∀ text ∈ texts, text.IsPlain) :
    LooseText.IsPlain (separator.intercalate texts) := by
  induction texts with
  | nil => exact LooseText.isPlain_ofString ""
  | cons text texts ih =>
    obtain ⟨htext, htexts⟩ := List.forall_mem_cons.1 h
    cases texts with
    | nil => rwa [List.intercalate_singleton]
    | cons next texts =>
      rw [List.intercalate_cons_cons]
      exact (htext.append hseparator).append (ih htexts)

/-- No lone surrogate comes into a report of legible diagnostics. -/
theorem isPlain_blocks (h : ∀ d ∈ ds, d.IsLegible) : (blocks ds).IsPlain := by
  have hfeed : LooseText.IsPlain [.char '\n'] := LooseText.isPlain_ofString "\n"
  refine isPlain_intercalate hfeed fun text htext => ?_
  obtain ⟨⟨file, group⟩, hblock, rfl⟩ := List.mem_map.1 htext
  obtain ⟨⟨first, hfirst, rfl⟩, hgroup⟩ := mem_groupBy.1 hblock
  refine (h first hfirst).file_plain.append (.char_cons (.char_cons (isPlain_flatMap ?_) _) _)
  intro d hd
  rw [hgroup] at hd
  exact (h d (List.mem_of_mem_filter hd)).isPlain_reportLine.append hfeed

theorem blocksOf_blocks (h : ∀ d ∈ ds, d.IsLegible) (hne : ds ≠ []) :
    blocksOf (blocks ds) = (groupBy (·.file) ds).map blockLines := by
  rw [blocksOf, splitLines_blocks h]
  refine List.splitOn_intercalate [] (fun lines hlines hempty => ?_) ?_
  · -- No line of a block is empty: the heading has its colon, and the others are indented.
    obtain ⟨block, hblock, rfl⟩ := List.mem_map.1 hlines
    obtain hheading | hentry := List.mem_cons.1 hempty
    · exact absurd hheading.symm (List.append_ne_nil_of_right_ne_nil _ (List.cons_ne_nil _ _))
    · obtain ⟨d, hd, hline⟩ := List.mem_map.1 hentry
      rw [(mem_groupBy.1 hblock).2] at hd
      rw [(h d (List.mem_of_mem_filter hd)).shown_reportLine] at hline
      cases hline
  · obtain ⟨first, rest, rfl⟩ := List.exists_cons_of_ne_nil hne
    rw [groupBy_cons, List.map_cons]
    exact List.cons_ne_nil _ _

theorem block?_blockLines (h : ∀ d ∈ ds, d.IsLegible) {block : LooseText × List Diagnostic}
    (hblock : block ∈ groupBy (·.file) ds) : block? (blockLines block) = some block := by
  obtain ⟨file, group⟩ := block
  have hgroup : (group.map (·.reportLine.shown)).mapM (Diagnostic.ofReportLine? file) =
      some group := by
    refine mapM_map_eq_some fun d hd => ?_
    rw [(mem_groupBy.1 hblock).2, List.mem_filter] at hd
    obtain rfl := of_decide_eq_true hd.2
    exact (h d hd.1).ofReportLine?_reportLine d.file
  obtain ⟨⟨first, hfirst, hfile⟩, -⟩ := mem_groupBy.1 hblock
  have hplain : LooseText.ofString (String.ofList file.shown) = file :=
    hfile ▸ (h first hfirst).file_plain
  rw [blockLines, block?, List.dropLast_concat, hplain, hgroup]
  rfl

/-- The files and their diagnostics are read back from a report. -/
theorem decode?_blocks (h : ∀ d ∈ ds, d.IsLegible) (hne : ds ≠ []) :
    decode? (blocks ds) = some (groupBy (·.file) ds) := by
  rw [decode?, blocksOf_blocks h hne]
  exact mapM_map_eq_some fun block => block?_blockLines h

theorem entries_blocks (h : ∀ d ∈ ds, d.IsLegible) (hne : ds ≠ []) : entries (blocks ds) =
    ((groupBy (·.file) ds).flatMap Prod.snd).map (·.reportLine.shown) := by
  rw [entries, blocksOf_blocks h hne, List.flatMap_map, List.map_flatMap]
  rfl

/-- A report has as many lines of a severity as there are diagnostics of it. -/
theorem countLines_blocks (h : ∀ d ∈ ds, d.IsLegible) (hne : ds ≠ []) (severity : Severity) :
    countLines severity (blocks ds) = ds.countP (·.severity = severity) := by
  have hperm := flatMap_groupBy_perm (·.file) ds
  rw [countLines, entries_blocks h hne, List.countP_map, ← hperm.countP_eq]
  refine List.countP_congr fun d hd => ?_
  rw [Function.comp_apply, showsSeverity,
    (h d (hperm.mem_iff.1 hd)).ofReportLine?_reportLine, Option.any_some]

/-- What a report tells of a result: its lines are those of the blocks, one block for each file in
the order in which the files first come and one line for each diagnostic of the file, in their
order. It is shown as it is, the files and their diagnostics are read back from it, and what it
counts are its lines. -/
structure Shows (report : DirectoryReport) (result : ToolResult) : Prop where
  plain : report.text.IsPlain
  laid : splitLines report.text.shown =
    [[]].intercalate ((groupBy (·.file) result.diagnostics).map blockLines)
  files : (groupBy (·.file) result.diagnostics).map Prod.fst =
    (result.diagnostics.map (·.file)).eraseDups
  once : (result.diagnostics.map (·.file)).eraseDups.Nodup
  groups : ∀ file group, (file, group) ∈ groupBy (·.file) result.diagnostics →
    group = result.diagnostics.filter (·.file = file)
  decoded : decode? report.text = some (groupBy (·.file) result.diagnostics)
  errors : report.errorCount = countLines .error report.text
  warnings : report.warningCount = countLines .warning report.text
  summary : ∃ name : String, report.summary =
    s!"{name} {statusWord result.success}: {countLines .error report.text} errors, " ++
      s!"{countLines .warning report.text} warnings"

/-- The report of legible diagnostics tells all of them. -/
theorem shows_ofToolResult (h : ∀ d ∈ ds, d.IsLegible) (hne : ds ≠ []) (tool : Option LooseText)
    (language : Language) :
    (ofToolResult language (.ofDiagnostics ds tool)).Shows (.ofDiagnostics ds tool) := by
  have hkeys : (groupBy (·.file) ds).map Prod.fst = (ds.map (·.file)).eraseDups := by
    rw [groupBy, List.map_map, lawful_beq_subsingleton List.instBEq instBEqOfDecidableEq]
    exact List.map_id _
  have herrors : countLines .error (blocks ds) = ToolResult.countErrors ds :=
    countLines_blocks h hne .error
  have hwarnings : countLines .warning (blocks ds) = ToolResult.countWarnings ds := by
    rw [countLines_blocks h hne]
    refine List.countP_congr fun d _ => ?_
    rw [Diagnostic.isError]
    cases d.severity <;> decide
  have hreport : ofToolResult language (.ofDiagnostics ds tool) = {
      strategy := .checker language
      success := ToolResult.countErrors ds = 0
      errorCount := ToolResult.countErrors ds
      warningCount := ToolResult.countWarnings ds
      text := blocks ds
      summary :=
        let status := statusWord (ToolResult.countErrors ds = 0)
        s!"{checkName language tool} {status}: {ToolResult.countErrors ds} errors, " ++
          s!"{ToolResult.countWarnings ds} warnings" } := by
    obtain ⟨first, rest, rfl⟩ := List.exists_cons_of_ne_nil hne
    rfl
  rw [hreport]
  refine ⟨isPlain_blocks h, splitLines_blocks h, hkeys, hkeys ▸ nodup_keys_groupBy (·.file) ds,
    fun _ _ hgroup => (mem_groupBy.1 hgroup).2, decode?_blocks h hne, herrors.symm, hwarnings.symm,
    checkName language tool, ?_⟩
  rw [herrors, hwarnings]
  rfl

end Legible

end DirectoryReport

end ProjectCheck
