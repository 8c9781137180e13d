import ProjectCheck.Proofs.Checker.Forms
import ProjectCheck.Proofs.Checker.Lines

/-!
How a line of the TypeScript compiler is split. The form of a line leaves open where the file ends
and where the blanks before the message do, so one line can have several splits. The file reaches as
far as it can, and for that file so do the blanks; this leaves one split, by which the line is read.
-/
namespace ProjectCheck.Checker.Tsc

open Text

structure Split where
  file : List Char
  line : List Char
  column : List Char
  severityGap : List Char
  severity : Severity
  codeGap : List Char
  number : List Char
  messageGap : List Char
  message : List Char

namespace Split

def rest (s : Split) : List Char :=
  restText s.line s.column s.severityGap s.severity s.codeGap s.number s.messageGap s.message

def finding (s : Split) : Finding :=
  ⟨s.file, s.line, s.column, s.severity, some ('T' :: 'S' :: s.number), s.message⟩

structure IsOf (s : Split) (text : List Char) : Prop where
  text_eq : text = s.file ++ s.rest
  file_ne : s.file ≠ []
  line_number : IsNumber s.line
  column_number : IsNumber s.column
  severity_gap : IsGap s.severityGap
  code_gap : IsGap s.codeGap
  code_number : IsNumber s.number
  message_gap : IsGap s.messageGap
  message_ne : s.message ≠ []

structure IsPreferred (s : Split) (text : List Char) : Prop extends s.IsOf text where
  file_longest : ∀ other : Split, other.IsOf text → other.file.length ≤ s.file.length
  gap_longest : ∀ other : Split, other.IsOf text → other.file = s.file →
    other.messageGap.length ≤ s.messageGap.length

variable {s t : Split} {text : List Char}

/-- What follows the file can be read, up to where the message starts. -/
theorem IsOf.readRest? (h : s.IsOf text) :
    ∃ found, messageAfterBlanks? (s.messageGap ++ s.message) = some found ∧
      Tsc.readRest? s.rest =
        some ⟨s.line, s.column, s.severity, 'T' :: 'S' :: s.number, found⟩ := by
  obtain ⟨found, hfound⟩ := exists_messageAfterBlanks? h.message_gap h.message_ne
  exact ⟨found, hfound, readRest?_restText s.severity h.line_number h.column_number h.severity_gap
    h.code_gap h.code_number hfound⟩

/-- The text after the file determines its parts, but for where the message starts. -/
theorem IsOf.rest_inj (hs : s.IsOf text) (ht : t.IsOf text) (h : s.rest = t.rest) :
    s.line = t.line ∧ s.column = t.column ∧ s.severityGap = t.severityGap ∧
      s.severity = t.severity ∧ s.codeGap = t.codeGap ∧ s.number = t.number ∧
        s.messageGap ++ s.message = t.messageGap ++ t.message := by
  have hword : ∀ (severity : Severity) rest, Stops isBlank (severity.name.toList ++ rest) := by
    intro severity rest
    cases severity <;> exact Stops.cons (by decide)
  have hletter : ∀ rest, Stops isBlank ('T' :: rest) := fun rest => Stops.cons (by decide)
  obtain ⟨hline, h⟩ := hs.line_number.append_inj ht.line_number (by decide) (List.cons.inj h).2
  obtain ⟨hcolumn, h⟩ := hs.column_number.append_inj ht.column_number (by decide) h
  obtain ⟨hgap, h⟩ := hs.severity_gap.append_inj ht.severity_gap (hword _ _) (hword _ _)
    (List.cons.inj h).2
  have hseverity := word?_severity s.severity
    (s.codeGap ++ 'T' :: 'S' :: (s.number ++ ':' :: (s.messageGap ++ s.message)))
  rw [h, word?_severity] at hseverity
  obtain ⟨hseverity, h⟩ := Prod.mk.inj (Option.some.inj hseverity)
  obtain ⟨hgap', h⟩ := ht.code_gap.append_inj hs.code_gap (hletter _) (hletter _) h
  obtain ⟨hnumber, h⟩ := ht.code_number.append_inj hs.code_number (by decide)
    (List.cons.inj (List.cons.inj h).2).2
  exact ⟨hline, hcolumn, hgap, hseverity.symm, hgap'.symm, hnumber.symm, h.symm⟩

theorem IsOf.rest_eq (hs : s.IsOf text) (ht : t.IsOf text) (h : s.file = t.file) :
    s.rest = t.rest := by
  have htext := hs.text_eq.symm.trans ht.text_eq
  rw [h] at htext
  exact List.append_cancel_left htext

/-- There is only one preferred split. -/
theorem IsPreferred.unique (hs : s.IsPreferred text) (ht : t.IsPreferred text) : s = t := by
  have hlength := Nat.le_antisymm (ht.file_longest s hs.toIsOf) (hs.file_longest t ht.toIsOf)
  obtain ⟨hfile, hrest⟩ := List.append_inj (hs.text_eq.symm.trans ht.text_eq) hlength
  obtain ⟨hline, hcolumn, hgap, hseverity, hgap', hnumber, hmessage⟩ :=
    hs.rest_inj ht.toIsOf hrest
  have hgapLength := Nat.le_antisymm (ht.gap_longest s hs.toIsOf hfile)
    (hs.gap_longest t ht.toIsOf hfile.symm)
  obtain ⟨hgap'', hmessage⟩ := List.append_inj hmessage hgapLength
  cases s
  cases t
  simp_all

end Split

variable {text : List Char}

/-- A line that can be split has a finding. -/
theorem exists_readLine_of_isOf {s : Split} (h : s.IsOf text) : ∃ f, readLine text = some f := by
  obtain ⟨message, -, hrest⟩ := h.readRest?
  have hlast : ∀ shorter, ∃ found, splitLast readRest? (shorter ++ s.rest) = some found :=
    fun shorter => exists_splitLast shorter hrest
  obtain ⟨found, hfound⟩ := exists_nonemptySplit h.file_ne hlast
  rw [← h.text_eq] at hfound
  rw [readLine, hfound]
  exact ⟨_, rfl⟩

/-- A finding of a line is what its preferred split says. -/
theorem exists_isPreferred {f : Finding} (h : readLine text = some f) :
    ∃ s : Split, s.IsPreferred text ∧ s.finding = f := by
  simp only [readLine, Option.bind_eq_bind, Option.bind_eq_some_iff, Prod.exists] at h
  obtain ⟨file, r, hsplit, hf⟩ := h
  obtain ⟨c, first, tail, rfl, htext, hlast⟩ := nonemptySplit_eq_some hsplit
  obtain ⟨rest, htail, hrest⟩ := splitLast_eq_some hlast
  cases follows_of_readRest? hrest with
  | @intro line column gap gap' number gap'' message severity hline hcolumn hgap hgap' hnumber
      hgap'' hmessage =>
    obtain ⟨found, hfound⟩ := exists_messageAfterBlanks? hgap'' hmessage
    rw [readRest?_restText severity hline hcolumn hgap hgap' hnumber hfound] at hrest
    obtain rfl := Option.some.inj hrest
    obtain rfl := Option.some.inj hf
    obtain ⟨own, hown, hne, hsame⟩ := messageAfterBlanks?_eq_some hfound
    let s : Split := ⟨c :: first, line, column, gap, severity, gap', number, own, found⟩
    have hs : s.IsOf text := by
      refine ⟨?_, List.cons_ne_nil c first, hline, hcolumn, hgap, hgap', hnumber, hown, hne⟩
      rw [htext, htail, Split.rest, restText, restText, hsame, List.cons_append]
    refine ⟨s, ⟨hs, fun other hother => ?_, fun other hother hfile => ?_⟩, rfl⟩
    · obtain ⟨_, -, hread⟩ := hother.readRest?
      exact nonemptySplit_longest hsplit hother.text_eq hread
    · obtain ⟨-, -, -, -, -, -, hboth⟩ := hother.rest_inj hs (hother.rest_eq hs hfile)
      have hshortest := messageAfterBlanks?_shortest hfound hother.message_gap hother.message_ne
        (hsame.trans hboth.symm)
      have hlength := congrArg List.length hboth
      simp only [List.length_append, s] at hlength ⊢
      omega

theorem readsBySplit : ReadsBySplit readLine Split.IsOf Split.IsPreferred Split.finding where
  isOf_of_preferred h := h.toIsOf
  text_ne h := by
    rw [h.text_eq]
    exact List.append_ne_nil_of_left_ne_nil h.file_ne _
  reads := exists_readLine_of_isOf
  preferred := exists_isPreferred
  unique := Split.IsPreferred.unique

/-- A line says nothing when it cannot be split. When it can, one split has the longest file and for
that file the longest blanks before the message, and the line says what that split says, unless a
number of it is too long to be read. -/
theorem read_by_split {output : String} (hline : IsLine output.toList) :
    ((¬ ∃ s : Split, s.IsOf output.toList) →
      read output = .ok (ToolResult.ofDiagnostics [] (some toolName))) ∧
    ((∃ s : Split, s.IsOf output.toList) → ∃! s : Split, s.IsPreferred output.toList) ∧
    ∀ s : Split, s.IsPreferred output.toList → s.finding.ComesTo toolName (read output) := by
  have hread := readsBySplit.readOutput toolName hline
  exact ⟨hread.silent, hread.unique, hread.told⟩

/-- A line with a place in its message is read with that place, and the file reaches up to it. -/
theorem read_by_split_twoPlaces :
    read "src/(a)/b.ts(3,7):  error TS2345:   x(1,2): warning\tTS9:  y z " =
      .ok (ToolResult.ofDiagnostics [{
        file := "src/(a)/b.ts(3,7):  error TS2345:   x"
        line := 1
        column := 2
        message := "y z "
        severity := .warning
        code := some "TS9" }] (some toolName)) := by
  have hread : readLine "src/(a)/b.ts(3,7):  error TS2345:   x(1,2): warning\tTS9:  y z ".toList =
      some ⟨"src/(a)/b.ts(3,7):  error TS2345:   x".toList, ['1'], ['2'], .warning,
        some "TS9".toList, "y z ".toList⟩ := by decide +kernel
  obtain ⟨s, hs, hfinding⟩ := exists_isPreferred hread
  have hcomes := (read_by_split (by decide +kernel)).2.2 s hs
  rw [hfinding] at hcomes
  refine (hcomes.short (by decide) (by decide)).trans ?_
  decide +kernel

end ProjectCheck.Checker.Tsc
