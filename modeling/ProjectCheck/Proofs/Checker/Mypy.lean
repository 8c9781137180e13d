import Mathlib.Logic.ExistsUnique
import ProjectCheck.Proofs.Checker.Forms
import ProjectCheck.Proofs.Checker.Lines

/-!
How a line of mypy is split. An extension with a colon after it can stand at several places of a
line, and a bracket at its end can be a code or belong to the message. The file is as short as it
can be, and for that file so is the message; this leaves one split, and the line is read by it.
-/
namespace ProjectCheck.Checker.Mypy

open Text

def gradeWord : Option Severity → List Char
  | none => "note".toList
  | some severity => severity.name.toList

structure Split where
  file : List Char
  line : List Char
  column : Option (List Char)
  grade : Option Severity
  message : List Char
  code : Option (List Char × List Char)

namespace Split

def columnPart : Option (List Char) → List Char
  | none => []
  | some column => column ++ [':']

def codePart : Option (List Char × List Char) → List Char
  | none => []
  | some (gap, code) => gap ++ '[' :: (code ++ [']'])

def body (s : Split) : List Char := s.message ++ codePart s.code

def rest (s : Split) : List Char :=
  ':' :: (s.line ++ ':' :: (columnPart s.column ++ ' ' :: (gradeWord s.grade ++
    ([':', ' '] ++ s.body))))

def finding (s : Split) (severity : Severity) : Finding :=
  ⟨s.file, s.line, s.column.getD [], severity, s.code.map Prod.snd, s.message⟩

structure IsOf (s : Split) (text : List Char) : Prop where
  text_eq : text = s.file ++ s.rest
  named : ∃ stem, stem ≠ [] ∧ ∃ extension ∈ extensions, s.file = stem ++ extension
  line_number : IsNumber s.line
  column_number : ∀ column, s.column = some column → IsNumber column
  message_ne : s.message ≠ []
  code_closed : ∀ gap code, s.code = some (gap, code) → IsGap gap ∧ code ≠ [] ∧ ']' ∉ code

structure IsPreferred (s : Split) (text : List Char) : Prop extends s.IsOf text where
  file_shortest : ∀ other : Split, other.IsOf text → s.file.length ≤ other.file.length
  message_shortest : ∀ other : Split, other.IsOf text → other.file = s.file →
    s.message.length ≤ other.message.length

variable {s t : Split} {text : List Char}

/-! The parts are read as they stand. -/

theorem column?_columnPart {column : Option (List Char)}
    (hcolumn : ∀ run, column = some run → IsNumber run) (rest : List Char) :
    column? (columnPart column ++ ' ' :: rest) = (column.getD [], ' ' :: rest) := by
  cases column with
  | none =>
    have hnone : numberThen? ':' (' ' :: rest) = none :=
      numberThen?_eq_none (Stops.cons (by decide))
    rw [columnPart, List.nil_append, column?, hnone]
    rfl
  | some run =>
    have hsome := numberThen?_append (hcolumn run rfl) isDigit_colon (' ' :: rest)
    rw [columnPart, List.append_assoc, List.singleton_append, column?, hsome]
    rfl

theorem word?_gradeWord (grade : Option Severity) (rest : List Char) :
    word? gradeWords (gradeWord grade ++ rest) = some (grade, rest) := by
  cases grade with
  | none => rfl
  | some severity => exact word?_grade severity rest

theorem codeAtEnd?_codePart {code : Option (List Char × List Char)}
    (hcode : ∀ gap run, code = some (gap, run) → IsGap gap ∧ run ≠ [] ∧ ']' ∉ run) :
    codeAtEnd? (codePart code) = some (code.map Prod.snd) := by
  cases code with
  | none => rfl
  | some both =>
    obtain ⟨gap, run⟩ := both
    obtain ⟨hgap, hne, hclosed⟩ := hcode gap run rfl
    exact codeAtEnd?_append hgap hne hclosed

/-- What follows the stem can be read, up to where the message ends. -/
theorem IsOf.readRest? (h : s.IsOf text) {extension : List Char}
    (hextension : extension ∈ extensions) :
    ∃ message code, nonemptySplit (splitFirst codeAtEnd?) s.body = some (message, code) ∧
      Mypy.readRest? (extension ++ s.rest) =
        some (extension, ⟨s.line, s.column.getD [], s.grade, code, message⟩) := by
  obtain ⟨⟨message, code⟩, hbody⟩ :=
    exists_split_of_rest h.message_ne (codeAtEnd?_codePart h.code_closed)
  exact ⟨message, code, hbody, readRest?_parts hextension h.line_number
    (column?_columnPart h.column_number) (word?_gradeWord s.grade) hbody⟩

/-! The text determines the parts. -/

theorem columnPart_inj {column column' : Option (List Char)} {rest rest' : List Char}
    (hcolumn : ∀ run, column = some run → IsNumber run)
    (hcolumn' : ∀ run, column' = some run → IsNumber run)
    (h : columnPart column ++ ' ' :: rest = columnPart column' ++ ' ' :: rest') :
    column = column' ∧ rest = rest' := by
  have hread := column?_columnPart hcolumn rest
  rw [h, column?_columnPart hcolumn' rest'] at hread
  obtain ⟨hdigits, hrest⟩ := Prod.mk.inj hread
  refine ⟨?_, (List.cons.inj hrest).2.symm⟩
  -- A column has digits, so no column is read otherwise than a column.
  cases column with
  | none =>
    cases column' with
    | none => rfl
    | some run' => exact absurd hdigits (hcolumn' run' rfl).1
  | some run =>
    cases column' with
    | none => exact absurd hdigits.symm (hcolumn run rfl).1
    | some run' => exact congrArg some hdigits.symm

theorem codePart_inj {code code' : Option (List Char × List Char)}
    (hcode : ∀ gap run, code = some (gap, run) → IsGap gap ∧ run ≠ [] ∧ ']' ∉ run)
    (hcode' : ∀ gap run, code' = some (gap, run) → IsGap gap ∧ run ≠ [] ∧ ']' ∉ run)
    (h : codePart code = codePart code') : code = code' := by
  have hne : ∀ gap run : List Char, [] ≠ gap ++ '[' :: (run ++ [']']) := by
    intro gap run hnil
    have hlength := congrArg List.length hnil
    simp at hlength
  cases code with
  | none =>
    cases code' with
    | none => rfl
    | some both' => exact absurd h (hne both'.1 both'.2)
  | some both =>
    cases code' with
    | none => exact absurd h.symm (hne both.1 both.2)
    | some both' =>
      obtain ⟨hgap, hrest⟩ := (hcode both.1 both.2 rfl).1.append_inj (hcode' both'.1 both'.2 rfl).1
        (Stops.cons (by decide)) (Stops.cons (by decide)) h
      exact congrArg some (Prod.ext hgap (List.append_cancel_right (List.cons.inj hrest).2))

/-- The text after the file determines its parts, but for where the message ends. -/
theorem IsOf.rest_inj (hs : s.IsOf text) (ht : t.IsOf text) (h : s.rest = t.rest) :
    s.line = t.line ∧ s.column = t.column ∧ s.grade = t.grade ∧ s.body = t.body := by
  obtain ⟨hline, h⟩ := hs.line_number.append_inj ht.line_number (by decide) (List.cons.inj h).2
  obtain ⟨hcolumn, h⟩ := columnPart_inj hs.column_number ht.column_number h
  have hgrade := word?_gradeWord s.grade ([':', ' '] ++ s.body)
  rw [h, word?_gradeWord] at hgrade
  obtain ⟨hgrade, h⟩ := Prod.mk.inj (Option.some.inj hgrade)
  exact ⟨hline, hcolumn, hgrade.symm, (List.append_cancel_left h).symm⟩

theorem IsOf.rest_eq (hs : s.IsOf text) (ht : t.IsOf text) (h : s.file = t.file) :
    s.rest = t.rest := by
  have htext := hs.text_eq.symm.trans ht.text_eq
  rw [h] at htext
  exact List.append_cancel_left htext

/-- There is only one preferred split. -/
theorem IsPreferred.unique (hs : s.IsPreferred text) (ht : t.IsPreferred text) : s = t := by
  have hlength := Nat.le_antisymm (hs.file_shortest t ht.toIsOf) (ht.file_shortest s hs.toIsOf)
  obtain ⟨hfile, hrest⟩ := List.append_inj (hs.text_eq.symm.trans ht.text_eq) hlength
  obtain ⟨hline, hcolumn, hgrade, hbody⟩ := hs.rest_inj ht.toIsOf hrest
  have hmessageLength := Nat.le_antisymm (hs.message_shortest t ht.toIsOf hfile.symm)
    (ht.message_shortest s hs.toIsOf hfile)
  obtain ⟨hmessage, hcode⟩ := List.append_inj hbody hmessageLength
  have hcode := codePart_inj hs.code_closed ht.code_closed hcode
  cases s
  cases t
  simp_all

end Split

variable {text : List Char}

/-! Where the file ends. -/

theorem length_extension {extension : List Char} (h : extension ∈ extensions) :
    3 ≤ extension.length ∧ extension.length ≤ 4 := by
  simp only [extensions, List.mem_cons, List.not_mem_nil, or_false] at h
  rcases h with rfl | rfl <;> decide

/-- An extension with a colon after it can be told from the other one. -/
theorem extension_inj {extension extension' rest rest' : List Char}
    (h : extension ∈ extensions) (h' : extension' ∈ extensions)
    (heq : extension ++ ':' :: rest = extension' ++ ':' :: rest') : extension = extension' := by
  have hread := afterExtension?_append h rest
  rw [heq, afterExtension?_append h' rest'] at hread
  rw [← (Option.some.inj hread)] at heq
  exact List.append_cancel_right heq

/-- The shorter stem makes the shorter file, since the colon comes right after the extension. -/
theorem length_file_le {stem stem' extension extension' rest rest' : List Char}
    (h : extension ∈ extensions) (h' : extension' ∈ extensions)
    (hstem : stem.length ≤ stem'.length)
    (heq : stem ++ (extension ++ ':' :: rest) = stem' ++ (extension' ++ ':' :: rest')) :
    (stem ++ extension).length ≤ (stem' ++ extension').length := by
  have hlong := length_extension h
  have hlong' := length_extension h'
  rw [List.length_append, List.length_append]
  by_cases hsame : stem.length = stem'.length
  · rw [extension_inj h h' (List.append_inj heq hsame).2]
    omega
  · omega

/-! What is read has been put together. -/

theorem exists_columnPart (s : List Char) :
    ∃ column, (∀ run, column = some run → IsNumber run) ∧ (column? s).1 = column.getD [] ∧
      s = Split.columnPart column ++ (column? s).2 := by
  rw [column?]
  cases hread : numberThen? ':' s with
  | none =>
    refine ⟨none, fun run hrun => ?_, rfl, rfl⟩
    cases hrun
  | some found =>
    obtain ⟨run, rest⟩ := found
    obtain ⟨hrun, hs⟩ := numberThen?_eq_some hread
    refine ⟨some run, fun other hother => Option.some.inj hother ▸ hrun, rfl, ?_⟩
    rw [hs, Split.columnPart, List.append_assoc, List.singleton_append]

theorem eq_gradeWord_append {s rest : List Char} {grade : Option Severity}
    (h : word? gradeWords s = some (grade, rest)) : s = gradeWord grade ++ rest := by
  obtain ⟨word, hmem, rfl⟩ := word?_eq_some h
  simp only [gradeWords, List.mem_cons, Prod.mk.injEq, List.not_mem_nil, or_false] at hmem
  rcases hmem with ⟨rfl, rfl⟩ | ⟨rfl, rfl⟩ | ⟨rfl, rfl⟩ <;> rfl

theorem eq_of_readRest? {s extension : List Char} {r : Rest}
    (h : readRest? s = some (extension, r)) :
    extension ∈ extensions ∧ IsNumber r.line ∧ ∃ column body,
      (∀ run, column = some run → IsNumber run) ∧ r.column = column.getD [] ∧
      s = extension ++ ':' :: (r.line ++ ':' :: (Split.columnPart column ++ ' ' ::
        (gradeWord r.grade ++ ([':', ' '] ++ body)))) ∧
      nonemptySplit (splitFirst codeAtEnd?) body = some (r.message, r.code) := by
  simp only [readRest?, Option.bind_eq_bind, Option.bind_eq_some_iff, Prod.exists] at h
  obtain ⟨afterFile, hfile, s₁, hcolon, line, s₂, hline, s₃, hspace, grade, s₄, hgrade, body,
    hmark, message, code, hbody, hr⟩ := h
  obtain ⟨e, he, rfl⟩ := eq_of_afterExtension? hfile
  obtain ⟨hextension, rfl⟩ := Prod.mk.inj (Option.some.inj hr)
  rw [List.length_append, Nat.add_sub_cancel, List.take_left] at hextension
  subst hextension
  obtain ⟨hnumber, rfl⟩ := numberThen?_eq_some hline
  obtain ⟨column, hcolumn, hdigits, hpart⟩ := exists_columnPart s₂
  have hspace := after?_eq_some hspace
  have hmark := after?_eq_some hmark
  refine ⟨he, hnumber, column, body, hcolumn, hdigits, ?_, hbody⟩
  rw [after?_eq_some hcolon, ← hmark, ← eq_gradeWord_append hgrade]
  rw [hspace] at hpart
  exact congrArg (fun rest => e ++ ':' :: (line ++ ':' :: rest)) hpart

theorem exists_codePart {s : List Char} {found : Option (List Char)}
    (h : codeAtEnd? s = some found) :
    ∃ code, (∀ gap run, code = some (gap, run) → IsGap gap ∧ run ≠ [] ∧ ']' ∉ run) ∧
      found = code.map Prod.snd ∧ s = Split.codePart code := by
  rcases codeAtEnd?_eq_some h with ⟨hnil, hnone⟩ | ⟨gap, code, hgap, hne, hclosed, hs, hsome⟩
  · exact ⟨none, nofun, hnone, hnil⟩
  · refine ⟨some (gap, code), fun gap' run heq => ?_, hsome, hs⟩
    obtain ⟨rfl, rfl⟩ := Prod.mk.inj (Option.some.inj heq)
    exact ⟨hgap, hne, hclosed⟩

/-- What is read after a stem makes a split with that stem. -/
theorem exists_isOf {stem rest extension : List Char} {r : Rest} (hne : stem ≠ [])
    (h : readRest? rest = some (extension, r)) :
    ∃ s : Split, s.IsOf (stem ++ rest) ∧ s.file = stem ++ extension ∧ extension ∈ extensions ∧
      s.grade = r.grade ∧ nonemptySplit (splitFirst codeAtEnd?) s.body = some (s.message, r.code) ∧
      ∀ severity, s.finding severity =
        ⟨stem ++ extension, r.line, r.column, severity, r.code, r.message⟩ := by
  obtain ⟨hextension, hline, column, body, hcolumn, hdigits, hrest, hbody⟩ := eq_of_readRest? h
  obtain ⟨ending, hmessage, hends, hread⟩ := exists_rest_of_splitFirst hbody
  obtain ⟨code, hcode, hfound, hending⟩ := exists_codePart hread
  have hboth : body = r.message ++ Split.codePart code := by rw [hends, hending]
  refine ⟨⟨stem ++ extension, r.line, column, r.grade, r.message, code⟩,
    ⟨?_, ⟨stem, hne, extension, hextension, rfl⟩, hline, hcolumn, hmessage, hcode⟩, rfl,
    hextension, rfl, ?_, fun severity => ?_⟩
  · rw [hrest, hboth, Split.rest, Split.body, List.append_assoc]
  · rw [Split.body, ← hboth]
    exact hbody
  · rw [Split.finding, hdigits, hfound]

/-! Lines are read by their preferred splits. -/

/-- The split that is found after the first stem is the preferred one. -/
theorem exists_isPreferred {stem extension : List Char} {r : Rest}
    (h : nonemptySplit (splitFirst readRest?) text = some (stem, extension, r)) :
    ∃ s : Split, s.IsPreferred text ∧ s.grade = r.grade ∧ ∀ severity, s.finding severity =
      ⟨stem ++ extension, r.line, r.column, severity, r.code, r.message⟩ := by
  obtain ⟨rest, hne, rfl, hrest⟩ := exists_rest_of_splitFirst h
  obtain ⟨s, hs, hfile, hextension, hgrade, hbody, hfinding⟩ := exists_isOf hne hrest
  refine ⟨s, ⟨hs, fun other hother => ?_, fun other hother hsame => ?_⟩, hgrade, hfinding⟩
  · obtain ⟨stem', hne', extension', hextension', hfile'⟩ := hother.named
    obtain ⟨_, _, -, hread⟩ := hother.readRest? hextension'
    have hother' : stem ++ rest = stem' ++ (extension' ++ other.rest) := by
      rw [hother.text_eq, hfile', List.append_assoc]
    have hshorter := nonemptySplit_shortest h hne' hother' hread
    have hboth : stem ++ (extension ++ s.rest) = stem' ++ (extension' ++ other.rest) := by
      rw [← hother', hs.text_eq, hfile, List.append_assoc]
    rw [hfile, hfile']
    exact length_file_le hextension hextension' hshorter hboth
  · obtain ⟨-, -, -, hbodies⟩ := hother.rest_inj hs (hother.rest_eq hs hsame)
    exact nonemptySplit_shortest hbody hother.message_ne hbodies.symm
      (Split.codeAtEnd?_codePart hother.code_closed)

theorem exists_isPreferred_of_isOf {s : Split} (h : s.IsOf text) :
    ∃ t : Split, t.IsPreferred text ∧
      readLine text = t.grade.map fun severity => t.finding severity := by
  obtain ⟨stem, hne, extension, hextension, hfile⟩ := h.named
  obtain ⟨_, _, -, hrest⟩ := h.readRest? hextension
  obtain ⟨⟨stem', extension', r⟩, hfound⟩ := exists_split_of_rest hne hrest
  rw [← List.append_assoc, ← hfile, ← h.text_eq] at hfound
  obtain ⟨t, ht, hgrade, hfinding⟩ := exists_isPreferred hfound
  refine ⟨t, ht, ?_⟩
  rw [readLine, hfound, hgrade]
  cases hsevere : r.grade with
  | none => simp [hsevere]
  | some severity => simp [hsevere, hfinding severity]

/-- A line that cannot be split has no finding. -/
theorem readLine_eq_none (h : ¬ ∃ s : Split, s.IsOf text) : readLine text = none := by
  rw [readLine]
  cases hfound : nonemptySplit (splitFirst readRest?) text with
  | none => rfl
  | some found =>
    obtain ⟨s, hs, -⟩ := exists_isPreferred hfound
    exact absurd ⟨s, hs.toIsOf⟩ h

/-- Where a line can be split, it is read by its one preferred split; a note says nothing. -/
theorem readLine_of_isPreferred {s : Split} (h : s.IsPreferred text) :
    readLine text = s.grade.map fun severity => s.finding severity := by
  obtain ⟨t, ht, hread⟩ := exists_isPreferred_of_isOf h.toIsOf
  rw [hread, ht.unique h]

theorem existsUnique_isPreferred {s : Split} (h : s.IsOf text) :
    ∃! t : Split, t.IsPreferred text := by
  obtain ⟨t, ht, -⟩ := exists_isPreferred_of_isOf h
  exact ⟨t, ht, fun other hother => hother.unique ht⟩

/-- A finding of a line is what its preferred split says. -/
theorem exists_isPreferred_of_readLine {f : Finding} (h : readLine text = some f) :
    ∃ s : Split, s.IsPreferred text ∧ s.grade = some f.severity ∧ s.finding f.severity = f := by
  by_cases hsplit : ∃ s : Split, s.IsOf text
  · obtain ⟨s, hs⟩ := hsplit
    obtain ⟨t, ht, hread⟩ := exists_isPreferred_of_isOf hs
    rw [h] at hread
    obtain ⟨severity, hgrade, rfl⟩ := Option.map_eq_some_iff.1 hread.symm
    exact ⟨t, ht, hgrade, rfl⟩
  · rw [readLine_eq_none hsplit] at h
    cases h

/-- A line says nothing when it cannot be split. When it can, one split has the shortest file and
for that file the shortest message. If that one is a note, the line says nothing; otherwise it says
what the split says, unless a number of it is too long to be read. -/
theorem read_by_shortest_split {output : String} (hline : IsLine output.toList) :
    ((¬ ∃ s : Split, s.IsOf output.toList) →
      read output = .ok (ToolResult.ofDiagnostics [] (some toolName))) ∧
    ((∃ s : Split, s.IsOf output.toList) → ∃! s : Split, s.IsPreferred output.toList) ∧
    ∀ s : Split, s.IsPreferred output.toList →
      (s.grade = none → read output = .ok (ToolResult.ofDiagnostics [] (some toolName))) ∧
      ∀ severity, s.grade = some severity →
        (s.finding severity).ComesTo toolName (read output) := by
  refine ⟨fun hnone => ?_, fun hsplit => ?_,
    fun s hs => ⟨fun hnote => ?_, fun severity hgrade => ?_⟩⟩
  · exact readOutput_of_silent hline (readLine_eq_none hnone)
  · obtain ⟨s, hs⟩ := hsplit
    exact existsUnique_isPreferred hs
  · have hread := readLine_of_isPreferred hs
    rw [hnote] at hread
    exact readOutput_of_silent hline hread
  · have hread := readLine_of_isPreferred hs
    rw [hgrade] at hread
    have hne : output.toList ≠ [] := by
      obtain ⟨stem, hstem, extension, -, hfile⟩ := hs.named
      rw [hs.text_eq, hfile, List.append_assoc]
      exact List.append_ne_nil_of_left_ne_nil hstem _
    exact readOutput_of_finding hline hne hread

/-- Of two extensions with a colon the first one ends the file, and the bracket at the end of the
line is the code, though another one could begin it. -/
theorem read_by_shortest_split_brackets :
    read "C:/a.py:7: error: b.py:1: error: [x] y  [a [b]" =
      .ok (ToolResult.ofDiagnostics [{
        file := "C:/a.py"
        line := 7
        column := 0
        message := "b.py:1: error: [x] y"
        severity := .error
        code := some "a [b" }] (some toolName)) := by
  have hread : readLine "C:/a.py:7: error: b.py:1: error: [x] y  [a [b]".toList =
      some ⟨"C:/a.py".toList, ['7'], [], .error, some "a [b".toList,
        "b.py:1: error: [x] y".toList⟩ := by decide +kernel
  obtain ⟨s, hs, hgrade, hfinding⟩ := exists_isPreferred_of_readLine hread
  have hcomes := ((read_by_shortest_split (by decide +kernel)).2.2 s hs).2 .error hgrade
  rw [hfinding] at hcomes
  refine (hcomes.short (by decide) (by decide)).trans ?_
  decide +kernel

end ProjectCheck.Checker.Mypy
