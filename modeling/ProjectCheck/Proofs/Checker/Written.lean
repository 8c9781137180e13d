import Mathlib.Data.List.Forall2
import ProjectCheck.Proofs.Checker.Parts
import ProjectCheck.Proofs.Text.Lines
import ProjectCheck.Proofs.Text.Loose

/-!
Outputs with one diagnostic a line. An output is read back when each of its lines is, whatever the
ends of the lines. A line starts with a file, and where the form of a line asks for a file with a
known extension, the file ends at the first such extension with a colon after it.
-/
namespace ProjectCheck.Checker

open Text

/-- What every form asks of a diagnostic: nothing in its texts ends a line and no lone surrogate is
in them, its numbers are short enough to be read, and it says something. -/
structure Printable (d : Diagnostic) : Prop where
  file_plain : d.file.IsPlain
  file_line : IsLine d.file.shown
  message_plain : d.message.IsPlain
  message_line : IsLine d.message.shown
  message_ne : d.message.shown ≠ []
  code_plain : ∀ code, d.code = some code → code.IsPlain
  code_line : ∀ code, d.code = some code → IsLine code.shown
  line_short : (Nat.toDigits 10 d.line).length ≤ digitLimit
  column_short : (Nat.toDigits 10 d.column).length ≤ digitLimit

/-- The file has one of the extensions after a stem, and no extension with a colon after it stands
anywhere in it. -/
structure IsNamed (extensions : List (List Char)) (file stem extension : List Char) : Prop where
  known : extension ∈ extensions
  file_eq : file = stem ++ extension
  stem_ne : stem ≠ []
  once : ∀ other ∈ extensions, ¬ other ++ [':'] <:+: file

variable {d : Diagnostic}

def findingOf (d : Diagnostic) (column : List Char) : Finding where
  file := d.file.shown
  line := Nat.toDigits 10 d.line
  column := column
  severity := d.severity
  code := d.code.map LooseText.shown
  message := d.message.shown

theorem Printable.diagnostic_findingOf (h : Printable d) {column : List Char}
    (hcolumn : column = Nat.toDigits 10 d.column ∨ column = [] ∧ d.column = 0) :
    (findingOf d column).diagnostic = .ok d := by
  have hreads : readDigits column = .ok d.column := by
    rcases hcolumn with rfl | ⟨rfl, hzero⟩
    · rw [readDigits_eq_ok h.column_short, digitsValue_toDigits]
    · rw [hzero]
      rfl
  have hcode : ((d.code.map LooseText.shown).map fun code =>
      LooseText.ofString (String.ofList code)) = d.code := by
    cases hcoded : d.code with
    | none => rfl
    | some code => exact congrArg some (h.code_plain code hcoded)
  have hfile : LooseText.ofString (String.ofList d.file.shown) = d.file := h.file_plain
  have hmessage : LooseText.ofString (String.ofList d.message.shown) = d.message := h.message_plain
  simp only [Finding.diagnostic, findingOf, readDigits_eq_ok h.line_short, digitsValue_toDigits,
    hreads, hcode, hfile, hmessage]
  rfl

structure IsRead (readLine : List Char → Option Finding) (d : Diagnostic) (line : List Char) :
    Prop where
  whole : IsLine line
  ne : line ≠ []
  reads : ∃ finding, readLine line = some finding ∧ finding.diagnostic = .ok d

/-- An output is read back when each of its lines is. -/
theorem readOutput_laid {tool : String} {readLine : List Char → Option Finding}
    {allowed : LineEnd → Prop} {ds : List Diagnostic} {lines : List (List Char)} {output : String}
    (hlines : List.Forall₂ (IsRead readLine) ds lines)
    (houtput : Laid allowed lines output.toList) :
    readOutput tool readLine output = .ok (ToolResult.ofDiagnostics ds (some tool)) := by
  have hread : (∀ line ∈ lines, IsLine line ∧ line ≠ []) ∧
      (lines.filterMap readLine).mapM Finding.diagnostic = .ok ds := by
    clear houtput
    induction hlines with
    | nil => exact ⟨by simp, rfl⟩
    | cons hfirst _ ih =>
      obtain ⟨finding, hreads, hsays⟩ := hfirst.reads
      refine ⟨List.forall_mem_cons.2 ⟨⟨hfirst.whole, hfirst.ne⟩, ih.1⟩, ?_⟩
      rw [List.filterMap_cons_some hreads, List.mapM_cons, hsays, ih.2]
      rfl
  rw [readOutput, splitLines_laid houtput (fun line hline => (hread.1 line hline).1)
    (fun _ line hline => (hread.1 line hline).2), hread.2]
  rfl

/-! Files with a known extension. -/

/-- The end of a text reaches into its first part, or not. -/
theorem suffix_append_cases {t first last : List Char} (h : t <:+ first ++ last) :
    t <:+ last ∨ ∃ u, u ≠ [] ∧ u <:+ first ∧ t = u ++ last := by
  obtain ⟨before, heq⟩ := h
  rcases List.append_eq_append_iff.1 heq with ⟨u, hfirst, ht⟩ | ⟨u, -, hlast⟩
  · cases u with
    | nil => exact .inl (by rw [ht]; exact List.suffix_refl _)
    | cons c u => exact .inr ⟨c :: u, by simp, ⟨before, hfirst.symm⟩, ht⟩
  · exact .inl ⟨u, hlast.symm⟩

structure Distinct (extensions : List (List Char)) : Prop where
  no_colon : ∀ e ∈ extensions, ':' ∉ e
  no_suffix : ∀ e ∈ extensions, ∀ e' ∈ extensions, e <:+ e' → e = e'

/-- No extension with a colon after it starts inside the stem. -/
theorem IsNamed.not_prefix {extensions : List (List Char)} {file stem extension : List Char}
    (hnamed : IsNamed extensions file stem extension) (hdistinct : Distinct extensions)
    {t : List Char} (hne : t ≠ []) (ht : t <:+ stem) {other : List Char}
    (hother : other ∈ extensions) (rest : List Char) :
    ¬ other ++ [':'] <+: t ++ (extension ++ ':' :: rest) := by
  have hend : t ++ extension <:+ file := by
    rw [hnamed.file_eq]
    obtain ⟨before, rfl⟩ := ht
    exact ⟨before, by simp⟩
  have hdiffer : t ++ extension ≠ other := by
    intro heq
    have hsame := hdistinct.no_suffix _ hnamed.known _ hother ⟨t, heq⟩
    rw [hsame] at heq
    exact hne (List.append_left_eq_self.1 heq)
  rintro ⟨after, hafter⟩
  have hsplit : other ++ (':' :: after) = (t ++ extension) ++ (':' :: rest) := by
    simpa using hafter
  rcases List.append_eq_append_iff.1 hsplit with ⟨u, hlong, hcolon⟩ | ⟨u, hshort, hcolon⟩
  · -- The extension ends inside the file, so its colon stands in the file.
    cases u with
    | nil => exact hdiffer (by rw [hlong, List.append_nil])
    | cons c u =>
      obtain ⟨rfl, -⟩ := List.cons.inj hcolon
      have hwithin : other ++ [':'] <:+: t ++ extension := ⟨[], u, by simp [hlong]⟩
      exact hnamed.once other hother (hwithin.trans hend.isInfix)
  · -- The file ends inside the extension, which has no colon.
    cases u with
    | nil => exact hdiffer (by rw [hshort, List.append_nil])
    | cons c u =>
      obtain ⟨rfl, -⟩ := List.cons.inj hcolon
      exact hdistinct.no_colon other hother (by rw [hshort]; simp)

/-- A line is split after the stem of its file. -/
theorem IsNamed.split {α : Type} {readRest : List Char → Option α} {a : α}
    {extensions : List (List Char)} {file stem extension rest : List Char}
    (hnamed : IsNamed extensions file stem extension) (hdistinct : Distinct extensions)
    (hreads : ∀ s a, readRest s = some a → ∃ e ∈ extensions, e ++ [':'] <+: s)
    (hrest : readRest (extension ++ ':' :: rest) = some a) :
    nonemptySplit (splitFirst readRest) (file ++ ':' :: rest) = some (stem, a) := by
  rw [hnamed.file_eq, List.append_assoc]
  refine nonemptySplit_append hnamed.stem_ne (splitFirst_append hrest fun t hne ht => ?_)
  cases hfound : readRest (t ++ (extension ++ ':' :: rest)) with
  | none => rfl
  | some b =>
    obtain ⟨other, hother, hprefix⟩ := hreads _ b hfound
    exact absurd hprefix
      (hnamed.not_prefix hdistinct hne (ht.trans (List.tail_suffix stem)) hother rest)

end ProjectCheck.Checker
